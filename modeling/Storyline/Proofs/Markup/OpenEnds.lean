import Mathlib.Data.List.Basic
import Storyline.Markup.Parser

/-!
# Documents up to where headers and matches end

A header and a match end with their line, or with the last block below them.  Where their line
itself ends depends on the layout, so in comparing documents these ends are left out: `withoutEnds`
sets them back to the starts, for headers, for matches, and for the choices and the groups of
choices with a header or a match among the blocks below them.  Nothing else is changed.
-/

namespace Storyline

/-- The span with its end set back to its start. -/
def Span.withoutEnd (s : Span) : Span := { s with stop := s.start }

namespace Markup

/-! ## Headers and matches -/

mutual

/-- Whether a block is a header or a match, or encloses one. -/
def Block.hasOpenEnd : Block → Bool
  | .header .. | .branch .. => true
  | .choices cs _ _ => anyChoiceOpen cs
  | .paragraph _ | .code _ | .divert _ => false

/-- Whether some block is a header or a match, or encloses one. -/
def anyBlockOpen : List Block → Bool
  | [] => false
  | b :: bs => b.hasOpenEnd || anyBlockOpen bs

/-- Whether a choice encloses a header or a match. -/
def Choice.hasOpenEnd : Choice → Bool
  | .mk _ children => anyBlockOpen children

/-- Whether some choice encloses a header or a match. -/
def anyChoiceOpen : List Choice → Bool
  | [] => false
  | c :: cs => c.hasOpenEnd || anyChoiceOpen cs

end

/-- The span of something that may enclose a header or a match, without its end if it does. -/
def Span.openIf (isOpen : Bool) (s : Span) : Span := if isOpen then s.withoutEnd else s

mutual

/-- A block without the ends that depend on where the lines of headers and matches end. -/
def Block.withoutEnds : Block → Block
  | .header h children => .header { h with span := h.span.withoutEnd } (blocksWithoutEnds children)
  | .branch m arms children =>
    .branch { m with span := m.span.withoutEnd } (choicesWithoutEnds arms)
      (blocksWithoutEnds children)
  | .choices cs as s => .choices (choicesWithoutEnds cs) as (Span.openIf (anyChoiceOpen cs) s)
  | .paragraph p => .paragraph p
  | .code c => .code c
  | .divert d => .divert d

/-- Blocks without the ends of headers and matches. -/
def blocksWithoutEnds : List Block → List Block
  | [] => []
  | b :: bs => b.withoutEnds :: blocksWithoutEnds bs

/-- A choice without the ends of headers and matches. -/
def Choice.withoutEnds : Choice → Choice
  | .mk line children =>
    .mk { line with span := Span.openIf (anyBlockOpen children) line.span }
      (blocksWithoutEnds children)

/-- Choices without the ends of headers and matches. -/
def choicesWithoutEnds : List Choice → List Choice
  | [] => []
  | c :: cs => c.withoutEnds :: choicesWithoutEnds cs

end

/-- A document without the ends of headers and matches. -/
def Document.withoutEnds (d : Document) : Document := { d with blocks := blocksWithoutEnds d.blocks }

/-! ## Lists -/

theorem blocksWithoutEnds_eq (bs : List Block) : blocksWithoutEnds bs = bs.map Block.withoutEnds := by
  induction bs with
  | nil => rfl
  | cons b bs ih => simp [blocksWithoutEnds, ih]

theorem choicesWithoutEnds_eq (cs : List Choice) :
    choicesWithoutEnds cs = cs.map Choice.withoutEnds := by
  induction cs with
  | nil => rfl
  | cons c cs ih => simp [choicesWithoutEnds, ih]

theorem blocksWithoutEnds_append (bs bs' : List Block) :
    blocksWithoutEnds (bs ++ bs') = blocksWithoutEnds bs ++ blocksWithoutEnds bs' := by
  simp [blocksWithoutEnds_eq]

/-! ## What is left -/

mutual

/-- What encloses a header or a match still does. -/
theorem Block.hasOpenEnd_withoutEnds : (b : Block) → b.withoutEnds.hasOpenEnd = b.hasOpenEnd
  | .header .. | .branch .. | .paragraph _ | .code _ | .divert _ => rfl
  | .choices cs _ _ => anyChoiceOpen_withoutEnds cs

theorem anyBlockOpen_withoutEnds : (bs : List Block) →
    anyBlockOpen (blocksWithoutEnds bs) = anyBlockOpen bs
  | [] => rfl
  | b :: bs => congrArg₂ or b.hasOpenEnd_withoutEnds (anyBlockOpen_withoutEnds bs)

theorem Choice.hasOpenEnd_withoutEnds : (c : Choice) → c.withoutEnds.hasOpenEnd = c.hasOpenEnd
  | .mk _ children => anyBlockOpen_withoutEnds children

theorem anyChoiceOpen_withoutEnds : (cs : List Choice) →
    anyChoiceOpen (choicesWithoutEnds cs) = anyChoiceOpen cs
  | [] => rfl
  | c :: cs => congrArg₂ or c.hasOpenEnd_withoutEnds (anyChoiceOpen_withoutEnds cs)

end

mutual

/-- Without headers and matches every end is kept. -/
theorem Block.withoutEnds_of_closed : (b : Block) → b.hasOpenEnd = false → b.withoutEnds = b
  | .header .., h | .branch .., h => by cases h
  | .paragraph _, _ | .code _, _ | .divert _, _ => rfl
  | .choices cs as s, h => by
    rw [Block.hasOpenEnd] at h
    rw [Block.withoutEnds, choicesWithoutEnds_of_closed cs h, h]
    rfl

theorem blocksWithoutEnds_of_closed : (bs : List Block) → anyBlockOpen bs = false →
    blocksWithoutEnds bs = bs
  | [], _ => rfl
  | b :: bs, h => by
    rw [anyBlockOpen, Bool.or_eq_false_iff] at h
    rw [blocksWithoutEnds, b.withoutEnds_of_closed h.1, blocksWithoutEnds_of_closed bs h.2]

theorem Choice.withoutEnds_of_closed : (c : Choice) → c.hasOpenEnd = false → c.withoutEnds = c
  | .mk line children, h => by
    rw [Choice.hasOpenEnd] at h
    rw [Choice.withoutEnds, blocksWithoutEnds_of_closed children h, h]
    rfl

theorem choicesWithoutEnds_of_closed : (cs : List Choice) → anyChoiceOpen cs = false →
    choicesWithoutEnds cs = cs
  | [], _ => rfl
  | c :: cs, h => by
    rw [anyChoiceOpen, Bool.or_eq_false_iff] at h
    rw [choicesWithoutEnds, c.withoutEnds_of_closed h.1, choicesWithoutEnds_of_closed cs h.2]

end

variable {bs bs' : List Block} {cs cs' : List Choice}

theorem anyBlockOpen_congr (h : blocksWithoutEnds bs = blocksWithoutEnds bs') :
    anyBlockOpen bs = anyBlockOpen bs' := by
  rw [← anyBlockOpen_withoutEnds bs, h, anyBlockOpen_withoutEnds]

theorem anyChoiceOpen_congr (h : choicesWithoutEnds cs = choicesWithoutEnds cs') :
    anyChoiceOpen cs = anyChoiceOpen cs' := by
  rw [← anyChoiceOpen_withoutEnds cs, h, anyChoiceOpen_withoutEnds]

/-- Blocks that agree up to ends are the same, unless there is a header or a match. -/
theorem eq_of_closed (h : blocksWithoutEnds bs = blocksWithoutEnds bs')
    (hclosed : anyBlockOpen bs = false) : bs = bs' := by
  have hclosed' : anyBlockOpen bs' = false := anyBlockOpen_congr h ▸ hclosed
  rwa [blocksWithoutEnds_of_closed bs hclosed, blocksWithoutEnds_of_closed bs' hclosed'] at h

theorem choices_eq_of_closed (h : choicesWithoutEnds cs = choicesWithoutEnds cs')
    (hclosed : anyChoiceOpen cs = false) : cs = cs' := by
  have hclosed' : anyChoiceOpen cs' = false := anyChoiceOpen_congr h ▸ hclosed
  rwa [choicesWithoutEnds_of_closed cs hclosed, choicesWithoutEnds_of_closed cs' hclosed'] at h

/-! ## Building blocks -/

/-- Attributes do not matter for ends. -/
theorem Block.withoutEnds_withAttrs (as : List Attribute) (b : Block) :
    (b.withAttrs as).withoutEnds = b.withoutEnds.withAttrs as := by
  cases b <;> rfl

theorem blocksWithoutEnds_attach (as : List Attribute) (bs : List Block) :
    blocksWithoutEnds (Parse.attach as bs) = Parse.attach as (blocksWithoutEnds bs) := by
  cases bs with
  | nil => rfl
  | cons b bs => exact congrArg (· :: blocksWithoutEnds bs) (b.withoutEnds_withAttrs as)

/-- Headers agree up to ends if the blocks below them do. -/
theorem header_congr (h : blocksWithoutEnds bs = blocksWithoutEnds bs') (heading : Heading)
    (file start stop stop' : Nat) :
    (Block.header { heading with span := ⟨file, start, stop⟩ } bs).withoutEnds
      = (Block.header { heading with span := ⟨file, start, stop'⟩ } bs').withoutEnds := by
  simp only [Block.withoutEnds, h]
  rfl

/-- The choices among some blocks, as arms of a match. -/
def armsOf (bs : List Block) : List Choice := bs.flatMap fun | .choices cs .. => cs | _ => []

theorem choicesWithoutEnds_armsOf (bs : List Block) :
    choicesWithoutEnds (armsOf bs) = armsOf (blocksWithoutEnds bs) := by
  rw [choicesWithoutEnds_eq, blocksWithoutEnds_eq, armsOf, armsOf, List.map_flatMap,
    List.flatMap_map]
  congr 1
  funext b
  cases b with
  | choices cs as s => exact (choicesWithoutEnds_eq cs).symm
  | header | branch | paragraph | code | divert => rfl

theorem Block.kind_withoutEnds (b : Block) : b.withoutEnds.kind = b.kind := by
  cases b <;> rfl

theorem blocksWithoutEnds_filter (bs : List Block) :
    blocksWithoutEnds (bs.filter fun b => b.kind != .choices)
      = (blocksWithoutEnds bs).filter fun b => b.kind != .choices := by
  rw [blocksWithoutEnds_eq, blocksWithoutEnds_eq, List.filter_map]
  congr 1
  refine List.filter_congr fun b _ => ?_
  rw [Function.comp_apply, b.kind_withoutEnds]

/-- Matches agree up to ends if the blocks below them do. -/
theorem branch_congr (h : blocksWithoutEnds bs = blocksWithoutEnds bs') (line : MatchLine)
    (file start stop stop' : Nat) :
    (Block.branch { line with span := ⟨file, start, stop⟩ } (armsOf bs)
        (bs.filter fun b => b.kind != .choices)).withoutEnds
      = (Block.branch { line with span := ⟨file, start, stop'⟩ } (armsOf bs')
        (bs'.filter fun b => b.kind != .choices)).withoutEnds := by
  simp only [Block.withoutEnds, choicesWithoutEnds_armsOf, blocksWithoutEnds_filter, h]
  rfl

/-- A construct that is closed ends at the same place. -/
theorem openIf_reach_congr (h : blocksWithoutEnds bs = blocksWithoutEnds bs') (file start lineEnd : Nat) :
    Span.openIf (anyBlockOpen bs) ⟨file, start, reach lineEnd bs⟩
      = Span.openIf (anyBlockOpen bs') ⟨file, start, reach lineEnd bs'⟩ := by
  rw [← anyBlockOpen_congr h]
  cases hopen : anyBlockOpen bs with
  | true => rfl
  | false => rw [eq_of_closed h hopen]

/-- Choices agree up to ends if the blocks below them do. -/
theorem choice_congr (h : blocksWithoutEnds bs = blocksWithoutEnds bs') (line : ChoiceLine)
    (ds : List Divert) (file start lineEnd : Nat) :
    (Choice.mk { line with span := ⟨file, start, reach lineEnd bs⟩ }
        (ds.map .divert ++ bs)).withoutEnds
      = (Choice.mk { line with span := ⟨file, start, reach lineEnd bs'⟩ }
        (ds.map .divert ++ bs')).withoutEnds := by
  have hopen (bs : List Block) : anyBlockOpen (ds.map .divert ++ bs) = anyBlockOpen bs := by
    induction ds with
    | nil => rfl
    | cons d ds ih => exact ih
  simp only [Choice.withoutEnds, blocksWithoutEnds_append, h, hopen, openIf_reach_congr h]

/-- Groups of choices agree up to ends if their choices do. -/
theorem choices_congr (h : choicesWithoutEnds cs = choicesWithoutEnds cs') (file start : Nat) :
    (Block.choices cs [] ⟨file, start, (cs.getLast?.map (·.span.stop)).getD start⟩).withoutEnds
      = (Block.choices cs' []
        ⟨file, start, (cs'.getLast?.map (·.span.stop)).getD start⟩).withoutEnds := by
  simp only [Block.withoutEnds, h, ← anyChoiceOpen_congr h]
  cases hopen : anyChoiceOpen cs with
  | true => rfl
  | false => rw [choices_eq_of_closed h hopen]

end Markup

end Storyline
