import Storyline.Proofs.Markup.Layouts
import Storyline.Proofs.Markup.Nesting
import Storyline.Proofs.Markup.OpenEnds
import Storyline.Proofs.Markup.Outcomes
import Storyline.Proofs.Markup.TwoRuns

/-!
# Attribute lines are kept

Attribute lines are read before it is known what stands behind them, and are given to the first
block that is read there.  In a file about which nothing is reported no attribute line is lost that
way, with one exception: a match takes the groups of choices right below it apart, to make their
choices its arms, and the attributes of such a group are gone.  `attributes_kept_iff` says that this
is the only way to lose them.

`attributeRuns` lists the lines that are read.  It follows the parser from state to state, and finds
out where the blocks below a construct start by running the construct with a body that reads
`nothing`.  A report counts wherever it is made, so that a run of the parser is known to be quiet
only at its end; since no report is taken back again (`StillReported`), each of its parts was quiet.
-/

namespace Storyline.Markup

/-! ## What is read -/

/-- Attribute lines that were read together. -/
structure AttributeRun where
  attrs : List Attribute
  /-- What the block behind the lines opens with, if there is a block. -/
  opening : Option BlockOpening
  /-- Whether the lines stand among the blocks right below a match. -/
  inBranch : Bool
deriving DecidableEq, Repr

/-- Whether the lines belong to a group of choices that a match takes apart for its arms. -/
def AttributeRun.isDissolved (r : AttributeRun) : Bool := r.inBranch && r.opening = some .choices

namespace Parse

/-- Reads no blocks: with this body a parser stops where the blocks below start. -/
def nothing : BodyParser := fun _ _ => return ([], .parsed)

/-- The attribute lines that a body reads from a state on, in the order of the file. -/
abbrev RunReader := (inBranch : Bool) → (depth stop : Nat) → ParserState → List AttributeRun

section Runs

variable (body : BodyParser) (below : RunReader)

/-- The attribute lines below the choices from a state on. -/
def choiceRuns : (fuel depth : Nat) → ParserState → List AttributeRun
  | 0, _, _ => []
  | fuel + 1, depth, s =>
    let inside := below false (depth + 1) 0 ((choice nothing depth).run s).2
    let next := (nextChoice depth).run ((choice body depth).run s).2
    inside ++ if next.1 then choiceRuns fuel depth next.2 else []

/-- The attribute lines below the block at the cursor. -/
def openedRuns (depth : Nat) (s : ParserState) : List AttributeRun :=
  let c := s.lexer.cursor
  match BlockOpening.ofCursor c with
  | .header => below false depth (c.runLength (· = '#')) ((header nothing depth).run s).2
  | .branch => below true (depth + 1) 0 ((branch nothing depth).run s).2
  | .choices => choiceRuns body below (c.limit - c.offset) depth s
  | .code | .paragraph => []

/-- The attribute lines at the cursor and those below the block behind them. -/
def blockRuns (inBranch : Bool) (depth : Nat) (s : ParserState) : List AttributeRun :=
  let c := s.lexer.cursor
  let ((attrs, _), s) := (attributeLines (c.limit - c.offset + 1) depth).run s
  if s.lexer.cursor.atEnd || s.lexer.indentDepth < depth then [⟨attrs, none, inBranch⟩]
  else
    let s := { s with lexer := s.lexer.skipIndent }
    ⟨attrs, some (.ofCursor s.lexer.cursor), inBranch⟩ :: openedRuns body below depth s

end Runs

/-- The attribute lines in front of the blocks that `sequence` reads, and below them. -/
def sequenceRuns : (fuel : Nat) → RunReader
  | 0, _, _, _, _ => []
  | fuel + 1, inBranch, depth, stop, s =>
    let s : ParserState := { s with lexer := s.lexer.skipBlankLines }
    let l := s.lexer
    if l.cursor.atEnd || l.indentDepth < depth
        || (0 < l.headerDepth && l.headerDepth ≤ stop) then []
    else
      let s' := ((block (sequence fuel) depth).run s).2
      let next :=
        if s'.lexer.cursor.offset = l.cursor.offset then { s' with lexer := s'.lexer.skipLine }
        else s'
      blockRuns (sequence fuel) (sequenceRuns fuel) inBranch depth s
        ++ sequenceRuns fuel inBranch depth stop next

end Parse

/-- The attribute lines that are accepted in a file: what `attributeLines` gives each time that it is
run for a block, if it gives anything. -/
def attributeRuns (f : File) (layout : Layout := {}) : List AttributeRun :=
  let lexer := Lexer.ofFile f layout
  (Parse.sequenceRuns (lexer.cursor.limit + 1) false 0 0 { lexer }).filter (!·.attrs.isEmpty)

/-- The attributes of visited blocks, block by block; blocks without any are left out. -/
def attributeLists (vs : List Visit) : List (List Attribute) :=
  (vs.map (·.block.attrs)).filter (!·.isEmpty)

/-- The attributes of the blocks of a document, block by block. -/
def Document.attributeLists (d : Document) : List (List Attribute) := Markup.attributeLists d.visits

/-- The attribute lines are kept: lines that were read together are all the attributes of a block,
in their order, and none of them is an attribute of the document a second time. -/
def Document.KeepsRuns (d : Document) (runs : List AttributeRun) : Prop :=
  ∀ r ∈ runs, r.attrs ∈ d.attributeLists ∧ ∀ a ∈ r.attrs, d.attributeLists.flatten.count a = 1

instance (d : Document) (runs : List AttributeRun) : Decidable (d.KeepsRuns runs) :=
  inferInstanceAs (Decidable (∀ r ∈ runs, _ ∧ ∀ a ∈ r.attrs, _ = 1))

/-! ## What is left of blocks -/

/-- What is left of the blocks below a construct: a match takes groups of choices apart. -/
def remaining (inBranch : Bool) (bs : List Block) : List Block :=
  if inBranch then (armsOf bs).flatMap Choice.children ++ bs.filter fun b => b.kind != .choices
  else bs

/-- The attributes of lines, group by group, without those of choices that are taken apart. -/
def keptLists (runs : List AttributeRun) : List (List Attribute) :=
  ((runs.filter (!·.isDissolved)).map (·.attrs)).filter (!·.isEmpty)

/-- The at sign of an attribute. -/
def Attribute.sign (a : Attribute) : Span := ⟨a.span.file, a.span.start, a.span.start + 1⟩

variable {f : File} {s s' s'' : ParserState} {inBranch : Bool} {bs cs : List Block}
  {runs more : List AttributeRun} {owner : Option Heading}

/-! ## Attributes of visited blocks -/

theorem attributeLists_append (vs ws : List Visit) :
    attributeLists (vs ++ ws) = attributeLists vs ++ attributeLists ws := by
  rw [attributeLists, List.map_append, List.filter_append, attributeLists, attributeLists]

theorem attributeLists_cons (v : Visit) (vs : List Visit) :
    attributeLists (v :: vs) = [v.block.attrs].filter (!·.isEmpty) ++ attributeLists vs :=
  attributeLists_append [v] vs

theorem keptLists_append (runs more : List AttributeRun) :
    keptLists (runs ++ more) = keptLists runs ++ keptLists more := by
  simp only [keptLists, List.filter_append, List.map_append]

theorem attributeLists_perm (h : bs.Perm cs) (owner : Option Heading) :
    (attributeLists (visitBlocks owner bs)).Perm (attributeLists (visitBlocks owner cs)) := by
  have hvisits (bs : List Block) : visitBlocks owner bs = bs.flatMap (visitBlock owner) := by
    induction bs with
    | nil => rfl
    | cons b bs ih => rw [visitBlocks, ih, List.flatMap_cons]
  rw [hvisits, hvisits]
  exact ((h.flatMap_right _).map _).filter _

theorem remaining_append (inBranch : Bool) (bs cs : List Block) :
    (remaining inBranch (bs ++ cs)).Perm (remaining inBranch bs ++ remaining inBranch cs) := by
  cases inBranch with
  | false => exact .refl _
  | true =>
    simp only [remaining, if_true, armsOf, List.flatMap_append, List.filter_append,
      List.append_assoc]
    exact .append_left _ (List.perm_append_comm_assoc ..)

theorem remaining_eq_self (h : ∀ b ∈ bs, b.kind ≠ .choices) : remaining inBranch bs = bs := by
  cases inBranch with
  | false => rfl
  | true =>
    have harms : armsOf bs = [] := by
      rw [armsOf, List.flatMap_eq_nil_iff]
      intro b hb
      cases b with
      | choices => exact absurd rfl (h _ hb)
      | header | branch | paragraph | code | divert => rfl
    rw [remaining, if_pos rfl, harms, List.flatMap_nil, List.nil_append, List.filter_eq_self]
    exact fun b hb => bne_iff_ne.mpr (h b hb)

/-- Diverts that were taken out of a line have no attributes. -/
theorem attributeLists_diverts {ds : List Divert} (h : ∀ d ∈ ds, d.attrs = []) :
    attributeLists (visitBlocks owner (ds.map .divert)) = [] := by
  induction ds with
  | nil => rfl
  | cons d ds ih =>
    obtain ⟨hd, hds⟩ := List.forall_mem_cons.mp h
    rw [List.map_cons, visitBlocks, visitBlock, List.singleton_append, attributeLists_cons, ih hds]
    simp [Block.attrs, hd]

/-- A block has the attributes in front of it, unless a match takes it apart. -/
theorem lists_withAttrs {b : Block} {o : BlockOpening} (hkind : b.kind = .choices ↔ o = .choices)
    (hbelow : ∀ owner, (attributeLists (visitBlocks owner b.children)).Perm (keptLists runs))
    (as : List Attribute) (owner : Option Heading) :
    (attributeLists (visitBlocks owner (remaining inBranch [b.withAttrs as]))).Perm
      (keptLists (⟨as, some o, inBranch⟩ :: runs)) := by
  by_cases hd : inBranch = true ∧ o = .choices
  · obtain ⟨rfl, rfl⟩ := hd
    obtain ⟨cs, as', span, rfl⟩ : ∃ cs as' span, b = .choices cs as' span := by
      cases b with
      | choices cs as' span => exact ⟨cs, as', span, rfl⟩
      | header | branch | paragraph | code | divert => simp [Block.kind] at hkind
    have hleft : remaining true [(Block.choices cs as' span).withAttrs as]
        = cs.flatMap Choice.children := by
      simp [remaining, armsOf, Block.withAttrs, Block.kind]
    rw [hleft]
    exact hbelow owner
  · have hleft : remaining inBranch [b.withAttrs as] = [b.withAttrs as] := by
      cases inBranch with
      | false => rfl
      | true =>
        refine remaining_eq_self (List.forall_mem_singleton.mpr ?_)
        rw [Block.kind_withAttrs]
        exact fun hb => hd ⟨rfl, hkind.mp hb⟩
    have hkept : keptLists (⟨as, some o, inBranch⟩ :: runs)
        = [as].filter (!·.isEmpty) ++ keptLists runs := by
      rw [← List.singleton_append, keptLists_append, keptLists]
      have hnot : (!(AttributeRun.mk as (some o) inBranch).isDissolved) = true := by
        simpa [AttributeRun.isDissolved, imp_iff_not_or] using hd
      rw [List.filter_cons_of_pos (by exact hnot)]
      rfl
    rw [hleft, hkept, visitBlocks, visitBlocks, List.append_nil, visitBlock_eq, attributeLists_cons,
      Block.attrs_withAttrs, Block.children_withAttrs]
    exact (hbelow _).append_left _

/-! ## Accounts -/

/-- A run of the parser: the invariant holds behind it, it went forward, and what was reported stays
reported. -/
structure Goes (f : File) (s s' : ParserState) : Prop where
  reaches : Reaches f s s'
  reported : Parse.StillReported s s'

/-- Between two states blocks were read with all attribute lines that were accepted: the lines stand
in the order of the file, and unless something was reported they are what the blocks have. -/
structure Accounts (f : File) (s s' : ParserState) (inBranch : Bool) (bs : List Block)
    (runs : List AttributeRun) : Prop extends Goes f s s' where
  signs : Queue Attribute.sign f.id s.lexer.cursor.offset s'.lexer.cursor.offset
    (runs.flatMap (·.attrs))
  lists : s'.log = s.log → ∀ owner,
    (attributeLists (visitBlocks owner (remaining inBranch bs))).Perm (keptLists runs)

theorem Goes.refl (h : Stands f s) : Goes f s s := ⟨.refl h, Parse.Steady.refl s⟩

theorem Goes.trans (h : Goes f s s') (k : Goes f s' s'') : Goes f s s'' :=
  ⟨h.reaches.trans k.reaches, Parse.Steady.trans h.reported k.reported⟩

namespace Accounts

theorem nil (h : Goes f s s') : Accounts f s s' inBranch [] [] :=
  ⟨h, .nil, fun _ _ => by cases inBranch <;> exact .refl _⟩

/-- What is read later can be accounted for from an earlier state on. -/
theorem after (h : Accounts f s' s'' inBranch bs runs) (k : Goes f s s') :
    Accounts f s s'' inBranch bs runs := by
  refine ⟨k.trans h.toGoes, h.signs.mono k.reaches.forward (Nat.le_refl _), fun hlog => ?_⟩
  exact h.lists (hlog.trans (k.reported.quiet h.reported hlog).symm)

theorem append (h : Accounts f s s' inBranch bs runs) (k : Accounts f s' s'' inBranch cs more) :
    Accounts f s s'' inBranch (bs ++ cs) (runs ++ more) := by
  refine ⟨h.toGoes.trans k.toGoes, ?_, fun hlog owner => ?_⟩
  · rw [List.flatMap_append]
    exact h.signs.append (fun _ _ => id) k.signs h.reaches.forward k.reaches.forward
  · have hquiet := h.reported.quiet k.reported hlog
    have hboth := (h.lists hquiet owner).append (k.lists (hlog.trans hquiet.symm) owner)
    rw [keptLists_append]
    refine (attributeLists_perm (remaining_append ..) owner).trans ?_
    rwa [visitBlocks_append, attributeLists_append]

end Accounts

namespace Parse

/-! ## Attribute lines -/

theorem start_takeAttribute : Ends takeAttribute s fun r _ =>
    ∀ p ∈ r, p.1.span.file = s.lexer.cursor.file ∧ p.1.span.start = s.lexer.cursor.offset := by
  simp only [takeAttribute, ends_bind, ends_cursor]
  split
  · intro p hp
    cases hp
  · rw [ends_bind, ends_moveTo]
    split
    · rw [ends_bind]
      refine ends_any.imp fun r s₁ _ p hp => ?_
      obtain rfl := Option.some.inj hp
      exact ⟨rfl, rfl⟩
    · intro p hp
      obtain rfl := Option.some.inj hp
      exact ⟨rfl, rfl⟩

theorem sign_attributeLine (h : Stands f s) : Ends attributeLine s fun r s' =>
    ∀ p ∈ r, Lies f.id s.lexer.cursor.offset s'.lexer.cursor.offset p.1.sign := by
  have hindent := h.ahead (d := s.log) (Lexer.skipIndent_ahead h.cursor)
  simp only [attributeLine, ends_bind, ends_get, ends_mapLexer]
  refine ((attempts_takeAttribute hindent.stands).and start_takeAttribute).imp fun r s₁ h₁ => ?_
  cases r with
  | none =>
    intro p hp
    cases hp
  | some found =>
    obtain ⟨hpasses, hstart⟩ := h₁
    have hpasses : Passes f _ s₁ := hpasses
    obtain ⟨hfile, hstart⟩ := hstart found rfl
    simp only [ends_bind, ends_offset, ends_textEnd]
    refine (ends_skipSpaces hpasses.stands).imp fun _ s₂ h₂ => ?_
    split
    · rw [ends_bind]
      refine (ends_finishLine h₂.stands).imp fun _ s₃ h₃ p hp => ?_
      obtain rfl := Option.some.inj hp
      refine ⟨hfile.trans hindent.stands.cursor.file, ?_, Nat.le_succ _, ?_⟩
      · exact Nat.le_trans hindent.forward (Nat.le_of_eq hstart.symm)
      · show found.1.span.start + 1 ≤ _
        rw [hstart]
        exact Nat.le_trans hpasses.onward (Nat.le_trans h₂.forward h₃.forward)
    · intro p hp
      cases hp

/-- The at signs of attribute lines stand one behind the other. -/
theorem signs_attributeLines (fuel depth : Nat) (h : Stands f s) :
    Ends (attributeLines fuel depth) s fun r s' =>
      Queue Attribute.sign f.id s.lexer.cursor.offset s'.lexer.cursor.offset r.1 := by
  induction fuel generalizing s with
  | zero => exact .nil
  | succ fuel ih =>
    have hblank := h.ahead (d := s.log) (Lexer.skipBlankLines_ahead h.cursor)
    simp only [attributeLines, ends_bind, ends_mapLexer, ends_lexer]
    split
    · exact .nil
    · rw [ends_bind]
      refine ((ends_attributeLine hblank.stands).and (sign_attributeLine hblank.stands)).imp
        fun r s₁ h₁ => ?_
      cases r with
      | none => exact .nil
      | some found =>
        obtain ⟨⟨hreaches, -⟩, hsign⟩ := h₁
        rw [ends_bind]
        refine ((ends_attributeLines fuel depth hreaches.stands).and (ih hreaches.stands)).imp
          fun r' s₂ h₂ => ?_
        have hqueue := (Row.single (hsign found rfl)).append (fun _ _ => id) h₂.2
          hreaches.forward h₂.1.1.forward
        exact hqueue.mono hblank.forward (Nat.le_refl _)

/-! ## Below a block -/

theorem reads_nothing (depth stop : Nat) (s : ParserState) (h : Stands f s) :
    Ends (nothing depth stop) s (ReadBlocks f s) :=
  ⟨.refl h, List.forall_mem_nil _⟩

theorem keeps_nothing {R : ParserState → ParserState → Prop} [Steady R] (depth stop : Nat) :
    Keeps R (nothing depth stop) :=
  keeps_pure _

/-- A body all of whose attribute lines are accounted for. -/
def Accountable (f : File) (body : BodyParser) (below : RunReader) : Prop :=
  ∀ inBranch depth stop s, Stands f s →
    Ends (body depth stop) s fun r s' => Accounts f s s' inBranch r.1 (below inBranch depth stop s)

variable {α : Type} {body : BodyParser} {below : RunReader}

/-- A parser that ends with its body, and enters it where it would end without one; `made` says what
comes of the blocks below. -/
def Enters (m : BodyParser → Parse α) (depth stop : Nat) (s : ParserState)
    (made : α → List Block → Prop) : Prop :=
  ∀ body, Pairs (m body) (m nothing) s s fun r _ s' s₀ =>
    ∃ b, (body depth stop).run s₀ = (b, s') ∧ made r b.1

theorem Enters.accounts {m : BodyParser → Parse α} {depth stop : Nat}
    {made : α → List Block → Prop} (h : Enters m depth stop s made)
    (hline : Goes f s ((m nothing).run s).2) (hbody : Accountable f body below) (inBranch : Bool) :
    Ends (m body) s fun r s' => ∃ bs, made r bs ∧
      Accounts f s s' inBranch bs (below inBranch depth stop ((m nothing).run s).2) := by
  obtain ⟨b, hrun, hmade⟩ := h body
  have hbelow := hbody inBranch depth stop _ hline.reaches.stands
  rw [Ends, hrun] at hbelow
  exact ⟨b.1, hmade, hbelow.after hline⟩

theorem enters_header (depth : Nat) : Enters (fun body => header body depth) depth
    (s.lexer.cursor.runLength (· = '#')) s fun r bs => r.1.children = bs := by
  intro body
  simp only [header, pairs_bind, pairs_cursor, pairs_mapCursor, pairs_offset]
  refine .same ends_any fun _ s₁ _ => ?_
  refine .same ends_any fun line s₂ _ => ?_
  refine .same ends_any fun _ s₃ _ => ?_
  exact ⟨_, rfl, rfl⟩

theorem enters_branch (depth : Nat) : Enters (fun body => branch body depth) (depth + 1) 0 s
    fun r bs => r.1.children = remaining true bs := by
  intro body
  simp only [branch, pairs_bind, pairs_cursor, pairs_offset]
  refine .same ends_any fun condition s₁ _ => ?_
  refine .same ends_any fun line s₂ _ => ?_
  refine .same ends_any fun mode s₃ _ => ?_
  refine .same ends_any fun _ s₄ _ => ?_
  exact ⟨_, rfl, rfl⟩

/-- The diverts of the line of a choice come in front of the blocks below it. -/
theorem enters_choice (h : Stands f s) (depth : Nat) :
    Enters (fun body => choice body depth) (depth + 1) 0 s fun r bs =>
      ∃ ds : List Divert, (∀ d ∈ ds, d.attrs = []) ∧ r.1.children = ds.map .divert ++ bs := by
  intro body
  have hdash := h.ahead (d := s.log) (l := { s.lexer with cursor := s.lexer.cursor.next })
    (Cursor.next_ahead h.cursor)
  simp only [choice, pairs_bind, pairs_cursor, pairs_mapCursor, pairs_offset]
  refine .same (ends_skipSpaces hdash.stands) fun _ s₁ h₁ => ?_
  refine .same (ends_choiceHead _ h₁.stands ChoiceHead.known_empty) fun head s₂ h₂ => ?_
  refine .same (ends_lineText h₂.1.stands) fun r s₃ h₃ => ?_
  refine .same (ends_finishLine h₃.1.stands) fun _ s₄ h₄ => ?_
  have hattrs : ∀ d ∈ r.2.1, d.attrs = [] := fun d hd => (h₃.2.2 d hd).attrs
  exact .ite Iff.rfl (fun _ => ⟨_, rfl, r.2.1, hattrs, rfl⟩) fun _ => ⟨_, rfl, r.2.1, hattrs, rfl⟩

theorem accounts_header (h : Stands f s) (depth : Nat) (hbody : Accountable f body below) :
    Ends (header body depth) s fun r s' => Accounts f s s' false r.1.children
      (below false depth (s.lexer.cursor.runLength (· = '#'))
        ((header nothing depth).run s).2) := by
  have hline : Goes f s ((header nothing depth).run s).2 :=
    ⟨(ends_header h depth reads_nothing).1,
      keeps_header (R := StillReported) keeps_nothing depth s⟩
  refine ((enters_header depth).accounts hline hbody false).imp ?_
  rintro r s' ⟨bs, rfl, hr⟩
  exact hr

theorem accounts_branch (h : Stands f s) (depth : Nat) (hp : s.lexer.cursor.hasPrefix [0x40, 0x7B])
    (hbody : Accountable f body below) :
    Ends (branch body depth) s fun r s' => Accounts f s s' false r.1.children
      (below true (depth + 1) 0 ((branch nothing depth).run s).2) := by
  have hline : Goes f s ((branch nothing depth).run s).2 :=
    ⟨(ends_branch h depth hp reads_nothing).1,
      keeps_branch (R := StillReported) keeps_nothing depth s⟩
  refine ((enters_branch depth).accounts hline hbody true).imp ?_
  rintro r s' ⟨bs, hchildren, hr⟩
  rw [hchildren]
  exact ⟨hr.toGoes, hr.signs, hr.lists⟩

/-! ## Choices -/

theorem accounts_choice (h : Stands f s) (depth : Nat) (hbody : Accountable f body below) :
    Ends (choice body depth) s fun r s' => Accounts f s s' false r.1.children
      (below false (depth + 1) 0 ((choice nothing depth).run s).2) := by
  have hline : Goes f s ((choice nothing depth).run s).2 :=
    ⟨(ends_choice h depth reads_nothing).1,
      keeps_choice (R := StillReported) keeps_nothing depth s⟩
  refine ((enters_choice h depth).accounts hline hbody false).imp ?_
  rintro r s' ⟨bs, ⟨ds, hds, hchildren⟩, hr⟩
  refine ⟨hr.toGoes, hr.signs, fun hlog owner => ?_⟩
  have hlists : attributeLists (visitBlocks owner (remaining false r.1.children))
      = attributeLists (visitBlocks owner bs) := by
    rw [hchildren, remaining, if_neg Bool.false_ne_true, visitBlocks_append,
      attributeLists_append, attributeLists_diverts hds, List.nil_append]
  rw [hlists]
  exact hr.lists hlog owner

theorem accounts_choiceList (fuel depth : Nat) (h : Stands f s) (hbody : Accountable f body below) :
    Ends (choiceList body fuel depth) s fun r s' =>
      Accounts f s s' false (r.1.flatMap Choice.children) (choiceRuns body below fuel depth s) := by
  induction fuel generalizing s with
  | zero => exact .nil (.refl h)
  | succ fuel ih =>
    simp only [choiceList, choiceRuns, ends_bind]
    refine ((accounts_choice h depth hbody).and (ends_run _ s)).imp fun r s₁ h₁ => ?_
    have hs₁ := h₁.1.reaches.stands
    refine (((ends_nextChoice hs₁ depth).and (keeps_nextChoice (R := StillReported) depth s₁)).and
      (ends_run _ s₁)).imp fun more s₂ h₂ => ?_
    have hnext : Goes f s₁ s₂ := ⟨h₂.1.1, h₂.1.2⟩
    rw [h₁.2, h₂.2]
    cases more with
    | true =>
      simp only [if_true, ends_bind]
      refine (ih hnext.reaches.stands).imp fun r' s₃ h₃ => ?_
      rw [ends_pure, List.flatMap_cons]
      exact h₁.1.append (h₃.after hnext)
    | false =>
      simp only [Bool.false_eq_true, if_false, ends_pure]
      rw [List.flatMap_cons]
      exact h₁.1.append (.nil hnext)

/-! ## Blocks -/

/-- One block was read, with the attribute lines below it, and perhaps diverts behind it. -/
structure Opened (f : File) (s s' : ParserState) (o : BlockOpening) (bs : List Block)
    (runs : List AttributeRun) : Prop extends Goes f s s' where
  signs : Queue Attribute.sign f.id s.lexer.cursor.offset s'.lexer.cursor.offset
    (runs.flatMap (·.attrs))
  blocks : s'.log = s.log → ∃ b, ∃ ds : List Divert, bs = b :: ds.map .divert
    ∧ (∀ d ∈ ds, d.attrs = []) ∧ (b.kind = .choices ↔ o = .choices)
    ∧ ∀ owner, (attributeLists (visitBlocks owner b.children)).Perm (keptLists runs)

theorem Opened.single {o : BlockOpening} {b : Block} (h : Accounts f s s' false b.children runs)
    (hkind : b.kind = .choices ↔ o = .choices) : Opened f s s' o [b] runs :=
  ⟨h.toGoes, h.signs, fun hlog => ⟨b, [], rfl, List.forall_mem_nil _, hkind, h.lists hlog⟩⟩

/-- A line that is read without problems gives a paragraph or diverts. -/
theorem blocks_paragraph (h : Stands f s) : Ends paragraph s fun r _ => r.2 = .parsed →
    ∃ b, ∃ ds : List Divert, r.1 = b :: ds.map .divert ∧ (∀ d ∈ ds, d.attrs = [])
      ∧ b.kind ≠ .choices ∧ b.children = [] := by
  simp only [paragraph, ends_bind, ends_cursor, ends_offset]
  refine (ends_lineText h).imp fun r s₁ h₁ => ?_
  refine (ends_finishLine h₁.1.stands).imp fun _ s₂ _ => ?_
  have hattrs : ∀ d ∈ r.2.1, d.attrs = [] := fun d hd => (h₁.2.2 d hd).attrs
  rw [ends_pure]
  intro hparsed
  by_cases htext : r.1.isEmpty = true
  · rw [if_pos htext, List.nil_append] at hparsed ⊢
    cases hds : r.2.1 with
    | nil => simp [hds] at hparsed
    | cons d ds =>
      rw [hds] at hattrs
      exact ⟨.divert d, ds, rfl, (List.forall_mem_cons.mp hattrs).2, by simp [Block.kind], rfl⟩
  · rw [if_neg htext]
    exact ⟨_, r.2.1, rfl, hattrs, by simp [Block.kind], rfl⟩

theorem opened_openedBlock (h : Stands f s) (depth : Nat)
    (hlt : s.lexer.cursor.offset < s.lexer.textEnd) (hbody : Accountable f body below) :
    Ends (openedBlock body depth) s fun r s' =>
      Opened f s s' (.ofCursor s.lexer.cursor) r.1 (openedRuns body below depth s) := by
  have hfits := BlockOpening.ofCursor_fits s.lexer.cursor
  rw [openedBlock, openedRuns, ends_bind, ends_cursor]
  generalize BlockOpening.ofCursor s.lexer.cursor = o at hfits ⊢
  -- headers, branches and choices hold further runs, a code block and a paragraph hold none
  cases o with
  | header =>
    rw [ends_bind]
    refine ((accounts_header h depth hbody).and (kind_header depth)).imp fun r s₁ h₁ => ?_
    exact .single h₁.1 (by simp [h₁.2])
  | code =>
    rw [ends_bind]
    refine (((ends_codeBlock h hfits).and (keeps_codeBlock (R := StillReported) s)).and
      kind_codeBlock).imp fun r s₁ h₁ => ?_
    have hnone : r.1.children = [] := by
      cases hb : r.1 with
      | code => rfl
      | header | choices | branch | paragraph | divert => simp [hb, Block.kind] at h₁
    exact .single (hnone ▸ .nil ⟨h₁.1.1.1, h₁.1.2⟩) (by simp [h₁.2])
  | branch =>
    rw [ends_bind]
    refine ((accounts_branch h depth hfits hbody).and (kind_branch depth)).imp fun r s₁ h₁ => ?_
    exact .single h₁.1 (by simp [h₁.2])
  | choices =>
    rw [ends_bind]
    simp only [choices, ends_bind, ends_cursor]
    exact (accounts_choiceList _ depth h hbody).imp fun r s₁ h₁ => .single h₁ (iff_of_true rfl rfl)
  | paragraph =>
    refine (((ends_paragraph h).and (keeps_paragraph (R := StillReported) s)).and
      ((tells_paragraph h hlt).and (blocks_paragraph h))).imp fun r s₁ h₁ => ?_
    refine ⟨⟨h₁.1.1.1, h₁.1.2⟩, .nil, fun hlog => ?_⟩
    -- a quiet paragraph is one block and its diverts, so the attributes have one bearer
    obtain ⟨b, ds, hbs, hds, hkind, hnone⟩ := h₁.2.2 (h₁.2.1.parsed_iff.mpr (by rw [hlog]))
    refine ⟨b, ds, hbs, hds, by simp [hkind], fun owner => ?_⟩
    rw [hnone]
    exact .refl _

theorem Opened.attach {o : BlockOpening} {s₀ : ParserState} (h : Opened f s s' o bs runs)
    (hgo : Goes f s₀ s) {as : List Attribute}
    (hsigns : Queue Attribute.sign f.id s₀.lexer.cursor.offset s.lexer.cursor.offset as) :
    Accounts f s₀ s' inBranch (attach as bs) (⟨as, some o, inBranch⟩ :: runs) := by
  refine ⟨hgo.trans h.toGoes, ?_, fun hlog owner => ?_⟩
  · rw [List.flatMap_cons]
    exact hsigns.append (fun _ _ => id) h.signs hgo.reaches.forward h.reaches.forward
  · have hquiet := hgo.reported.quiet h.reported hlog
    obtain ⟨b, ds, rfl, hds, hkind, hbelow⟩ := h.blocks (hlog.trans hquiet.symm)
    have hdiverts : remaining inBranch (ds.map .divert) = ds.map .divert := by
      refine remaining_eq_self fun c hc => ?_
      obtain ⟨d, -, rfl⟩ := List.mem_map.mp hc
      simp [Block.kind]
    have hsplit := attributeLists_perm
      (remaining_append inBranch [b.withAttrs as] (ds.map .divert)) owner
    rw [visitBlocks_append, attributeLists_append, hdiverts, attributeLists_diverts hds,
      List.append_nil] at hsplit
    exact hsplit.trans (lists_withAttrs hkind hbelow as owner)

theorem accounts_block (h : Stands f s) (depth : Nat) (hbody : Accountable f body below)
    (inBranch : Bool) :
    Ends (block body depth) s fun r s' =>
      Accounts f s s' inBranch r.1 (blockRuns body below inBranch depth s) := by
  have hfuel : f.size
      < s.lexer.cursor.offset + (s.lexer.cursor.limit - s.lexer.cursor.offset + 1) := by
    rw [h.cursor.limit]
    omega
  simp only [block, blockRuns, ends_bind, ends_cursor, ends_lexer]
  refine ((((ends_attributeLines _ depth h).and (attributeLines_stops _ depth h hfuel)).and
    (signs_attributeLines _ depth h)).and ((keeps_attributeLines (R := StillReported) _ depth s).and
    (ends_run _ s))).imp fun r s₁ h₁ => ?_
  obtain ⟨⟨⟨⟨hreaches, -⟩, hdark⟩, hsigns⟩, hreported, hrun⟩ := h₁
  have hgo : Goes f s s₁ := ⟨hreaches, hreported⟩
  -- the warning about lines without a block rules out that nothing was reported
  have hunattached (d : Diagnostic) :
      Accounts f s { s₁ with log := s₁.log.push d } inBranch [] [⟨r.1, none, inBranch⟩] := by
    have hwarns : StillReported s₁ { s₁ with log := s₁.log.push d } := Steady.reports s₁ d
    refine ⟨⟨hreaches.trans (hreaches.stands.ahead (.refl hreaches.stands.cursor)),
      Steady.trans hreported hwarns⟩, ?_, fun hlog => ?_⟩
    · rw [List.flatMap_singleton]
      exact hsigns
    · have hquiet := hlog.trans (hreported.quiet hwarns hlog).symm
      exact absurd (congrArg Array.size hquiet) (by simp)
  rw [hrun]
  split
  · next hend =>
    simp only [hend, if_true]
    cases hlast : r.1.getLast? with
    | some a => exact hunattached _
    | none =>
      rw [List.getLast?_eq_none_iff.mp hlast]
      refine ⟨hgo, .nil, fun _ owner => ?_⟩
      cases inBranch with
      | false => exact .refl _
      | true => exact .refl _
  · next hgoes =>
    simp only [hgoes]
    have hindent := hreaches.stands.ahead (d := s₁.log)
      (Lexer.skipIndent_ahead hreaches.stands.cursor)
    simp only [Bool.or_eq_true, not_or, Bool.not_eq_true] at hgoes
    have hline : s₁.lexer.isBlankLine = false := by simpa [hgoes.1] using hdark
    simp only [ends_bind, ends_mapLexer]
    refine (opened_openedBlock hindent.stands depth
      (Lexer.lt_textEnd_skipIndent hreaches.stands.cursor hline) hbody).imp fun r' s₂ h₂ => ?_
    have hskip : Goes f s { s₁ with lexer := s₁.lexer.skipIndent } :=
      ⟨hreaches.trans hindent, Steady.trans hreported (Steady.moves s₁ rfl)⟩
    exact h₂.attach hskip (hsigns.mono (Nat.le_refl _) hindent.forward)

/-- Rounds of the loop account for what they read, and the reports of one round cannot be taken back by
the next one. -/
theorem accounts_sequence (fuel : Nat) : Accountable f (sequence fuel) (sequenceRuns fuel) := by
  induction fuel with
  | zero => exact fun _ _ _ _ h => .nil (.refl h)
  | succ fuel ih =>
    intro inBranch depth stop s h
    have hblank : Goes f s { s with lexer := s.lexer.skipBlankLines } :=
      ⟨h.ahead (Lexer.skipBlankLines_ahead h.cursor),
        Steady.moves s s.lexer.skipBlankLines_layout⟩
    simp only [sequence, sequenceRuns, ends_bind, ends_mapLexer, ends_lexer]
    split
    · exact .nil hblank
    · simp only [ends_bind, ends_offset]
      refine ((accounts_block hblank.reaches.stands depth ih inBranch).and (ends_run _ _)).imp
        fun r s₁ h₁ => ?_
      have hs₁ := h₁.1.reaches.stands
      have hrest (s₂ : ParserState) (h₂ : Goes f s₁ s₂) :
          Ends (sequence fuel depth stop) s₂ fun r' s₃ => Accounts f s s₃ inBranch (r.1 ++ r'.1)
            (blockRuns (sequence fuel) (sequenceRuns fuel) inBranch depth
              { s with lexer := s.lexer.skipBlankLines }
              ++ sequenceRuns fuel inBranch depth stop s₂) :=
        (ih inBranch depth stop s₂ h₂.reaches.stands).imp fun r' s₃ h₃ =>
          (h₁.1.append (h₃.after h₂)).after hblank
      rw [h₁.2]
      split
      · rw [ends_bind]
        exact hrest _ ⟨ends_finishLine hs₁, keeps_finishLine (R := StillReported) s₁⟩
      · exact hrest s₁ (.refl hs₁)

end Parse

/-! ## Documents -/

theorem keptLists_eq (runs : List AttributeRun) : keptLists runs =
    ((runs.filter (!·.attrs.isEmpty)).filter (!·.isDissolved)).map (·.attrs) := by
  rw [keptLists, List.filter_map, List.filter_comm]
  rfl

/-- No attribute line is read twice. -/
theorem nodup_attributeRuns (f : File) (layout : Layout) (small : f.size < Word.modulus) :
    ((attributeRuns f layout).flatMap (·.attrs)).Nodup := by
  have haccounts := Parse.accounts_sequence ((Lexer.ofFile f layout).cursor.limit + 1) false 0 0 _
    (Stands.ofFile (f := f) layout small)
  have horder := haccounts.signs.related
  have hall : (Parse.sequenceRuns ((Lexer.ofFile f layout).cursor.limit + 1) false 0 0
      { lexer := .ofFile f layout }).flatMap (·.attrs) |>.Nodup := by
    refine horder.imp fun {a b} hab heq => ?_
    rw [heq] at hab
    exact Nat.not_succ_le_self _ hab
  exact hall.sublist (List.filter_sublist.flatMap _)

/-- An attribute that is read once is in one run. -/
theorem run_unique {runs : List AttributeRun} (h : (runs.flatMap (·.attrs)).Nodup)
    {r k : AttributeRun} (hr : r ∈ runs) (hk : k ∈ runs) {a : Attribute} (ha : a ∈ r.attrs)
    (ha' : a ∈ k.attrs) : r = k := by
  by_contra hne
  have hsymm : Std.Symm (Function.onFun List.Disjoint fun r : AttributeRun => r.attrs) :=
    ⟨fun _ _ hapart => hapart.symm⟩
  exact (List.nodup_flatMap.mp h).2.forall hr hk hne ha ha'

/-- The attributes of blocks are those of the lines that no match takes away. -/
theorem attributeLists_perm_runs (f : File) (layout : Layout) (maxErrors : Nat)
    (small : f.size < Word.modulus) (quiet : (parse f layout maxErrors).diagnostics = []) :
    (parse f layout maxErrors).document.attributeLists.Perm
      (((attributeRuns f layout).filter (!·.isDissolved)).map (·.attrs)) := by
  have haccounts := Parse.accounts_sequence ((Lexer.ofFile f layout).cursor.limit + 1) false 0 0 _
    (Stands.ofFile (f := f) layout small)
  have hlists := haccounts.lists (Array.toList_inj.mp (eq_nil_of_keepErrors quiet)) none
  rw [keptLists_eq] at hlists
  exact hlists

/-- In every file of fewer than 2^32 bytes about which nothing is reported, in every layout and however
many errors may be shown, the attributes of the blocks are those of the accepted attribute lines but
for the lines in front of choices right below a match.  So all lines are kept if and only if there
are none of these. -/
theorem attributes_kept_iff (f : File) (layout : Layout) (maxErrors : Nat)
    (small : f.size < Word.modulus) (quiet : (parse f layout maxErrors).diagnostics = []) :
    let d := (parse f layout maxErrors).document
    let runs := attributeRuns f layout
    d.attributeLists.Perm ((runs.filter (!·.isDissolved)).map (·.attrs))
      ∧ (d.KeepsRuns runs ↔ ∀ r ∈ runs, r.isDissolved = false) := by
  intro d runs
  have hlists := attributeLists_perm_runs f layout maxErrors small quiet
  have hnodup : (runs.flatMap (·.attrs)).Nodup := nodup_attributeRuns f layout small
  refine ⟨hlists, fun hkeeps r hr => ?_, fun hwhole r hr => ?_⟩
  · -- the block with the attributes has them from lines that are in no other run
    obtain ⟨k, hk, heq⟩ := List.mem_map.mp (hlists.mem_iff.mp (hkeeps r hr).1)
    obtain ⟨hk, hkept⟩ := List.mem_filter.mp hk
    have hfull : r.attrs ≠ [] := by simpa using (List.mem_filter.mp hr).2
    obtain ⟨a, ha⟩ := List.exists_mem_of_ne_nil _ hfull
    have hak : a ∈ k.attrs := heq ▸ ha
    rw [← run_unique hnodup hk hr hak ha]
    simpa using hkept
  · have hall : runs.filter (!·.isDissolved) = runs :=
      List.filter_eq_self.mpr fun r hr => by simp [hwhole r hr]
    rw [hall] at hlists
    refine ⟨hlists.mem_iff.mpr (List.mem_map_of_mem hr), fun a ha => ?_⟩
    rw [hlists.flatten.count_eq]
    exact List.count_eq_one_of_mem hnodup (List.mem_flatMap.mpr ⟨r, hr, ha⟩)

/-- Attributes of a match, of a line below it, of choices, and of a line below a choice. -/
theorem attributes_kept_iff_match :
    let f := File.ofBytes 0 "a.story" "@a\n@b(1)\n@\x7bx\x7d if\n\t@c\n\ttext\n@d\n- one\n\t@e\n\ttwo\n"
    f.size < Word.modulus ∧ (parse f).diagnostics = []
      ∧ (attributeRuns f).map (fun r => (r.attrs.length, r.inBranch, r.isDissolved))
        = [(2, false, false), (1, true, false), (1, false, false), (1, false, false)]
      ∧ (parse f).document.KeepsRuns (attributeRuns f) := by
  intro f
  have small : f.size < Word.modulus := by decide +kernel
  have quiet : (parse f).diagnostics = [] := by decide +kernel
  have hruns : (attributeRuns f).map (fun r => (r.attrs.length, r.inBranch, r.isDissolved))
      = [(2, false, false), (1, true, false), (1, false, false), (1, false, false)] := by
    decide +kernel
  refine ⟨small, quiet, hruns, (attributes_kept_iff f {} 0 small quiet).2.mpr fun r hr => ?_⟩
  have hmem := List.mem_map_of_mem (f := fun r : AttributeRun =>
    (r.attrs.length, r.inBranch, r.isDissolved)) hr
  rw [hruns] at hmem
  simp only [List.mem_cons, Prod.mk.injEq, List.not_mem_nil, or_false] at hmem
  rcases hmem with h | h | h | h
  all_goals exact h.2.2

/-- The attribute in front of a choice below a match is in no block, and nothing is reported. -/
theorem branch_drops_attribute :
    let f := File.ofBytes 0 "a.story" "@\x7bx\x7d\n\t@a\n\t- one\n"
    (parse f).diagnostics = [] ∧ (attributeRuns f).map (·.attrs.length) = [1]
      ∧ (parse f).document.attributeLists = []
      ∧ ¬ (parse f).document.KeepsRuns (attributeRuns f) := by
  decide +kernel

end Storyline.Markup
