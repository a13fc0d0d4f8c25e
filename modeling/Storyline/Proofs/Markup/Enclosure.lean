import Storyline.Proofs.Markup.Lifted
import Storyline.Proofs.Markup.OpenEnds
import Storyline.Proofs.Markup.Progress

/-!
# Ranges of blocks and of what is below them

What is below a block or a choice stands in the order in which it is listed, and its range lies
inside the one around it, with one exception.  The range around ends where the last thing below it
ends.  A divert taken out of a line is listed behind the paragraph of the line, although it ends
before the paragraph if the line goes on behind it; so where such a divert is the last thing below,
its paragraph hangs over the end of the range around (`Overhangs`).

Blocks that are read one after the other are `Laid` out: each of them stands behind the ones before
it, or is a divert inside the paragraph of its line.
-/

namespace Storyline.Markup

variable {f : File}

/-! ## Nodes -/

/-- A span of the same file that lies around another one. -/
structure Covers (outer inner : Span) : Prop where
  file : outer.file = inner.file
  start : outer.start ≤ inner.start
  stop : inner.stop ≤ outer.stop

instance (outer inner : Span) : Decidable (Covers outer inner) :=
  decidable_of_iff
    (outer.file = inner.file ∧ outer.start ≤ inner.start ∧ inner.stop ≤ outer.stop)
    ⟨fun ⟨file, start, stop⟩ => ⟨file, start, stop⟩, fun ⟨file, start, stop⟩ => ⟨file, start, stop⟩⟩

/-- A block or a choice. -/
inductive Node where
  | block (b : Block)
  | choice (c : Choice)

namespace Node

/-- The place of a node with everything below it. -/
def span : Node → Span
  | block b => b.span
  | choice c => c.span

/-- What stands right below a node, in the order in which it is listed.  The arms of a match are one
list and its other blocks another one. -/
def groups : Node → List (List Node)
  | block (.header _ children) => [children.map .block]
  | block (.branch _ arms children) => [arms.map .choice, children.map .block]
  | block (.choices cs _ _) => [cs.map .choice]
  | block (.paragraph _) | block (.code _) | block (.divert _) => []
  | choice c => [c.children.map .block]

end Node

/-- Whether a node of a group is a paragraph that ends behind the range around it, because the group
ends with a divert of its line. -/
def Overhangs (outer : Span) (group : List Node) (m : Node) : Prop :=
  match m, group.getLast? with
  | .block (.paragraph p), some (.block (.divert d)) =>
    Covers p.span d.span ∧ outer.stop = d.span.stop ∧ d.span.stop < p.span.stop
  | _, _ => False

instance (outer : Span) (group : List Node) (m : Node) : Decidable (Overhangs outer group m) := by
  unfold Overhangs
  split
  · infer_instance
  · infer_instance

theorem overhangs_of {outer : Span} {group : List Node} {p : Paragraph} {d : Divert}
    (hlast : group.getLast? = some (.block (.divert d))) (hcovers : Covers p.span d.span)
    (hstop : outer.stop = d.span.stop) (hless : d.span.stop < p.span.stop) :
    Overhangs outer group (.block (.paragraph p)) := by
  simp only [Overhangs, hlast]
  exact ⟨hcovers, hstop, hless⟩

/-- What hangs over is not covered. -/
theorem not_overhangs_of_covers {outer : Span} {group : List Node} {m : Node}
    (h : Covers outer m.span) : ¬ Overhangs outer group m := by
  intro hover
  unfold Overhangs at hover
  split at hover
  · next p d _ =>
    obtain ⟨-, hstop, hless⟩ := hover
    have hend : p.span.stop ≤ outer.stop := h.stop
    omega
  · exact hover

theorem Covers.trans {x y z : Span} (h : Covers x y) (k : Covers y z) : Covers x z :=
  ⟨h.file.trans k.file, Nat.le_trans h.start k.start, Nat.le_trans k.stop h.stop⟩

/-! ## Blocks in a row -/

/-- How a block stands before another one that is listed behind it. -/
def Before (b c : Block) : Prop :=
  b.span.stop ≤ c.span.start
    ∨ b.kind = .paragraph ∧ c.kind = .divert ∧ b.span.start ≤ c.span.start
      ∧ c.span.stop ≤ b.span.stop

/-- Blocks that are listed behind those that stand before them. -/
abbrev Laid : FileId → (lo hi : Nat) → List Block → Prop := Row Block.span Before

namespace Row

variable {file : FileId} {lo hi : Nat} {bs : List Block}

/-- Diverts that stand one behind the other are laid out so. -/
theorem laid {ds : List Divert} (h : Queue Divert.span file lo hi ds) :
    Laid file lo hi (ds.map .divert) :=
  ⟨List.forall_mem_map.mpr h.lies, List.pairwise_map.mpr (h.related.imp .inl)⟩

theorem attach (h : Laid file lo hi bs) (as : List Attribute) :
    Laid file lo hi (Parse.attach as bs) := by
  cases bs with
  | nil => exact h
  | cons b bs =>
    obtain ⟨hb, hbs⟩ := List.forall_mem_cons.mp h.lies
    obtain ⟨hbefore, hrest⟩ := List.pairwise_cons.mp h.related
    have hspan : (b.withAttrs as).span = b.span := by cases b <;> rfl
    have hkind : (b.withAttrs as).kind = b.kind := by cases b <;> rfl
    refine ⟨List.forall_mem_cons.mpr ⟨hspan ▸ hb, hbs⟩, List.pairwise_cons.mpr ⟨?_, hrest⟩⟩
    intro c hc
    rw [Before, hspan, hkind]
    exact hbefore c hc

/-- Blocks are listed in the order in which they start. -/
theorem sorted (h : Laid file lo hi bs) :
    bs.Pairwise fun b c => b.span.start ≤ c.span.start := by
  refine h.related.imp_of_mem fun {b c} hb hc hbefore => ?_
  have hordered := (h.lies b hb).ordered
  rcases hbefore with hapart | ⟨-, -, hstart, -⟩
  · exact Nat.le_trans hordered hapart
  · exact hstart

/-- The end of a construct is the end of the last block below it, if there is one. -/
theorem reach_eq {lineEnd : Nat} (h : Laid file lo hi bs) (hline : lineEnd ≤ lo) {last : Block}
    (hlast : bs.getLast? = some last) : reach lineEnd bs = last.span.stop := by
  have hlies := h.lies last (List.mem_of_getLast? hlast)
  have := hlies.start
  have := hlies.ordered
  rw [reach, hlast]
  exact Nat.max_eq_right (by omega)

theorem reach_bounds {lineEnd : Nat} (h : Laid file lo hi bs) (hline : lineEnd ≤ lo)
    (hhi : lo ≤ hi) : lineEnd ≤ reach lineEnd bs ∧ reach lineEnd bs ≤ hi := by
  cases hlast : bs.getLast? with
  | none =>
    rw [reach, hlast]
    exact ⟨Nat.le_refl _, Nat.le_trans hline hhi⟩
  | some last =>
    have hlies := h.lies last (List.mem_of_getLast? hlast)
    rw [h.reach_eq hline hlast]
    exact ⟨Nat.le_trans (Nat.le_trans hline hlies.start) hlies.ordered, hlies.stop⟩

/-- What stands around blocks up to the end of the last one covers each of them that does not hang
over. -/
theorem covers_iff (h : Laid file lo hi bs) {lineEnd : Nat} (hline : lineEnd ≤ lo) {outer : Span}
    (hfile : outer.file = file) (hstart : outer.start ≤ lo) (hstop : outer.stop = reach lineEnd bs)
    {group : List Node}
    (hgroup : ∀ d, bs.getLast? = some (.divert d) → group.getLast? = some (.block (.divert d)))
    {m : Block} (hm : m ∈ bs) : Covers outer m.span ↔ ¬ Overhangs outer group (.block m) := by
  refine ⟨not_overhangs_of_covers (m := .block m), fun hnot => ?_⟩
  obtain ⟨last, hlast⟩ : ∃ last, bs.getLast? = some last :=
    ⟨_, List.getLast?_eq_some_getLast (List.ne_nil_of_mem hm)⟩
  have hlies := h.lies m hm
  have hordered := (h.lies last (List.mem_of_getLast? hlast)).ordered
  rw [h.reach_eq hline hlast] at hstop
  have hend : m.span.stop ≤ last.span.stop := by
    -- `m` is the last child, or ends before the last one starts, or shares its line with it
    rcases h.eq_or_related hlast hm with rfl | hapart | ⟨hm, hl, hbegin, hend⟩
    · exact Nat.le_refl _
    · exact Nat.le_trans hapart hordered
    -- on one line only a paragraph stands before its diverts, and these may end earlier than it
    · by_contra hless
      cases m with
      | paragraph p =>
        cases last with
        | divert d =>
          have hd := (h.lies _ (List.mem_of_getLast? hlast)).file
          exact hnot (overhangs_of (hgroup d hlast) ⟨hlies.file.trans hd.symm, hbegin, hend⟩ hstop
            (Nat.lt_of_not_le hless))
        | header | branch | choices | paragraph | code => cases hl
      | header | branch | choices | divert | code => cases hm
  exact ⟨hfile.trans hlies.file.symm, Nat.le_trans hstart hlies.start, hstop ▸ hend⟩

end Row

/-! ## Nodes in order -/

/-- A node that covers what is right below it, unless it hangs over, and lists it by its starts. -/
structure Node.Orderly (n : Node) : Prop where
  ordered : n.span.start ≤ n.span.stop
  sorted : ∀ g ∈ n.groups, g.Pairwise fun m m' => m.span.start ≤ m'.span.start
  covers : ∀ g ∈ n.groups, ∀ m ∈ g, (Covers n.span m.span ↔ ¬ Overhangs n.span g m)

/-- The choices right below a block. -/
def Block.ownChoices : Block → List Choice
  | .choices cs _ _ => cs
  | .branch _ arms _ => arms
  | .paragraph _ | .code _ | .divert _ | .header .. => []

/-- A block that is in order with everything below it. -/
inductive Block.Neat : Block → Prop
  | intro {b : Block} (here : (Node.block b).Orderly)
      (choices : ∀ c ∈ b.ownChoices, (Node.choice c).Orderly)
      (children : ∀ c ∈ b.children, Neat c) : Neat b

/-- Blocks that are in order with everything below them. -/
def AllNeat (bs : List Block) : Prop := ∀ b ∈ bs, b.Neat

/-- A choice that is in order with everything below it. -/
structure Choice.Neat (c : Choice) : Prop where
  here : (Node.choice c).Orderly
  children : AllNeat c.children

theorem Block.Neat.here {b : Block} : b.Neat → (Node.block b).Orderly
  | .intro here _ _ => here

theorem Block.Neat.choices {b : Block} : b.Neat → ∀ c ∈ b.ownChoices, (Node.choice c).Orderly
  | .intro _ choices _ => choices

theorem Block.Neat.children {b : Block} : b.Neat → AllNeat b.children
  | .intro _ _ children => children

/-- Every node that is visited is in order. -/
theorem Block.Neat.visit {b : Block} (hb : b.Neat) : ∀ owner, ∀ v ∈ visitBlock owner b,
    (Node.block v.block).Orderly ∧ ∀ c ∈ v.block.ownChoices, (Node.choice c).Orderly := by
  induction hb with
  | intro here choices _ ih =>
    intro owner v hv
    rw [visitBlock_eq, List.mem_cons] at hv
    rcases hv with rfl | hv
    · exact ⟨here, choices⟩
    · obtain ⟨c, hc, hv⟩ := mem_visitBlocks.mp hv
      exact ih c hc _ v hv

/-- A block with nothing below it is in order. -/
theorem Block.Neat.leaf {b : Block}
    (hkind : b.kind = .paragraph ∨ b.kind = .code ∨ b.kind = .divert)
    (ordered : b.span.start ≤ b.span.stop) : b.Neat := by
  cases b with
  | paragraph | code | divert =>
    exact .intro ⟨ordered, List.forall_mem_nil _, List.forall_mem_nil _⟩ (List.forall_mem_nil _)
      (List.forall_mem_nil _)
  | header | branch | choices => simp [Block.kind] at hkind

theorem Block.Neat.withAttrs {b : Block} (hb : b.Neat) (as : List Attribute) :
    (b.withAttrs as).Neat := by
  obtain ⟨here, choices, children⟩ := hb
  cases b with
  | header | branch | choices | paragraph | code | divert =>
    exact .intro ⟨here.ordered, here.sorted, here.covers⟩ choices children

namespace AllNeat

variable {bs cs : List Block}

theorem append (hb : AllNeat bs) (hc : AllNeat cs) : AllNeat (bs ++ cs) := by
  intro b h
  exact (List.mem_append.mp h).elim (hb b) (hc b)

theorem attach (h : AllNeat bs) (as : List Attribute) : AllNeat (Parse.attach as bs) := by
  cases bs with
  | nil => exact h
  | cons b bs =>
    obtain ⟨hb, hbs⟩ := List.forall_mem_cons.mp h
    exact List.forall_mem_cons.mpr ⟨hb.withAttrs as, hbs⟩

theorem of_queue {file : FileId} {lo hi : Nat} {ds : List Divert}
    (h : Queue Divert.span file lo hi ds) : AllNeat (ds.map .divert) :=
  List.forall_mem_map.mpr fun d hd => .leaf (.inr (.inr rfl)) (h.lies d hd).ordered

end AllNeat

section Build

variable {file : FileId} {lo hi lineEnd : Nat} {span : Span} {bs : List Block}

/-- A header over blocks up to whose end it reaches is in order. -/
theorem orderly_header (h : Laid file lo hi bs) (hline : lineEnd ≤ lo) (hhi : lo ≤ hi)
    {heading : Heading} (hfile : heading.span.file = file) (hstart : heading.span.start ≤ lineEnd)
    (hstop : heading.span.stop = reach lineEnd bs) :
    (Node.block (.header heading bs)).Orderly := by
  have hreach := (h.reach_bounds hline hhi).1
  refine ⟨?_, List.forall_mem_singleton.mpr ?_, List.forall_mem_singleton.mpr ?_⟩
  · show heading.span.start ≤ heading.span.stop
    omega
  · exact List.pairwise_map.mpr h.sorted
  · rw [List.forall_mem_map]
    intro m hm
    refine h.covers_iff hline hfile (Nat.le_trans hstart hline) hstop (fun d hd => ?_) hm
    rw [List.getLast?_map, hd]
    rfl

/-- A choice over the diverts of its line and the blocks up to whose end it reaches is in order. -/
theorem orderly_choice {ds : List Divert} {line : ChoiceLine} (h : Laid file lo hi bs)
    (hline : lineEnd ≤ lo) (hhi : lo ≤ hi) (hfile : line.span.file = file)
    (hstart : line.span.start ≤ lineEnd) (hstop : line.span.stop = reach lineEnd bs)
    (hds : Queue Divert.span file line.span.start lineEnd ds) :
    (Node.choice (.mk line (ds.map .divert ++ bs))).Orderly := by
  have hreach := (h.reach_bounds hline hhi).1
  have hall : Laid file line.span.start hi (ds.map .divert ++ bs) :=
    hds.laid.append (fun _ _ => .inl) (h.mono hline (Nat.le_refl _)) hstart
      (Nat.le_trans hline hhi)
  refine ⟨?_, List.forall_mem_singleton.mpr ?_, List.forall_mem_singleton.mpr ?_⟩
  · show line.span.start ≤ line.span.stop
    omega
  · exact List.pairwise_map.mpr hall.sorted
  -- a divert of the line is inside anyway, a block below is as far as the last one reaches
  · rw [List.forall_mem_map]
    intro m hm
    rcases List.mem_append.mp hm with hm | hm
    · obtain ⟨d, hd, rfl⟩ := List.mem_map.mp hm
      have hlies := hds.lies d hd
      have hcovers : Covers line.span d.span :=
        ⟨hfile.trans hlies.file.symm, hlies.start,
          Nat.le_trans hlies.stop (Nat.le_trans hreach (Nat.le_of_eq hstop.symm))⟩
      exact iff_of_true hcovers (not_overhangs_of_covers hcovers)
    · refine h.covers_iff hline hfile (Nat.le_trans hstart hline) hstop (fun d hd => ?_) hm
      rw [List.getLast?_map, Choice.children, List.getLast?_append, hd]
      rfl

/-- The end of a list of choices. -/
def choicesEnd (cs : List Choice) (lo : Nat) : Nat := (cs.getLast?.map (·.span.stop)).getD lo

theorem lies_choices {cs : List Choice} (h : Queue Choice.span file lo hi cs) (hhi : lo ≤ hi) :
    Lies file lo hi ⟨file, lo, choicesEnd cs lo⟩ := by
  cases hlast : cs.getLast? with
  | none =>
    rw [choicesEnd, hlast]
    exact ⟨rfl, Nat.le_refl _, Nat.le_refl _, hhi⟩
  | some last =>
    have hlies := h.lies last (List.mem_of_getLast? hlast)
    rw [choicesEnd, hlast]
    exact ⟨rfl, Nat.le_refl _, Nat.le_trans hlies.start hlies.ordered, hlies.stop⟩

/-- A list of choices up to the end of the last one is in order. -/
theorem orderly_choices {cs : List Choice} (h : Queue Choice.span file lo hi cs) (hhi : lo ≤ hi)
    (as : List Attribute) : (Node.block (.choices cs as ⟨file, lo, choicesEnd cs lo⟩)).Orderly := by
  refine ⟨(lies_choices h hhi).ordered, List.forall_mem_singleton.mpr ?_,
    List.forall_mem_singleton.mpr ?_⟩
  · refine List.pairwise_map.mpr (h.related.imp_of_mem fun {c c'} hc _ hle => ?_)
    exact Nat.le_trans (h.lies c hc).ordered hle
  · rw [List.forall_mem_map]
    intro c hc
    have hlies := h.lies c hc
    obtain ⟨last, hlast⟩ : ∃ last, cs.getLast? = some last :=
      ⟨_, List.getLast?_eq_some_getLast (List.ne_nil_of_mem hc)⟩
    have hend : c.span.stop ≤ last.span.stop := by
      rcases h.eq_or_related hlast hc with rfl | hle
      · exact Nat.le_refl _
      · exact Nat.le_trans hle (h.lies last (List.mem_of_getLast? hlast)).ordered
    have hcovers : Covers ⟨file, lo, choicesEnd cs lo⟩ c.span := by
      rw [choicesEnd, hlast]
      exact ⟨hlies.file.symm, hlies.start, hend⟩
    exact iff_of_true hcovers (not_overhangs_of_covers (m := .choice c) hcovers)

/-- The choices of a group that is in order lie in its range. -/
theorem Block.Neat.covers_choice {cs : List Choice} {as : List Attribute}
    (h : (Block.choices cs as span).Neat) {c : Choice} (hc : c ∈ cs) : Covers span c.span :=
  (h.here.covers _ List.mem_cons_self (.choice c) (List.mem_map_of_mem hc)).mpr id

/-- The arms of a match are the choices below it. -/
theorem mem_armsOf {c : Choice} :
    c ∈ armsOf bs ↔ ∃ cs as span, .choices cs as span ∈ bs ∧ c ∈ cs := by
  rw [armsOf, List.mem_flatMap]
  constructor
  · rintro ⟨b, hb, hc⟩
    cases b with
    | choices cs as span => exact ⟨cs, as, span, hb, hc⟩
    | header | branch | paragraph | code | divert => cases hc
  · rintro ⟨cs, as, span, hb, hc⟩
    exact ⟨_, hb, hc⟩

/-- The arms of a match are listed in the order in which they start. -/
theorem sorted_armsOf (h : Laid file lo hi bs) (hneat : AllNeat bs) :
    (armsOf bs).Pairwise fun c c' => c.span.start ≤ c'.span.start := by
  rw [armsOf, List.pairwise_flatMap]
  -- arms of one block are in order by themselves, arms of two by the order of the blocks
  refine ⟨fun b hb => ?_, h.related.imp_of_mem fun {b b'} hb hb' hbefore c hc c' hc' => ?_⟩
  · cases b with
    | choices cs as span =>
      have hsorted := (hneat _ hb).here.sorted (cs.map .choice) List.mem_cons_self
      rw [List.pairwise_map] at hsorted
      exact hsorted
    | header | branch | paragraph | code | divert => exact .nil
  · cases b with
    | choices cs as span =>
      cases b' with
      | choices cs' as' span' =>
        have hcovers := (hneat _ hb).covers_choice hc
        have hcovers' := (hneat _ hb').covers_choice hc'
        have hordered : c.span.start ≤ c.span.stop := ((hneat _ hb).choices c hc).ordered
        rcases hbefore with hapart | ⟨hkind, -⟩
        · calc c.span.start
            _ ≤ span.stop := Nat.le_trans hordered hcovers.stop
            _ ≤ span'.start := hapart
            _ ≤ c'.span.start := hcovers'.start
        · cases hkind
      | header | branch | paragraph | code | divert => cases hc'
    | header | branch | paragraph | code | divert => cases hc

/-- A match over blocks up to whose end it reaches is in order. -/
theorem orderly_branch (h : Laid file lo hi bs) (hneat : AllNeat bs) (hline : lineEnd ≤ lo)
    (hhi : lo ≤ hi) {line : MatchLine} (hfile : line.span.file = file)
    (hstart : line.span.start ≤ lineEnd) (hstop : line.span.stop = reach lineEnd bs) :
    (Node.block (.branch line (armsOf bs) (bs.filter fun b => b.kind != .choices))).Orderly := by
  have hreach := (h.reach_bounds hline hhi).1
  have hcovers (group : List Node)
      (hgroup : ∀ d, bs.getLast? = some (.divert d) → group.getLast? = some (.block (.divert d)))
      (m : Block) (hm : m ∈ bs) :
      Covers line.span m.span ↔ ¬ Overhangs line.span group (.block m) :=
    h.covers_iff hline hfile (Nat.le_trans hstart hline) hstop hgroup hm
  refine ⟨?_, ?_, ?_⟩
  · show line.span.start ≤ line.span.stop
    omega
  -- arms and other children are each in the order of the text
  · refine List.forall_mem_cons.mpr ⟨List.pairwise_map.mpr (sorted_armsOf h hneat), ?_⟩
    exact List.forall_mem_singleton.mpr (List.pairwise_map.mpr (h.sorted.filter _))
  · refine List.forall_mem_cons.mpr ⟨?_, List.forall_mem_singleton.mpr ?_⟩
    · rw [List.forall_mem_map]
      intro c hc
      obtain ⟨cs, as, span, hb, hc⟩ := mem_armsOf.mp hc
      -- an arm is inside its block, and that block is none of those which may hang over
      have houter : Covers line.span span :=
        (hcovers (bs.map .block) (fun d hd => by rw [List.getLast?_map, hd]; rfl) _ hb).mpr id
      have hcovered := houter.trans ((hneat _ hb).covers_choice hc)
      exact iff_of_true hcovered (not_overhangs_of_covers (m := .choice c) hcovered)
    · rw [List.forall_mem_map]
      refine fun m hm => hcovers _ (fun d hd => ?_) m (List.mem_of_mem_filter hm)
      obtain ⟨front, rfl⟩ := List.getLast?_eq_some_iff.mp hd
      have hkept : ([Block.divert d].filter fun b => b.kind != .choices) = [.divert d] := rfl
      rw [List.filter_append, hkept, List.getLast?_map, List.getLast?_concat]
      rfl

end Build

namespace Parse

variable {s : ParserState} {body : BodyParser}

/-! ## Single blocks -/

/-- A parser of blocks that are laid out where it reads them, and in order. -/
def Arranges (f : File) (body : BodyParser) : Prop :=
  ∀ depth stop s, Stands f s → Ends (body depth stop) s fun r s' =>
    Laid f.id s.lexer.cursor.offset s'.lexer.cursor.offset r.1 ∧ AllNeat r.1

/-- A block that is in order stands where it was read. -/
def Placed (f : File) (s : ParserState) (r : Block × Outcome) (s' : ParserState) : Prop :=
  Lies f.id s.lexer.cursor.offset s'.lexer.cursor.offset r.1.span ∧ r.1.Neat

theorem placed_header (h : Stands f s) (depth : Nat)
    (hstand : ∀ depth stop s, Stands f s → Ends (body depth stop) s (ReadBlocks f s))
    (hbody : Arranges f body) : Ends (header body depth) s (Placed f s) := by
  have hskip := h.ahead (d := s.log) (l := { s.lexer with cursor := s.lexer.cursor.skip _ })
    (Cursor.skip_ahead h.cursor (Cursor.runLength_bound h.cursor (· = '#')))
  simp only [header, ends_bind, ends_cursor, ends_mapCursor, ends_offset]
  refine (ends_eat hskip.stands ' ').imp fun _ s₁ h₁ => ?_
  refine (ends_restOfLine h₁.stands).imp fun t s₂ h₂ => ?_
  refine (ends_eatLineEnding h₂.stands).imp fun _ s₃ h₃ => ?_
  refine ((hstand depth _ s₃ h₃.stands).and (hbody depth _ s₃ h₃.stands)).imp fun r s₄ h₄ => ?_
  have hline := ((hskip.trans h₁).trans h₂).forward
  have hbelow := h₄.1.1.forward
  obtain ⟨hreach, hend⟩ := h₄.2.1.reach_bounds h₃.forward hbelow
  refine ⟨⟨h.cursor.file, Nat.le_refl _, Nat.le_trans hline hreach, hend⟩, .intro ?_ ?_ h₄.2.2⟩
  · exact orderly_header h₄.2.1 h₃.forward hbelow h.cursor.file hline rfl
  · exact List.forall_mem_nil _

theorem placed_codeBlock (h : Stands f s) (hp : s.lexer.cursor.hasPrefix [0x60, 0x60, 0x60]) :
    Ends codeBlock s (Placed f s) := by
  have hskip := h.ahead (d := s.log) (l := { s.lexer with cursor := s.lexer.cursor.skip 3 })
    (Cursor.skip_ahead h.cursor (Cursor.hasPrefix_bound h.cursor hp))
  simp only [codeBlock, ends_bind, ends_cursor, ends_mapCursor]
  refine (ends_restOfLine hskip.stands).imp fun t s₁ h₁ => ?_
  refine (ends_eatLineEnding h₁.stands).imp fun _ s₂ h₂ => ?_
  have hinner := (hskip.trans h₁).trans h₂
  -- with its closing fence the block ends behind it, without it at the end of the file
  split
  · next code behind hc =>
    rw [Cursor.consumeUntil?, Option.map_eq_some_iff] at hc
    obtain ⟨i, hi, hc⟩ := hc
    obtain ⟨-, rfl⟩ := Prod.mk.inj hc
    obtain ⟨hle, hfit⟩ := Cursor.positionOf?_within hinner.stands.cursor hi
    have hbehind := Nat.le_trans hle (Nat.le_add_right i 3)
    have hordered := Nat.le_trans hinner.forward hbehind
    simp only [ends_bind, ends_moveTo]
    have hm := hinner.stands.moveTo (d := s₂.log) hbehind hfit
    refine (ends_finishLine hm.stands).imp fun _ s₃ h₃ => ?_
    exact ⟨⟨h.cursor.file, Nat.le_refl _, hordered, h₃.forward⟩, .leaf (.inr (.inl rfl)) hordered⟩
  · have hrest := Cursor.rest_ahead hinner.stands.cursor s₂.lexer.cursor.limit
    have hordered := Nat.le_trans hinner.forward hrest.forward
    simp only [ends_bind, ends_unclosed, ends_complain, ends_moveTo, ends_pure]
    refine ⟨⟨h.cursor.file, Nat.le_refl _, hordered, Nat.le_refl _⟩, ?_⟩
    exact .leaf (.inr (.inl rfl)) hordered

theorem placed_branch (h : Stands f s) (depth : Nat) (hp : s.lexer.cursor.hasPrefix [0x40, 0x7B])
    (hstand : ∀ depth stop s, Stands f s → Ends (body depth stop) s (ReadBlocks f s))
    (hbody : Arranges f body) : Ends (branch body depth) s (Placed f s) := by
  simp only [branch, ends_bind, ends_cursor, ends_offset]
  refine (ends_matchCondition h hp).imp fun condition s₁ h₁ => ?_
  refine (ends_restOfLine h₁.1.stands).imp fun t s₂ h₂ => ?_
  refine (ends_matchMode h₂.stands _ _).imp fun _ s₃ h₃ => ?_
  refine (ends_eatLineEnding h₃.stands).imp fun _ s₄ h₄ => ?_
  refine ((hstand (depth + 1) 0 s₄ h₄.stands).and (hbody (depth + 1) 0 s₄ h₄.stands)).imp
    fun r s₅ h₅ => ?_
  have hline := ((h₁.1.trans h₂).trans h₃).forward
  have hbelow := h₅.1.1.forward
  obtain ⟨hreach, hend⟩ := h₅.2.1.reach_bounds h₄.forward hbelow
  refine ⟨⟨h.cursor.file, Nat.le_refl _, Nat.le_trans hline hreach, hend⟩, .intro ?_ ?_ ?_⟩
  · exact orderly_branch h₅.2.1 h₅.2.2 h₄.forward hbelow h.cursor.file hline rfl
  · intro c hc
    obtain ⟨cs, as, span, hb, hc⟩ := mem_armsOf.mp hc
    exact (h₅.2.2 _ hb).choices c hc
  · refine AllNeat.append (fun b hb => ?_) fun b hb => h₅.2.2 b (List.mem_of_mem_filter hb)
    obtain ⟨c, hc, hb⟩ := List.mem_flatMap.mp hb
    obtain ⟨cs, as, span, hchoices, hc⟩ := mem_armsOf.mp hc
    exact (h₅.2.2 _ hchoices).children b (List.mem_flatMap.mpr ⟨c, hc, hb⟩)

/-- The diverts of a line stand inside its paragraph, which is listed before them. -/
theorem arranges_paragraph (h : Stands f s) :
    Ends paragraph s fun r s' =>
      Laid f.id s.lexer.cursor.offset s'.lexer.cursor.offset r.1 ∧ AllNeat r.1 := by
  simp only [paragraph, ends_bind, ends_cursor, ends_offset]
  refine ((ends_lineText h).and (queue_lineText h)).imp fun r s₁ h₁ => ?_
  refine (ends_finishLine h₁.1.1.stands).imp fun _ s₂ h₂ => ?_
  have hforward := h₁.1.1.forward
  have hdiverts := h₁.2.laid
  refine ⟨Row.mono ?_ (Nat.le_refl _) h₂.forward, AllNeat.append ?_ (.of_queue h₁.2)⟩
  · split
    · exact hdiverts
    · refine ⟨List.forall_mem_cons.mpr ⟨?_, hdiverts.lies⟩,
        List.pairwise_cons.mpr ⟨?_, hdiverts.related⟩⟩
      · exact ⟨h.cursor.file, Nat.le_refl _, hforward, Nat.le_refl _⟩
      · intro b hb
        have hlies := hdiverts.lies b hb
        obtain ⟨d, -, rfl⟩ := List.mem_map.mp hb
        exact .inr ⟨rfl, rfl, hlies.start, hlies.stop⟩
  · split
    · exact List.forall_mem_nil _
    · exact List.forall_mem_singleton.mpr (.leaf (.inl rfl) hforward)

/-! ## Choices -/

theorem placed_choice (h : Stands f s) (depth : Nat)
    (hstand : ∀ depth stop s, Stands f s → Ends (body depth stop) s (ReadBlocks f s))
    (hbody : Arranges f body) :
    Ends (choice body depth) s fun r s' =>
      Lies f.id s.lexer.cursor.offset s'.lexer.cursor.offset r.1.span ∧ r.1.Neat := by
  have hdash := h.ahead (d := s.log) (l := { s.lexer with cursor := s.lexer.cursor.next })
    (Cursor.next_ahead h.cursor)
  simp only [choice, ends_bind, ends_cursor, ends_mapCursor, ends_offset]
  refine (ends_skipSpaces hdash.stands).imp fun _ s₁ h₁ => ?_
  refine (ends_choiceHead _ h₁.stands ChoiceHead.known_empty).imp fun head s₂ h₂ => ?_
  refine ((ends_lineText h₂.1.stands).and (queue_lineText h₂.1.stands)).imp fun r s₃ h₃ => ?_
  refine (ends_finishLine h₃.1.1.stands).imp fun _ s₄ h₄ => ?_
  have hstart := ((hdash.trans h₁).trans h₂.1).forward
  have hline := Nat.le_trans hstart h₃.1.1.forward
  -- whether blocks are read below the line or not, the choice ends with what was read last
  have hbelow (s₅ : ParserState) (h₅ : Reaches f s₄ s₅) :
      Ends (body (depth + 1) 0) s₅ fun b s₆ =>
        Lies f.id s.lexer.cursor.offset s₆.lexer.cursor.offset
            (s.lexer.cursor.spanAt s.lexer.cursor.offset (reach s₃.lexer.cursor.offset b.1))
          ∧ Choice.Neat (.mk
            { text := r.1, condition := head.condition, attrs := head.attrs.toList
              span := s.lexer.cursor.spanAt s.lexer.cursor.offset
                (reach s₃.lexer.cursor.offset b.1) }
            (r.2.1.map .divert ++ b.1)) := by
    refine ((hstand (depth + 1) 0 s₅ h₅.stands).and (hbody (depth + 1) 0 s₅ h₅.stands)).imp
      fun b s₆ h₆ => ?_
    have hends := (h₄.trans h₅).forward
    have hblocks := h₆.1.1.forward
    obtain ⟨hreach, hend⟩ := h₆.2.1.reach_bounds hends hblocks
    refine ⟨⟨h.cursor.file, Nat.le_refl _, Nat.le_trans hline hreach, hend⟩, ?_, ?_⟩
    · exact orderly_choice h₆.2.1 hends hblocks h.cursor.file hline rfl
        (h₃.2.mono hstart (Nat.le_refl _))
    · exact (AllNeat.of_queue h₃.2).append h₆.2.2
  -- behind the line the body is read, with what was queued or from the same state
  split
  · exact hbelow _ (h₄.stands.ahead (.refl h₄.stands.cursor))
  · exact hbelow _ (.refl h₄.stands)

theorem queue_choiceList (fuel depth : Nat) (h : Stands f s)
    (hstand : ∀ depth stop s, Stands f s → Ends (body depth stop) s (ReadBlocks f s))
    (hbody : Arranges f body) :
    Ends (choiceList body fuel depth) s fun r s' =>
      Queue Choice.span f.id s.lexer.cursor.offset s'.lexer.cursor.offset r.1
        ∧ ∀ c ∈ r.1, c.Neat := by
  induction fuel generalizing s with
  | zero => exact ⟨.nil, List.forall_mem_nil _⟩
  | succ fuel ih =>
    simp only [choiceList, ends_bind]
    refine ((ends_choice h depth hstand).and (placed_choice h depth hstand hbody)).imp
      fun r s₁ h₁ => ?_
    refine (ends_nextChoice h₁.1.1.stands depth).imp fun more s₂ h₂ => ?_
    have hfirst : Queue Choice.span f.id s.lexer.cursor.offset s₂.lexer.cursor.offset [r.1] :=
      .single (h₁.2.1.mono (Nat.le_refl _) h₂.forward)
    split
    · rw [ends_bind]
      refine ((ends_choiceList fuel depth h₂.stands hstand).and (ih h₂.stands)).imp
        fun r' s₃ h₃ => ?_
      refine ⟨?_, List.forall_mem_cons.mpr ⟨h₁.2.2, h₃.2.2⟩⟩
      exact hfirst.append (fun _ _ => id) h₃.2.1 (h₁.1.1.trans h₂).forward h₃.1.1.forward
    · exact ⟨hfirst, List.forall_mem_singleton.mpr h₁.2.2⟩

theorem placed_choices (h : Stands f s) (depth : Nat)
    (hstand : ∀ depth stop s, Stands f s → Ends (body depth stop) s (ReadBlocks f s))
    (hbody : Arranges f body) : Ends (choices body depth) s (Placed f s) := by
  simp only [choices, ends_bind, ends_cursor]
  refine ((ends_choiceList _ depth h hstand).and (queue_choiceList _ depth h hstand hbody)).imp
    fun r s₁ h₁ => ?_
  have hspan : s.lexer.cursor.spanAt s.lexer.cursor.offset
      ((r.1.getLast?.map (·.span.stop)).getD s.lexer.cursor.offset)
      = ⟨f.id, s.lexer.cursor.offset, choicesEnd r.1 s.lexer.cursor.offset⟩ := by
    rw [Cursor.spanAt, h.cursor.file]
    rfl
  have hforward := h₁.1.1.forward
  simp only [ends_pure, hspan]
  refine ⟨lies_choices h₁.2.1 hforward, .intro (orderly_choices h₁.2.1 hforward []) ?_ ?_⟩
  · exact fun c hc => (h₁.2.2 c hc).here
  · intro b hb
    obtain ⟨c, hc, hb⟩ := List.mem_flatMap.mp hb
    exact (h₁.2.2 c hc).children b hb

/-! ## Sequences -/

theorem arranges_openedBlock (h : Stands f s) (depth : Nat)
    (hstand : ∀ depth stop s, Stands f s → Ends (body depth stop) s (ReadBlocks f s))
    (hbody : Arranges f body) :
    Ends (openedBlock body depth) s fun r s' =>
      Laid f.id s.lexer.cursor.offset s'.lexer.cursor.offset r.1 ∧ AllNeat r.1 := by
  have single {m : Parse (Block × Outcome)} (hm : Ends m s (Placed f s)) :
      Ends m s fun r s' =>
        Laid f.id s.lexer.cursor.offset s'.lexer.cursor.offset [r.1] ∧ AllNeat [r.1] :=
    hm.imp fun r _ hr => ⟨.single hr.1, List.forall_mem_singleton.mpr hr.2⟩
  have hfits := BlockOpening.ofCursor_fits s.lexer.cursor
  rw [openedBlock, ends_bind, ends_cursor]
  generalize BlockOpening.ofCursor s.lexer.cursor = o at hfits ⊢
  cases o with
  | header =>
    rw [ends_bind]
    exact single (placed_header h depth hstand hbody)
  | code =>
    rw [ends_bind]
    exact single (placed_codeBlock h hfits)
  | branch =>
    rw [ends_bind]
    exact single (placed_branch h depth hfits hstand hbody)
  | choices =>
    rw [ends_bind]
    exact single (placed_choices h depth hstand hbody)
  | paragraph => exact arranges_paragraph h

theorem arranges_block (h : Stands f s) (depth : Nat)
    (hstand : ∀ depth stop s, Stands f s → Ends (body depth stop) s (ReadBlocks f s))
    (hbody : Arranges f body) :
    Ends (block body depth) s fun r s' =>
      Laid f.id s.lexer.cursor.offset s'.lexer.cursor.offset r.1 ∧ AllNeat r.1 := by
  simp only [block, ends_bind, ends_cursor, ends_lexer]
  refine (ends_attributeLines _ depth h).imp fun r s₁ h₁ => ?_
  split
  · split
    · exact ⟨.nil, List.forall_mem_nil _⟩
    · exact ⟨.nil, List.forall_mem_nil _⟩
  · have hindent := h₁.1.trans (h₁.1.stands.ahead (d := s₁.log)
      (Lexer.skipIndent_ahead h₁.1.stands.cursor))
    simp only [ends_bind, ends_mapLexer]
    refine (arranges_openedBlock hindent.stands depth hstand hbody).imp fun r' s₂ h₂ => ?_
    exact ⟨(h₂.1.mono hindent.forward (Nat.le_refl _)).attach _, h₂.2.attach _⟩

theorem arranges_sequence (fuel : Nat) : Arranges f (sequence fuel) := by
  induction fuel with
  | zero => exact fun _ _ _ _ => ⟨.nil, List.forall_mem_nil _⟩
  | succ fuel ih =>
    intro depth stop s h
    have hstand (depth stop : Nat) (s : ParserState) (hs : Stands f s) :=
      ends_sequence fuel depth stop hs
    have hblank := h.ahead (d := s.log) (Lexer.skipBlankLines_ahead h.cursor)
    simp only [sequence, ends_bind, ends_mapLexer, ends_lexer]
    split
    · exact ⟨.nil, List.forall_mem_nil _⟩
    · simp only [ends_bind, ends_offset]
      refine ((ends_block hblank.stands depth hstand).and
        (arranges_block hblank.stands depth hstand ih)).imp fun r s₁ h₁ => ?_
      have hfirst := h₁.2.1.mono hblank.forward (Nat.le_refl _)
      -- what follows is read from behind this block, whether its line is ended first or not
      have hrest (s₂ : ParserState) (h₂ : Reaches f s₁ s₂) : Ends (sequence fuel depth stop) s₂
          fun r' s₃ => Laid f.id s.lexer.cursor.offset s₃.lexer.cursor.offset (r.1 ++ r'.1)
            ∧ AllNeat (r.1 ++ r'.1) := by
        refine ((hstand depth stop s₂ h₂.stands).and (ih depth stop s₂ h₂.stands)).imp
          fun r' s₃ h₃ => ⟨?_, h₁.2.2.append h₃.2.2⟩
        exact (hfirst.mono (Nat.le_refl _) h₂.forward).append (fun _ _ => .inl) h₃.2.1
          ((hblank.trans h₁.1.1).trans h₂).forward h₃.1.1.forward
      split
      · rw [ends_bind]
        exact (ends_finishLine h₁.1.1.stands).imp fun _ s₂ h₂ => hrest s₂ h₂
      · exact hrest s₁ (.refl h₁.1.1.stands)

end Parse

/-! ## Documents -/

namespace Document

/-- All blocks and choices of a document. -/
def nodes (d : Document) : List Node :=
  d.visits.flatMap fun v => .block v.block :: v.block.ownChoices.map .choice

/-- The lists of nodes of a document that stand next to each other. -/
def siblings (d : Document) : List (List Node) :=
  d.blocks.map .block :: d.nodes.flatMap Node.groups

theorem orderly_of_neat {d : Document} (h : AllNeat d.blocks) : ∀ n ∈ d.nodes, n.Orderly := by
  intro n hn
  obtain ⟨v, hv, hn⟩ := List.mem_flatMap.mp hn
  obtain ⟨b, hb, hv⟩ := mem_visitBlocks.mp hv
  obtain ⟨hblock, hchoices⟩ := (h b hb).visit _ v hv
  rcases List.mem_cons.mp hn with rfl | hn
  · exact hblock
  · obtain ⟨c, hc, rfl⟩ := List.mem_map.mp hn
    exact hchoices c hc

end Document

/-- In every parsed file of fewer than 2^32 bytes siblings are listed in the order in which they
start, and the range of a header, match, choice group or choice covers everything right below it
with the exception of the paragraphs that hang over. -/
theorem covers_iff_not_overhangs (f : File) (layout : Layout) (maxErrors : Nat)
    (small : f.size < Word.modulus) :
    let d := (parse f layout maxErrors).document
    (∀ g ∈ d.siblings, g.Pairwise fun m m' => m.span.start ≤ m'.span.start)
      ∧ ∀ n ∈ d.nodes, ∀ g ∈ n.groups, ∀ m ∈ g,
        (Covers n.span m.span ↔ ¬ Overhangs n.span g m) := by
  intro d
  have start := Stands.ofFile (f := f) layout small
  obtain ⟨hlaid, hneat⟩ :=
    Parse.arranges_sequence ((Lexer.ofFile f layout).cursor.limit + 1) 0 0 _ start
  have horderly := Document.orderly_of_neat (d := d) hneat
  refine ⟨List.forall_mem_cons.mpr ⟨List.pairwise_map.mpr hlaid.sorted, fun g hg => ?_⟩,
    fun n hn => (horderly n hn).covers⟩
  obtain ⟨n, hn, hg⟩ := List.mem_flatMap.mp hg
  exact (horderly n hn).sorted g hg

/-- Where each divert ends its line nothing hangs over. -/
theorem covers_iff_not_overhangs_match :
    let f := File.ofBytes 0 "a.story" "# A\n@\x7bz\x7d\n\t- b\n\t\tc -> d\n\te -> f\n"
    f.size < Word.modulus
      ∧ (parse f).document.nodes.map (fun n => (n.span.start, n.span.stop, n.groups.length))
        = [(0, 30, 1), (4, 30, 2), (10, 22, 1), (16, 22, 0), (18, 22, 0), (24, 30, 0), (26, 30, 0)]
      ∧ ∀ n ∈ (parse f).document.nodes, ∀ g ∈ n.groups, ∀ m ∈ g, Covers n.span m.span := by
  intro f
  have small : f.size < Word.modulus := by decide +kernel
  have hnone : ∀ n ∈ (parse f).document.nodes, ∀ g ∈ n.groups, ∀ m ∈ g,
      ¬ Overhangs n.span g m := by decide +kernel
  refine ⟨small, by decide +kernel, fun n hn g hg m hm => ?_⟩
  exact ((covers_iff_not_overhangs f {} 0 small).2 n hn g hg m hm).mpr (hnone n hn g hg m hm)

/-- A paragraph that goes on behind its divert is not covered by its header. -/
theorem paragraph_leaves_header :
    ¬ ∀ n ∈ (parse (File.ofBytes 0 "a.story" "# A\na -> b c\n")).document.nodes,
      ∀ g ∈ n.groups, ∀ m ∈ g, Covers n.span m.span := by
  decide +kernel

end Storyline.Markup
