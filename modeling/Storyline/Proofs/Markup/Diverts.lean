import Storyline.Proofs.Markup.Addresses
import Storyline.Proofs.Markup.Enclosure
import Storyline.Proofs.Markup.Nesting

/-!
# The list of diverts

Every divert of a document is listed once, with the innermost header around it.  The list follows
the visit of the document, which comes to the arms of a match before the other blocks below the
match, wherever these stand in the file.  So it is in source order if and only if in every match the
diverts below the arms come before the other ones (`Block.ArmsFirst`), as `diverts_exact` says.

That nothing else is out of order is a matter of the parser: what is read one after the other stands
one behind the other (`Spread`).  A single block is judged for any parser of the blocks below it
that spreads them.
-/

namespace Storyline.Markup

variable {f : File}

/-! ## Blocks in the order of the visit -/

/-- Some blocks with everything below them, in the order of the visit. -/
def blocksIn (bs : List Block) : List Block := (visitBlocks none bs).map (·.block)

/-- The divert that a block is. -/
def Block.divert? : Block → Option Divert
  | .divert d => some d
  | .paragraph _ | .code _ | .choices .. | .branch .. | .header .. => none

/-- Where the diverts among some blocks and below them start, in the order of the visit. -/
def startsIn (bs : List Block) : List Nat :=
  (blocksIn bs).filterMap fun b => b.divert?.map (·.span.start)

/-- Whether a block that is a match lists its diverts in source order, as far as those below its
arms and those below its other blocks are concerned. -/
def Block.ArmsFirst : Block → Prop
  | .branch _ arms children =>
    ∀ m ∈ startsIn (arms.flatMap Choice.children), ∀ n ∈ startsIn children, m ≤ n
  | .paragraph _ | .code _ | .choices .. | .divert _ | .header .. => True

instance : DecidablePred Block.ArmsFirst
  | .branch _ arms children => inferInstanceAs
      (Decidable (∀ m ∈ startsIn (arms.flatMap Choice.children), ∀ n ∈ startsIn children, m ≤ n))
  | .paragraph _ | .code _ | .choices .. | .divert _ | .header .. => .isTrue trivial

/-- What is visited does not depend on the header around it. -/
theorem map_block_visitBlocks (owner : Option Heading) (bs : List Block) :
    (visitBlocks owner bs).map (·.block) = blocksIn bs := by
  suffices hany : ∀ owner owner', (visitBlocks owner bs).map (·.block)
      = (visitBlocks owner' bs).map (·.block) from hany owner none
  induction bs using blocks_induction with
  | nil => exact fun _ _ => rfl
  | cons b bs hbelow hrest =>
    intro owner owner'
    rw [visitBlocks, visitBlocks, List.map_append, List.map_append, visitBlock_eq,
      visitBlock_eq, List.map_cons, List.map_cons, hbelow _ (b.heading?.or owner'),
      hrest owner owner']

theorem blocksIn_append (bs cs : List Block) :
    blocksIn (bs ++ cs) = blocksIn bs ++ blocksIn cs := by
  rw [blocksIn, visitBlocks_append, List.map_append, blocksIn, blocksIn]

theorem blocksIn_cons (b : Block) (bs : List Block) :
    blocksIn (b :: bs) = b :: blocksIn b.children ++ blocksIn bs := by
  rw [blocksIn, visitBlocks, List.map_append, visitBlock_eq, List.map_cons,
    map_block_visitBlocks, map_block_visitBlocks]

theorem startsIn_append (bs cs : List Block) :
    startsIn (bs ++ cs) = startsIn bs ++ startsIn cs := by
  rw [startsIn, blocksIn_append, List.filterMap_append, startsIn, startsIn]

/-- A block that is no divert adds no start to those of what is below it. -/
theorem startsIn_singleton {b : Block} (hb : b.divert? = none) :
    startsIn [b] = startsIn b.children := by
  rw [startsIn, blocksIn_cons, List.cons_append, List.filterMap_cons_none (by rw [hb]; rfl),
    List.filterMap_append, startsIn]
  exact List.append_nil _

theorem startsIn_diverts (ds : List Divert) :
    startsIn (ds.map .divert) = ds.map (·.span.start) := by
  induction ds with
  | nil => rfl
  | cons d ds ih =>
    rw [List.map_cons, List.map_cons, ← ih]
    rfl

/-- Everything below a block is visited together with the block. -/
theorem blocksIn_children_sublist {b : Block} {bs : List Block} (hb : b ∈ blocksIn bs) :
    List.Sublist (blocksIn b.children) (blocksIn bs) := by
  induction bs using blocks_induction with
  | nil => cases hb
  | cons c bs hbelow hrest =>
    rw [blocksIn_cons] at hb ⊢
    rcases List.mem_append.mp hb with hb | hb
    · refine List.Sublist.trans ?_ (List.sublist_append_left _ _)
      rcases List.mem_cons.mp hb with rfl | hb
      · exact List.sublist_cons_self _ _
      · exact (hbelow hb).cons _
    · exact (hrest hb).trans (List.sublist_append_right _ _)

theorem blocksIn_eq_flatMap (bs : List Block) :
    blocksIn bs = bs.flatMap fun b => b :: blocksIn b.children := by
  induction bs with
  | nil => rfl
  | cons b bs ih => rw [blocksIn_cons, List.flatMap_cons, ih]

theorem blocksIn_subset {bs cs : List Block} (h : bs ⊆ cs) : blocksIn bs ⊆ blocksIn cs := by
  intro b hb
  rw [blocksIn_eq_flatMap, List.mem_flatMap] at hb ⊢
  exact hb.imp fun c hc => ⟨h hc.1, hc.2⟩

theorem blocksIn_sublist {bs cs : List Block} (h : List.Sublist bs cs) :
    List.Sublist (blocksIn bs) (blocksIn cs) := by
  rw [blocksIn_eq_flatMap, blocksIn_eq_flatMap]
  exact h.flatMap _

/-- What is below the choices among some blocks. -/
theorem blocksIn_arms_sublist (bs : List Block) :
    List.Sublist (blocksIn ((armsOf bs).flatMap Choice.children)) (blocksIn bs) := by
  induction bs with
  | nil => exact .slnil
  | cons b bs ih =>
    rw [blocksIn_cons]
    cases b with
    | choices cs as span =>
      have harms : armsOf (.choices cs as span :: bs) = cs ++ armsOf bs := rfl
      rw [harms, List.flatMap_append, blocksIn_append]
      exact ((List.Sublist.refl _).cons _).append ih
    | paragraph | code | divert | branch | header =>
      exact ih.trans (List.sublist_append_right _ _)

/-- All blocks are below the choices among them, are among the other ones or below these, or are
groups of choices. -/
theorem kind_or_mem_of_mem_blocksIn {b : Block} {bs : List Block} (hb : b ∈ blocksIn bs) :
    b.kind = .choices ∨ b ∈ blocksIn
      ((armsOf bs).flatMap Choice.children ++ bs.filter fun b => b.kind != .choices) := by
  rw [blocksIn_eq_flatMap, List.mem_flatMap] at hb
  obtain ⟨c, hc, hb⟩ := hb
  by_cases hkind : c.kind = .choices
  · cases c with
    | choices cs as span =>
      rcases List.mem_cons.mp hb with rfl | hb
      · exact .inl rfl
      · refine .inr (blocksIn_subset (fun d hd => ?_) hb)
        obtain ⟨arm, harm, hd⟩ := List.mem_flatMap.mp hd
        have harms : arm ∈ armsOf bs := mem_armsOf.mpr ⟨cs, as, span, hc, harm⟩
        exact List.mem_append_left _ (List.mem_flatMap.mpr ⟨arm, harms, hd⟩)
    | paragraph | code | divert | branch | header => cases hkind
  · refine .inr ?_
    rw [blocksIn_append, List.mem_append, blocksIn_eq_flatMap (bs.filter _), List.mem_flatMap]
    exact .inr ⟨c, List.mem_filter.mpr ⟨hc, by simpa using hkind⟩, hb⟩

/-- A list of diverts in source order leaves the arms of no match behind. -/
theorem armsFirst_of_sorted {bs : List Block} (hsorted : (startsIn bs).Pairwise (· ≤ ·)) :
    ∀ b ∈ blocksIn bs, b.ArmsFirst := by
  intro b hb
  have hbelow : (startsIn b.children).Pairwise (· ≤ ·) :=
    hsorted.sublist ((blocksIn_children_sublist hb).filterMap _)
  cases b with
  | branch line arms children =>
    rw [Block.children, startsIn_append, List.pairwise_append] at hbelow
    exact hbelow.2.2
  | paragraph | code | choices | divert | header => trivial

/-! ## Where diverts start -/

/-- The diverts among some blocks and below them start from `lo` on and not behind `hi`, and they
are listed in this order if the arms of each match come first. -/
structure Spread (lo hi : Nat) (bs : List Block) : Prop where
  bounds : ∀ n ∈ startsIn bs, lo ≤ n ∧ n ≤ hi
  sorted : (∀ b ∈ blocksIn bs, b.ArmsFirst) → (startsIn bs).Pairwise (· ≤ ·)

namespace Spread

variable {lo mid hi : Nat} {bs cs : List Block}

theorem nil : Spread lo hi [] := ⟨List.forall_mem_nil _, fun _ => .nil⟩

theorem widen (h : Spread lo hi bs) {lo' hi' : Nat} (hlo : lo' ≤ lo) (hhi : hi ≤ hi') :
    Spread lo' hi' bs := by
  refine ⟨fun n hn => ?_, h.sorted⟩
  obtain ⟨hle, hge⟩ := h.bounds n hn
  exact ⟨Nat.le_trans hlo hle, Nat.le_trans hge hhi⟩

theorem append (hb : Spread lo mid bs) (hc : Spread mid hi cs) (hlo : lo ≤ mid) (hhi : mid ≤ hi) :
    Spread lo hi (bs ++ cs) := by
  refine ⟨fun n hn => ?_, fun harms => ?_⟩
  · rw [startsIn_append] at hn
    exact (List.mem_append.mp hn).elim ((hb.widen (Nat.le_refl _) hhi).bounds n)
      ((hc.widen hlo (Nat.le_refl _)).bounds n)
  · rw [blocksIn_append, List.forall_mem_append] at harms
    rw [startsIn_append, List.pairwise_append]
    refine ⟨hb.sorted harms.1, hc.sorted harms.2, fun m hm n hn => ?_⟩
    exact Nat.le_trans (hb.bounds m hm).2 (hc.bounds n hn).1

theorem diverts {file : FileId} {ds : List Divert} (h : Queue Divert.span file lo hi ds) :
    Spread lo hi (ds.map .divert) := by
  refine ⟨?_, fun _ => ?_⟩
  · rw [startsIn_diverts, List.forall_mem_map]
    intro d hd
    have hlies := h.lies d hd
    exact ⟨hlies.start, Nat.le_trans hlies.ordered hlies.stop⟩
  · rw [startsIn_diverts, List.pairwise_map]
    exact h.related.imp_of_mem fun hd _ hle => Nat.le_trans (h.lies _ hd).ordered hle

/-- A block that is no divert spreads the diverts below it. -/
theorem single {b : Block} (hb : b.divert? = none) (h : Spread lo hi b.children) :
    Spread lo hi [b] := by
  refine ⟨?_, fun harms => ?_⟩
  · rw [startsIn_singleton hb]
    exact h.bounds
  · rw [startsIn_singleton hb]
    refine h.sorted fun c hc => harms c ?_
    rw [blocksIn_cons]
    exact List.mem_append_left _ (List.mem_cons_of_mem _ hc)

/-- The arms of a match and its other blocks are taken out of one list that spreads its diverts. -/
theorem branch (h : Spread lo hi bs) (line : MatchLine) :
    Spread lo hi [.branch line (armsOf bs) (bs.filter fun b => b.kind != .choices)] := by
  have harms := blocksIn_arms_sublist bs
  have hothers := blocksIn_sublist (List.filter_sublist (l := bs) (p := fun b => b.kind != .choices))
  refine ⟨?_, fun hfirst => ?_⟩
  · rw [startsIn_singleton rfl, Block.children, startsIn_append, List.forall_mem_append]
    exact ⟨fun n hn => h.bounds n ((harms.filterMap _).subset hn),
      fun n hn => h.bounds n ((hothers.filterMap _).subset hn)⟩
  · rw [blocksIn_cons, List.forall_mem_append, List.forall_mem_cons] at hfirst
    obtain ⟨⟨here, hbelow⟩, -⟩ := hfirst
    have hsorted := h.sorted fun b hb => by
      rcases kind_or_mem_of_mem_blocksIn hb with hkind | hb
      · cases b with
        | choices => trivial
        | paragraph | code | divert | branch | header => cases hkind
      · exact hbelow b hb
    rw [startsIn_singleton rfl, Block.children, startsIn_append, List.pairwise_append]
    exact ⟨hsorted.sublist (harms.filterMap _), hsorted.sublist (hothers.filterMap _), here⟩

/-- Attributes do not move diverts. -/
theorem attach (h : Spread lo hi bs) (as : List Attribute) : Spread lo hi (Parse.attach as bs) := by
  cases bs with
  | nil => exact h
  | cons b bs =>
    have hstarts : startsIn (Parse.attach as (b :: bs)) = startsIn (b :: bs) := by
      rw [Parse.attach, startsIn, blocksIn_cons, startsIn, blocksIn_cons]
      cases b <;> rfl
    have hblocks : blocksIn (Parse.attach as (b :: bs))
        = b.withAttrs as :: blocksIn b.children ++ blocksIn bs := by
      rw [Parse.attach, blocksIn_cons, Block.children_withAttrs]
    have hfirst : (b.withAttrs as).ArmsFirst = b.ArmsFirst := by cases b <;> rfl
    refine ⟨hstarts ▸ h.bounds, fun harms => ?_⟩
    rw [hstarts]
    refine h.sorted ?_
    rw [hblocks, List.forall_mem_append, List.forall_mem_cons, hfirst] at harms
    rw [blocksIn_cons, List.forall_mem_append, List.forall_mem_cons]
    exact harms

end Spread

namespace Parse

/-- A parser that spreads diverts between the place where it starts and the one where it ends. -/
def Spreads (f : File) (body : BodyParser) : Prop :=
  ∀ depth stop s, Stands f s → Ends (body depth stop) s fun r s' =>
    Spread s.lexer.cursor.offset s'.lexer.cursor.offset r.1

variable {s : ParserState} {body : BodyParser}

/-! ## Single blocks -/

theorem spreads_header (h : Stands f s) (depth : Nat) (hbody : Spreads f body) :
    Ends (header body depth) s fun r s' =>
      Spread s.lexer.cursor.offset s'.lexer.cursor.offset [r.1] := by
  have hskip := h.ahead (d := s.log) (l := { s.lexer with cursor := s.lexer.cursor.skip _ })
    (Cursor.skip_ahead h.cursor (Cursor.runLength_bound h.cursor (· = '#')))
  simp only [header, ends_bind, ends_cursor, ends_mapCursor, ends_offset]
  refine (ends_eat hskip.stands ' ').imp fun _ s₁ h₁ => ?_
  refine (ends_restOfLine h₁.stands).imp fun t s₂ h₂ => ?_
  refine (ends_eatLineEnding h₂.stands).imp fun _ s₃ h₃ => ?_
  refine (hbody depth _ s₃ h₃.stands).imp fun r s₄ h₄ => ?_
  exact .single rfl (h₄.widen (((hskip.trans h₁).trans h₂).trans h₃).forward (Nat.le_refl _))

theorem spreads_branch (h : Stands f s) (depth : Nat) (hp : s.lexer.cursor.hasPrefix [0x40, 0x7B])
    (hbody : Spreads f body) :
    Ends (branch body depth) s fun r s' =>
      Spread s.lexer.cursor.offset s'.lexer.cursor.offset [r.1] := by
  simp only [branch, ends_bind, ends_cursor, ends_offset]
  refine (ends_matchCondition h hp).imp fun condition s₁ h₁ => ?_
  refine (ends_restOfLine h₁.1.stands).imp fun t s₂ h₂ => ?_
  refine (ends_matchMode h₂.stands _ _).imp fun _ s₃ h₃ => ?_
  refine (ends_eatLineEnding h₃.stands).imp fun _ s₄ h₄ => ?_
  refine (hbody (depth + 1) 0 s₄ h₄.stands).imp fun r s₅ h₅ => ?_
  have hline := ((h₁.1.trans h₂).trans h₃).trans h₄
  exact (h₅.widen hline.forward (Nat.le_refl _)).branch _

theorem spreads_paragraph (h : Stands f s) :
    Ends paragraph s fun r s' =>
      Spread s.lexer.cursor.offset s'.lexer.cursor.offset r.1 := by
  simp only [paragraph, ends_bind, ends_cursor, ends_offset]
  refine ((ends_lineText h).and (queue_lineText h)).imp fun r s₁ h₁ => ?_
  refine (ends_finishLine h₁.1.1.stands).imp fun _ s₂ h₂ => ?_
  have hdiverts := Spread.diverts h₁.2
  refine Spread.widen ?_ (Nat.le_refl _) h₂.forward
  split
  · exact hdiverts
  · exact (Spread.single rfl .nil).append hdiverts (Nat.le_refl _) h₁.1.1.forward

/-! ## Choices -/

/-- The diverts of the line of a choice stand before those below it. -/
theorem spreads_choice (h : Stands f s) (depth : Nat)
    (hstand : ∀ depth stop s, Stands f s → Ends (body depth stop) s (ReadBlocks f s))
    (hbody : Spreads f body) :
    Ends (choice body depth) s fun r s' =>
      Spread s.lexer.cursor.offset s'.lexer.cursor.offset r.1.children := by
  have hdash := h.ahead (d := s.log) (l := { s.lexer with cursor := s.lexer.cursor.next })
    (Cursor.next_ahead h.cursor)
  simp only [choice, ends_bind, ends_cursor, ends_mapCursor, ends_offset]
  refine (ends_skipSpaces hdash.stands).imp fun _ s₁ h₁ => ?_
  refine (ends_choiceHead _ h₁.stands ChoiceHead.known_empty).imp fun head s₂ h₂ => ?_
  refine ((ends_lineText h₂.1.stands).and (queue_lineText h₂.1.stands)).imp fun r s₃ h₃ => ?_
  refine (ends_finishLine h₃.1.1.stands).imp fun _ s₄ h₄ => ?_
  have hstart := ((hdash.trans h₁).trans h₂.1).forward
  have hline := Nat.le_trans hstart h₃.1.1.forward
  -- the diverts of the line come first, then the blocks below it
  have hbelow (s₅ : ParserState) (h₅ : Reaches f s₄ s₅) :
      Ends (body (depth + 1) 0) s₅ fun b s₆ =>
        Spread s.lexer.cursor.offset s₆.lexer.cursor.offset (r.2.1.map .divert ++ b.1) := by
    refine ((hstand (depth + 1) 0 s₅ h₅.stands).and (hbody (depth + 1) 0 s₅ h₅.stands)).imp
      fun b s₆ h₆ => ?_
    have hends := (h₄.trans h₅).forward
    have hdiverts := (Spread.diverts h₃.2).widen hstart (Nat.le_refl _)
    exact hdiverts.append (h₆.2.widen hends (Nat.le_refl _)) hline
      (Nat.le_trans hends h₆.1.1.forward)
  split
  · exact hbelow _ (h₄.stands.ahead (.refl h₄.stands.cursor))
  · exact hbelow _ (.refl h₄.stands)

theorem spreads_choiceList (fuel depth : Nat) (h : Stands f s)
    (hstand : ∀ depth stop s, Stands f s → Ends (body depth stop) s (ReadBlocks f s))
    (hbody : Spreads f body) :
    Ends (choiceList body fuel depth) s fun r s' =>
      Spread s.lexer.cursor.offset s'.lexer.cursor.offset (r.1.flatMap Choice.children) := by
  induction fuel generalizing s with
  | zero => exact .nil
  | succ fuel ih =>
    simp only [choiceList, ends_bind]
    refine ((ends_choice h depth hstand).and (spreads_choice h depth hstand hbody)).imp
      fun r s₁ h₁ => ?_
    refine (ends_nextChoice h₁.1.1.stands depth).imp fun more s₂ h₂ => ?_
    have hfirst := h₁.2.widen (Nat.le_refl _) h₂.forward
    split
    · rw [ends_bind]
      refine ((ends_choiceList fuel depth h₂.stands hstand).and (ih h₂.stands)).imp
        fun r' s₃ h₃ => ?_
      simp only [ends_pure, List.flatMap_cons]
      exact hfirst.append h₃.2 (h₁.1.1.trans h₂).forward h₃.1.1.forward
    · simpa only [ends_pure, List.flatMap_cons, List.flatMap_nil, List.append_nil] using hfirst

theorem spreads_choices (h : Stands f s) (depth : Nat)
    (hstand : ∀ depth stop s, Stands f s → Ends (body depth stop) s (ReadBlocks f s))
    (hbody : Spreads f body) :
    Ends (choices body depth) s fun r s' =>
      Spread s.lexer.cursor.offset s'.lexer.cursor.offset [r.1] := by
  simp only [choices, ends_bind, ends_cursor]
  exact (spreads_choiceList _ depth h hstand hbody).imp fun r s₁ h₁ => .single rfl h₁

/-! ## Sequences -/

theorem spreads_openedBlock (h : Stands f s) (depth : Nat)
    (hstand : ∀ depth stop s, Stands f s → Ends (body depth stop) s (ReadBlocks f s))
    (hbody : Spreads f body) :
    Ends (openedBlock body depth) s fun r s' =>
      Spread s.lexer.cursor.offset s'.lexer.cursor.offset r.1 := by
  have hfits := BlockOpening.ofCursor_fits s.lexer.cursor
  rw [openedBlock, ends_bind, ends_cursor]
  generalize BlockOpening.ofCursor s.lexer.cursor = o at hfits ⊢
  -- by the kind of the block, the code block being the only leaf
  cases o with
  | header =>
    rw [ends_bind]
    exact spreads_header h depth hbody
  | code =>
    rw [ends_bind]
    refine kind_codeBlock.imp fun r _ hr => ?_
    obtain ⟨b, o⟩ := r
    cases b with
    | code c => exact .single rfl .nil
    | paragraph | choices | divert | branch | header => cases hr
  | branch =>
    rw [ends_bind]
    exact spreads_branch h depth hfits hbody
  | choices =>
    rw [ends_bind]
    exact spreads_choices h depth hstand hbody
  | paragraph => exact spreads_paragraph h

theorem spreads_block (h : Stands f s) (depth : Nat)
    (hstand : ∀ depth stop s, Stands f s → Ends (body depth stop) s (ReadBlocks f s))
    (hbody : Spreads f body) :
    Ends (block body depth) s fun r s' =>
      Spread s.lexer.cursor.offset s'.lexer.cursor.offset r.1 := by
  simp only [block, ends_bind, ends_cursor, ends_lexer]
  refine (ends_attributeLines _ depth h).imp fun r s₁ h₁ => ?_
  split
  · split
    · exact .nil
    · exact .nil
  · have hindent := h₁.1.trans (h₁.1.stands.ahead (d := s₁.log)
      (Lexer.skipIndent_ahead h₁.1.stands.cursor))
    simp only [ends_bind, ends_mapLexer]
    refine (spreads_openedBlock hindent.stands depth hstand hbody).imp fun r' s₂ h₂ => ?_
    exact (h₂.widen hindent.forward (Nat.le_refl _)).attach _

theorem spreads_sequence (fuel : Nat) : Spreads f (sequence fuel) := by
  induction fuel with
  | zero => exact fun _ _ _ _ => .nil
  | succ fuel ih =>
    intro depth stop s h
    have hstand (depth stop : Nat) (s : ParserState) (hs : Stands f s) :=
      ends_sequence fuel depth stop hs
    have hskip := h.ahead (d := s.log) (Lexer.skipBlankLines_ahead h.cursor)
    simp only [sequence, ends_bind, ends_mapLexer, ends_lexer]
    split
    · exact .nil
    · simp only [ends_bind, ends_offset]
      refine ((ends_block hskip.stands depth hstand).and
        (spreads_block hskip.stands depth hstand ih)).imp fun r s₁ h₁ => ?_
      have hrest (s₂ : ParserState) (h₂ : Reaches f s₁ s₂) : Ends (sequence fuel depth stop) s₂
          fun r' s' => Spread s.lexer.cursor.offset s'.lexer.cursor.offset (r.1 ++ r'.1) := by
        refine ((hstand depth stop s₂ h₂.stands).and (ih depth stop s₂ h₂.stands)).imp
          fun r' s₃ h₃ => ?_
        have hto := (hskip.trans h₁.1.1).trans h₂
        exact (h₁.2.widen hskip.forward h₂.forward).append h₃.2 hto.forward h₃.1.1.forward
      split
      · rw [ends_bind]
        exact (ends_finishLine h₁.1.1.stands).imp fun _ s₂ h₂ => hrest s₂ h₂
      · exact hrest s₁ (.refl h₁.1.1.stands)

end Parse

/-! ## Documents -/

namespace Document

/-- The divert at an address of a document, with the innermost header around it. -/
def divertAt? (d : Document) (address : List Nat) : Option (Divert × Option Heading) :=
  (d.visitAt? address).bind fun v => v.block.divert?.map (·, v.owner)

theorem diverts_eq (d : Document) :
    d.diverts = d.visits.filterMap fun v => v.block.divert?.map (·, v.owner) := by
  refine List.filterMap_congr fun v _ => ?_
  obtain ⟨b, owner⟩ := v
  cases b <;> rfl

/-- Diverts are listed by the places where they start. -/
def Sorted (d : Document) : Prop :=
  d.diverts.Pairwise fun x y => x.1.span.start ≤ y.1.span.start

instance (d : Document) : Decidable d.Sorted :=
  inferInstanceAs (Decidable (d.diverts.Pairwise fun x y => x.1.span.start ≤ y.1.span.start))

theorem map_start_diverts (d : Document) :
    d.diverts.map (·.1.span.start) = startsIn d.blocks := by
  rw [diverts_eq, List.map_filterMap, startsIn, blocksIn, List.filterMap_map]
  refine List.filterMap_congr fun v _ => ?_
  simp [Option.map_map, Function.comp_def]

end Document

/-- In every parsed file of fewer than 2^32 bytes the diverts are listed once for each place where
one stands, with the innermost header around it, and they are listed by the places where they start
if and only if in every match the diverts below the arms start before those below the other
blocks. -/
theorem diverts_exact (f : File) (layout : Layout) (maxErrors : Nat)
    (small : f.size < Word.modulus) :
    let d := (parse f layout maxErrors).document
    (∃ places, Lists d.divertAt? places d.diverts)
      ∧ (d.Sorted ↔ ∀ v ∈ d.visits, v.block.ArmsFirst) := by
  intro d
  have hspread := Parse.spreads_sequence ((Lexer.ofFile f layout).cursor.limit + 1) 0 0 _
    (Stands.ofFile layout small)
  obtain ⟨places, hplaces⟩ := d.exists_lists_visits
  refine ⟨⟨_, d.diverts_eq ▸ hplaces.filterMap _⟩, ?_⟩
  have hsorted : d.Sorted ↔ (startsIn d.blocks).Pairwise (· ≤ ·) := by
    rw [← d.map_start_diverts, List.pairwise_map, Document.Sorted]
  have harms : (∀ v ∈ d.visits, v.block.ArmsFirst) ↔ ∀ b ∈ blocksIn d.blocks, b.ArmsFirst :=
    List.forall_mem_map.symm
  rw [hsorted, harms]
  exact ⟨armsFirst_of_sorted, hspread.sorted⟩

/-- A match whose arms come first. -/
theorem diverts_exact_arms_first :
    let f := File.ofBytes 0 "a.story" "# A\n@\x7bz\x7d\n\t- b\n\t\t-> c\n\t-> d\n"
    let d := (parse f).document
    f.size < Word.modulus ∧ (∃ places, Lists d.divertAt? places d.diverts) ∧ d.Sorted
      ∧ d.diverts.map (fun x => (x.1.path.map (·.name), x.2.map (·.title)))
        = [([("c" : Bytes)], some ("A" : Bytes)), ([("d" : Bytes)], some ("A" : Bytes))] := by
  intro f d
  have small : f.size < Word.modulus := by decide +kernel
  obtain ⟨hlists, hsorted⟩ := diverts_exact f {} 0 small
  exact ⟨small, hlists, hsorted.mpr (by decide +kernel), by decide +kernel⟩

/-- A divert between a match and its arms is listed behind the diverts of the arms. -/
theorem divert_behind_arms :
    ¬ (parse (File.ofBytes 0 "a.story"
      "@\x7bx\x7d\n\t-> a\n\t- one\n\t\t-> b\n")).document.Sorted := by
  decide +kernel

end Storyline.Markup
