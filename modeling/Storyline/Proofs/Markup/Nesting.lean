import Storyline.Proofs.Markup.Progress

/-!
# Headers below headers

A header right below another one is deeper than it, unless attribute lines stand between the two.
The blocks below a header end in front of a line that starts with at most as many marks; but in
front of an attribute line nobody looks at the line behind it, so that a header with attributes is
put below whatever the attributes are below of, however few marks it has.

`Deeper` is what a sequence knows of the headers it reads, and `AllNested` what holds of everything
below.  As in `ends_block`, single blocks are judged for any parser of the blocks below them.
-/

namespace Storyline.Markup

variable {f : File} {s : ParserState}

/-! ## Blocks whose headers are nested -/

/-- The headers without attributes among some blocks have more than `stop` marks. -/
def Deeper (stop : Nat) (bs : List Block) : Prop :=
  ∀ h children, .header h children ∈ bs → h.attrs = [] → stop < h.depth

/-- The headers without attributes right below a header, and below every header further down, are
deeper than it. -/
inductive Block.Nested : Block → Prop
  | intro {b : Block} (here : ∀ h children, b = .header h children → Deeper h.depth children)
      (children : ∀ c ∈ b.children, Nested c) : Nested b

/-- Blocks whose headers are nested. -/
def AllNested (bs : List Block) : Prop := ∀ b ∈ bs, b.Nested

theorem Deeper.nil {stop : Nat} : Deeper stop [] := by
  intro h children hmem
  cases hmem

theorem Deeper.append {stop : Nat} {bs cs : List Block} (hb : Deeper stop bs)
    (hc : Deeper stop cs) : Deeper stop (bs ++ cs) := by
  intro h children hmem
  exact (List.mem_append.mp hmem).elim (hb h children) (hc h children)

theorem AllNested.append {bs cs : List Block} (hb : AllNested bs) (hc : AllNested cs) :
    AllNested (bs ++ cs) := by
  intro b h
  exact (List.mem_append.mp h).elim (hb b) (hc b)

/-- A block that is no header is nested if everything below it is. -/
theorem Block.Nested.of_kind {b : Block} (hkind : b.kind ≠ .header) (below : AllNested b.children) :
    b.Nested := by
  refine .intro (fun h children hb => ?_) below
  rw [hb] at hkind
  exact absurd rfl hkind

theorem Block.Nested.children {b : Block} : b.Nested → AllNested b.children
  | .intro _ children => children

/-- At every header that is visited the headers right below are deeper. -/
theorem Block.Nested.visit {b : Block} (hb : b.Nested) : ∀ owner, ∀ v ∈ visitBlock owner b,
    ∀ h children, v.block = .header h children → Deeper h.depth children := by
  induction hb with
  | intro here _ ih =>
    intro owner v hv
    rw [visitBlock_eq, List.mem_cons] at hv
    rcases hv with rfl | hv
    · exact here
    · obtain ⟨c, hc, hv⟩ := mem_visitBlocks.mp hv
      exact ih c hc _ v hv

theorem Block.Nested.withAttrs {b : Block} (hb : b.Nested) (as : List Attribute) :
    (b.withAttrs as).Nested := by
  cases b with
  | header h children =>
    obtain ⟨here, below⟩ := hb
    refine .intro (fun h' children' heq => ?_) below
    cases heq
    exact here h children rfl
  | paragraph | code | choices | divert | branch => 
    exact .of_kind (by simp [Block.withAttrs, Block.kind]) hb.children

theorem AllNested.attach {bs : List Block} (h : AllNested bs) (as : List Attribute) :
    AllNested (Parse.attach as bs) := by
  cases bs with
  | nil => exact h
  | cons b bs =>
    obtain ⟨hb, hbs⟩ := List.forall_mem_cons.mp h
    exact List.forall_mem_cons.mpr ⟨hb.withAttrs as, hbs⟩

theorem allNested_diverts (ds : List Divert) : AllNested (ds.map .divert) := by
  intro b hb
  obtain ⟨d, -, rfl⟩ := List.mem_map.mp hb
  exact .of_kind (by simp [Block.kind]) (List.forall_mem_nil _)

theorem allNested_choices {cs : List Choice} (h : ∀ c ∈ cs, AllNested c.children) :
    AllNested (cs.flatMap Choice.children) := by
  intro b hb
  obtain ⟨c, hc, hb⟩ := List.mem_flatMap.mp hb
  exact h c hc b hb

/-- What is below the arms of a match was below the choices that were read. -/
theorem allNested_arms {bs : List Block} (h : AllNested bs) :
    AllNested ((bs.flatMap fun | .choices cs .. => cs | _ => []).flatMap Choice.children) := by
  refine allNested_choices fun c hc b hb => ?_
  obtain ⟨d, hd, hc⟩ := List.mem_flatMap.mp hc
  cases d with
  | choices cs as span => exact (h _ hd).children b (List.mem_flatMap.mpr ⟨c, hc, hb⟩)
  | header | branch | paragraph | code | divert => cases hc

namespace Parse

variable {body : BodyParser}

/-! ## Which blocks are headers -/

theorem kind_header (depth : Nat) : Ends (header body depth) s fun r _ => r.1.kind = .header := by
  simp only [header, ends_bind]
  exact rfl

theorem kind_codeBlock : Ends codeBlock s fun r _ => r.1.kind = .code := by
  simp only [codeBlock, ends_bind, ends_cursor, ends_mapCursor]
  refine ends_any.imp fun t s₁ _ => ?_
  refine ends_any.imp fun _ s₂ _ => ?_
  split
  · exact rfl
  · exact rfl

theorem kind_branch (depth : Nat) : Ends (branch body depth) s fun r _ => r.1.kind = .branch := by
  simp only [branch, ends_bind]
  exact rfl

theorem kind_choices (depth : Nat) :
    Ends (choices body depth) s fun r _ => r.1.kind = .choices := by
  simp only [choices, ends_bind]
  exact rfl

theorem kind_paragraph : Ends paragraph s fun r _ => ∀ b ∈ r.1, b.kind ≠ .header := by
  simp only [paragraph, ends_bind, ends_cursor, ends_offset]
  refine ends_any.imp fun r s₁ _ => ?_
  refine ends_any.imp fun _ s₂ _ b hb => ?_
  rcases List.mem_append.mp hb with hb | hb
  · split at hb
    · cases hb
    · rw [List.mem_singleton.mp hb]
      simp [Block.kind]
  · obtain ⟨d, -, rfl⟩ := List.mem_map.mp hb
    simp [Block.kind]

/-- Where no header opens none is read. -/
theorem openedBlock_other (depth : Nat) (ho : BlockOpening.ofCursor s.lexer.cursor ≠ .header) :
    Ends (openedBlock body depth) s fun r _ => ∀ b ∈ r.1, b.kind ≠ .header := by
  have single {kind : BlockKind} (hkind : kind ≠ .header) {m : Parse (Block × Outcome)}
      (hm : Ends m s fun r _ => r.1.kind = kind) :
      Ends m s fun r _ => ∀ b ∈ [r.1], b.kind ≠ .header :=
    hm.imp fun r _ hr => List.forall_mem_singleton.mpr (hr ▸ hkind)
  rw [openedBlock, ends_bind, ends_cursor]
  generalize BlockOpening.ofCursor s.lexer.cursor = o at ho ⊢
  cases o with
  | header => exact absurd rfl ho
  | code =>
    rw [ends_bind]
    exact single (by decide : BlockKind.code ≠ .header) kind_codeBlock
  | branch =>
    rw [ends_bind]
    exact single (by decide : BlockKind.branch ≠ .header) (kind_branch depth)
  | choices =>
    rw [ends_bind]
    exact single (by decide : BlockKind.choices ≠ .header) (kind_choices depth)
  | paragraph => exact kind_paragraph

theorem depth_header (depth : Nat) :
    Ends (header body depth) s fun r _ => ∀ g children, r.1 = .header g children →
      g.depth = s.lexer.cursor.runLength (· = '#') := by
  simp only [header, ends_bind, ends_cursor]
  intro g children heq
  obtain ⟨rfl, -⟩ := Block.header.inj heq
  rfl

/-- A header is the only block that is read where it opens, and as deep as the run of marks there
is long. -/
theorem openedBlock_header (depth : Nat) {g : Heading} {children : List Block} :
    Ends (openedBlock body depth) s fun r _ => .header g children ∈ r.1 →
      r.1 = [.header g children] ∧ g.depth = s.lexer.cursor.runLength (· = '#') ∧ 0 < g.depth := by
  by_cases ho : BlockOpening.ofCursor s.lexer.cursor = .header
  · rw [openedBlock, ends_bind, ends_cursor, ho, ends_bind]
    refine (depth_header depth).imp fun r s₁ hdepth hg => ?_
    have hb : .header g children = r.1 := List.mem_singleton.mp hg
    have hmarks := hdepth g children hb.symm
    refine ⟨congrArg (fun b => [b]) hb.symm, hmarks, ?_⟩
    rw [hmarks]
    exact Cursor.runLength_marks (BlockOpening.peek_of_header ho)
  · exact (openedBlock_other depth ho).imp fun r _ hr hg => absurd rfl (hr _ hg)

/-! ## Single blocks -/

/-- A parser of nested blocks that reads no header of few marks without attributes. -/
def Nests (f : File) (body : BodyParser) : Prop :=
  ∀ depth stop s, Stands f s →
    Ends (body depth stop) s fun r _ => AllNested r.1 ∧ Deeper stop r.1

theorem nests_header (h : Stands f s) (depth : Nat) (hbody : Nests f body) :
    Ends (header body depth) s fun r _ => r.1.Nested := by
  have hskip := h.ahead (d := s.log) (l := { s.lexer with cursor := s.lexer.cursor.skip _ })
    (Cursor.skip_ahead h.cursor (Cursor.runLength_bound h.cursor (· = '#')))
  simp only [header, ends_bind, ends_cursor, ends_mapCursor, ends_offset]
  refine (ends_eat hskip.stands ' ').imp fun _ s₁ h₁ => ?_
  refine (ends_restOfLine h₁.stands).imp fun t s₂ h₂ => ?_
  refine (ends_eatLineEnding h₂.stands).imp fun _ s₃ h₃ => ?_
  refine (hbody depth _ s₃ h₃.stands).imp fun r s₄ h₄ => ?_
  refine .intro (fun g children heq => ?_) h₄.1
  cases heq
  exact h₄.2

theorem nests_branch (h : Stands f s) (depth : Nat) (hp : s.lexer.cursor.hasPrefix [0x40, 0x7B])
    (hbody : Nests f body) : Ends (branch body depth) s fun r _ => r.1.Nested := by
  simp only [branch, ends_bind, ends_cursor, ends_offset]
  refine (ends_matchCondition h hp).imp fun condition s₁ h₁ => ?_
  refine (ends_restOfLine h₁.1.stands).imp fun t s₂ h₂ => ?_
  refine (ends_matchMode h₂.stands _ _).imp fun _ s₃ h₃ => ?_
  refine (ends_eatLineEnding h₃.stands).imp fun _ s₄ h₄ => ?_
  refine (hbody (depth + 1) 0 s₄ h₄.stands).imp fun r s₅ h₅ => ?_
  refine .of_kind (by simp [Block.kind]) ((allNested_arms h₅.1).append fun b hb => ?_)
  exact h₅.1 b (List.mem_of_mem_filter hb)

theorem nests_paragraph : Ends paragraph s fun r _ => AllNested r.1 := by
  simp only [paragraph, ends_bind, ends_cursor, ends_offset]
  refine ends_any.imp fun r s₁ _ => ?_
  refine ends_any.imp fun _ s₂ _ => ?_
  refine AllNested.append ?_ (allNested_diverts _)
  split
  · exact List.forall_mem_nil _
  · exact List.forall_mem_singleton.mpr
      (.of_kind (by simp [Block.kind]) (List.forall_mem_nil _))

/-! ## Choices -/

theorem nests_choice (h : Stands f s) (depth : Nat) (hbody : Nests f body) :
    Ends (choice body depth) s fun r _ => AllNested r.1.children := by
  have hdash := h.ahead (d := s.log) (l := { s.lexer with cursor := s.lexer.cursor.next })
    (Cursor.next_ahead h.cursor)
  simp only [choice, ends_bind, ends_cursor, ends_mapCursor, ends_offset]
  refine (ends_skipSpaces hdash.stands).imp fun _ s₁ h₁ => ?_
  refine (ends_choiceHead _ h₁.stands ChoiceHead.known_empty).imp fun head s₂ h₂ => ?_
  refine (ends_lineText h₂.1.stands).imp fun r s₃ h₃ => ?_
  refine (ends_finishLine h₃.1.stands).imp fun _ s₄ h₄ => ?_
  have hbelow (s₅ : ParserState) (h₅ : Stands f s₅) :
      Ends (body (depth + 1) 0) s₅ fun b _ => AllNested (r.2.1.map .divert ++ b.1) :=
    (hbody (depth + 1) 0 s₅ h₅).imp fun b _ hb => (allNested_diverts _).append hb.1
  split
  · exact hbelow _ (h₄.stands.ahead (.refl h₄.stands.cursor)).stands
  · exact hbelow _ h₄.stands

theorem nests_choiceList (fuel depth : Nat) (h : Stands f s)
    (hstand : ∀ depth stop s, Stands f s → Ends (body depth stop) s (ReadBlocks f s))
    (hbody : Nests f body) :
    Ends (choiceList body fuel depth) s fun r _ => ∀ c ∈ r.1, AllNested c.children := by
  induction fuel generalizing s with
  | zero => exact List.forall_mem_nil _
  | succ fuel ih =>
    simp only [choiceList, ends_bind]
    refine ((ends_choice h depth hstand).and (nests_choice h depth hbody)).imp fun r s₁ h₁ => ?_
    refine (ends_nextChoice h₁.1.1.stands depth).imp fun more s₂ h₂ => ?_
    split
    · rw [ends_bind]
      exact (ih h₂.stands).imp fun r' s₃ h₃ => List.forall_mem_cons.mpr ⟨h₁.2, h₃⟩
    · exact List.forall_mem_singleton.mpr h₁.2

/-! ## Sequences -/

theorem nests_openedBlock (h : Stands f s) (depth : Nat)
    (hstand : ∀ depth stop s, Stands f s → Ends (body depth stop) s (ReadBlocks f s))
    (hbody : Nests f body) :
    Ends (openedBlock body depth) s fun r _ => AllNested r.1 := by
  have single {m : Parse (Block × Outcome)} (hm : Ends m s fun r _ => r.1.Nested) :
      Ends m s fun r _ => AllNested [r.1] :=
    hm.imp fun r _ hr => List.forall_mem_singleton.mpr hr
  have hfits := BlockOpening.ofCursor_fits s.lexer.cursor
  rw [openedBlock, ends_bind, ends_cursor]
  generalize BlockOpening.ofCursor s.lexer.cursor = o at hfits ⊢
  cases o with
  | header =>
    rw [ends_bind]
    exact single (nests_header h depth hbody)
  | code =>
    rw [ends_bind]
    refine single (kind_codeBlock.imp fun r _ hr => ?_)
    cases hb : r.1 with
    | code => exact .of_kind (by simp [Block.kind]) (List.forall_mem_nil _)
    | header | choices | branch | paragraph | divert => simp [hb, Block.kind] at hr
  | branch =>
    rw [ends_bind]
    exact single (nests_branch h depth hfits hbody)
  | choices =>
    rw [ends_bind]
    simp only [choices, ends_bind, ends_cursor]
    refine (nests_choiceList _ depth h hstand hbody).imp fun r s₁ h₁ => ?_
    exact List.forall_mem_singleton.mpr
      (.of_kind (by simp [Block.kind]) (allNested_choices h₁))
  | paragraph => exact nests_paragraph

/-- A header among blocks that were given attributes has them if there is no block beside it. -/
theorem header_of_attach {as : List Attribute} {bs : List Block} {g : Heading}
    {children : List Block} (hg : .header g children ∈ attach as bs)
    (alone : ∀ g children, .header g children ∈ bs → bs = [.header g children]) :
    ∃ g', .header g' children ∈ bs ∧ g = { g' with attrs := as } := by
  cases bs with
  | nil => cases hg
  | cons b bs =>
    rcases List.mem_cons.mp hg with heq | hg
    · cases b with
      | header g' children' =>
        simp only [Block.withAttrs, Block.header.injEq] at heq
        obtain ⟨rfl, rfl⟩ := heq
        exact ⟨g', List.mem_cons_self, rfl⟩
      | paragraph | code | choices | divert | branch => cases heq
    · obtain ⟨-, rfl⟩ := List.cons.inj (alone g children (List.mem_cons_of_mem _ hg))
      cases hg

/-- Where no attribute line is read only blank lines are skipped. -/
theorem ends_attributeLines_nil (fuel depth : Nat) (h : Stands f s) :
    Ends (attributeLines (fuel + 1) depth) s fun r s' =>
      r.1 = [] → s' = { s with lexer := s.lexer.skipBlankLines } := by
  have hskip := h.ahead (d := s.log) (Lexer.skipBlankLines_ahead h.cursor)
  simp only [attributeLines, ends_bind, ends_mapLexer, ends_lexer]
  split
  · exact fun _ => rfl
  · rw [ends_bind]
    refine (attempts_attributeLine hskip.stands).imp fun r s₁ h₁ => ?_
    cases r with
    | none => exact fun _ => h₁
    | some found =>
      simp only [ends_bind]
      exact ends_any.imp fun r' _ _ hnil => absurd hnil (List.cons_ne_nil _ _)

/-- In front of a line with no marks, or with more than `stop`, the block that is read is no header
of at most `stop` marks without attributes. -/
theorem nests_block (h : Stands f s) (depth stop : Nat)
    (hblank : s.lexer.skipBlankLines = s.lexer)
    (hstop : ¬ (0 < s.lexer.headerDepth ∧ s.lexer.headerDepth ≤ stop))
    (hstand : ∀ depth stop s, Stands f s → Ends (body depth stop) s (ReadBlocks f s))
    (hbody : Nests f body) :
    Ends (block body depth) s fun r _ => AllNested r.1 ∧ Deeper stop r.1 := by
  simp only [block, ends_bind, ends_cursor, ends_lexer]
  refine ((ends_attributeLines _ depth h).and (ends_attributeLines_nil _ depth h)).imp
    fun r s₁ h₁ => ?_
  have hempty : AllNested [] ∧ Deeper stop [] := ⟨List.forall_mem_nil _, .nil⟩
  split
  · split
    · exact hempty
    · exact hempty
  · have hindent := h₁.1.1.stands.ahead (d := s₁.log)
      (Lexer.skipIndent_ahead h₁.1.1.stands.cursor)
    simp only [ends_bind, ends_mapLexer]
    refine ⟨(nests_openedBlock hindent.stands depth hstand hbody).attach _, ?_⟩
    intro g children hg hbare
    obtain ⟨g', hmem, rfl⟩ := header_of_attach hg fun g children hg =>
      (openedBlock_header depth hg).1
    obtain ⟨-, hdepth, hpos⟩ := openedBlock_header depth hmem
    -- without attributes the marks were counted at the place where the header is read
    have hmarks : g'.depth = s.lexer.headerDepth := by
      rw [hdepth, h₁.2 hbare, hblank]
      rfl
    show stop < g'.depth
    omega

theorem nests_sequence (fuel : Nat) : Nests f (sequence fuel) := by
  induction fuel with
  | zero => exact fun _ _ _ _ => ⟨List.forall_mem_nil _, .nil⟩
  | succ fuel ih =>
    intro depth stop s h
    have hstand (depth stop : Nat) (s : ParserState) (hs : Stands f s) :=
      ends_sequence fuel depth stop hs
    have hskip := h.ahead (d := s.log) (Lexer.skipBlankLines_ahead h.cursor)
    simp only [sequence, ends_bind, ends_mapLexer, ends_lexer]
    split
    · exact ⟨List.forall_mem_nil _, .nil⟩
    · next hgo =>
      simp only [Bool.or_eq_true, Bool.and_eq_true, decide_eq_true_eq, not_or] at hgo
      simp only [ends_bind, ends_offset]
      refine ((ends_block hskip.stands depth hstand).and (nests_block hskip.stands depth stop
        (Lexer.skipBlankLines_idem h.cursor) hgo.2 hstand ih)).imp fun r s₁ h₁ => ?_
      have hrest (s₂ : ParserState) (h₂ : Stands f s₂) : Ends (sequence fuel depth stop) s₂
          fun r' _ => AllNested (r.1 ++ r'.1) ∧ Deeper stop (r.1 ++ r'.1) :=
        (ih depth stop s₂ h₂).imp fun r' _ hr => ⟨h₁.2.1.append hr.1, h₁.2.2.append hr.2⟩
      split
      · rw [ends_bind]
        exact (ends_finishLine h₁.1.1.stands).imp fun _ s₂ h₂ => hrest s₂ h₂.stands
      · exact hrest s₁ h₁.1.1.stands

end Parse

/-! ## Documents -/

/-- The headers of a document, each with every header right below it. -/
def Document.nestings (d : Document) : List (Heading × Heading) :=
  d.visits.flatMap fun v =>
    match v.block with
    | .header h children => (children.filterMap Block.heading?).map (h, ·)
    | _ => []

theorem Document.mem_nestings {d : Document} {h h' : Heading} :
    (h, h') ∈ d.nestings ↔ ∃ v ∈ d.visits, ∃ children below,
      v.block = .header h children ∧ .header h' below ∈ children := by
  rw [nestings, List.mem_flatMap]
  refine exists_congr fun v => and_congr_right fun _ => ?_
  split
  · next g children hv =>
    simp only [List.mem_map, List.mem_filterMap, Prod.mk.injEq]
    constructor
    · rintro ⟨_, ⟨b, hb, hh⟩, rfl, rfl⟩
      cases b with
      | header g' below =>
        cases hh
        exact ⟨children, below, hv, hb⟩
      | paragraph | code | choices | divert | branch => cases hh
    · rintro ⟨_, below, heq, hb⟩
      obtain ⟨rfl, rfl⟩ := Block.header.inj (hv.symm.trans heq)
      exact ⟨h', ⟨_, hb, rfl⟩, rfl, rfl⟩
  · next hother =>
    simp only [List.not_mem_nil, false_iff]
    rintro ⟨children, below, hv, -⟩
    exact hother h children hv

/-- In every parsed file of fewer than 2^32 bytes a header without attributes is deeper than the
header right above it.  So every header is deeper than the one right above it if and only if those
with attributes are. -/
theorem deeper_of_bare (f : File) (layout : Layout) (maxErrors : Nat)
    (small : f.size < Word.modulus) :
    let d := (parse f layout maxErrors).document
    (∀ p ∈ d.nestings, p.2.attrs = [] → p.1.depth < p.2.depth) ∧
    ((∀ p ∈ d.nestings, p.1.depth < p.2.depth) ↔
      ∀ p ∈ d.nestings, p.2.attrs ≠ [] → p.1.depth < p.2.depth) := by
  intro d
  have start := Stands.ofFile (f := f) layout small
  have hnested : AllNested d.blocks :=
    (Parse.nests_sequence ((Lexer.ofFile f layout).cursor.limit + 1) 0 0 _ start).1
  have hbare : ∀ p ∈ d.nestings, p.2.attrs = [] → p.1.depth < p.2.depth := by
    intro p hp
    obtain ⟨v, hv, children, below, hblock, hmem⟩ := Document.mem_nestings.mp hp
    obtain ⟨b, hb, hv⟩ := mem_visitBlocks.mp hv
    exact (hnested b hb).visit _ v hv p.1 children hblock p.2 below hmem
  refine ⟨hbare, fun hall p hp _ => hall p hp, fun hattrs p hp => ?_⟩
  by_cases hnil : p.2.attrs = []
  · exact hbare p hp hnil
  · exact hattrs p hp hnil

theorem deeper_of_bare_section :
    let f := File.ofBytes 0 "a.story" "# A\n\n## B\n@x\n### C\n"
    f.size < Word.modulus ∧
      (parse f).document.nestings.map (fun p => (p.1.depth, p.2.depth, p.2.attrs.length))
        = [(1, 2, 0), (2, 3, 1)] ∧
      ∀ p ∈ (parse f).document.nestings, p.1.depth < p.2.depth :=
  ⟨by decide +kernel, by decide +kernel,
    (deeper_of_bare _ {} 0 (by decide +kernel)).2.mpr (by decide +kernel)⟩

/-- Behind an attribute line a header is put below one that is as deep as itself. -/
theorem attribute_hides_header :
    ¬ ∀ p ∈ (parse (File.ofBytes 0 "a.story" "# A\n@x\n# B\n")).document.nestings,
      p.1.depth < p.2.depth := by
  decide +kernel

end Storyline.Markup
