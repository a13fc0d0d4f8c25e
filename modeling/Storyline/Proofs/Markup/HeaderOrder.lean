import Storyline.Proofs.Markup.Nesting

/-!
# Headers in the order of reading

`headersIn` lists the headers that are reached from some blocks through headers alone.  In a parsed
file the headers in this list start one behind the other, so that the place where it starts tells a
header apart from all others (`startsApart_parse`).  Headers below choices and matches are in no
such list, which is why only headers and sequences of blocks need a look here.
-/

namespace Storyline.Markup

variable {f : File} {s : ParserState}

/-! ## Headers reached through headers -/

mutual

/-- A header with the blocks below it, and the headers reached from there. -/
def headersOf : Block → List (Heading × List Block)
  | .header h children => (h, children) :: headersIn children
  | .paragraph _ | .code _ | .choices .. | .divert _ | .branch .. => []

/-- The headers reached from some blocks through headers alone, in the order of reading. -/
def headersIn : List Block → List (Heading × List Block)
  | [] => []
  | b :: bs => headersOf b ++ headersIn bs

end

/-- A header is among some blocks, or right below a header that is reached from them. -/
inductive Reached (bs : List Block) : Heading → List Block → Prop
  | top {h : Heading} {children : List Block} (mem : .header h children ∈ bs) :
      Reached bs h children
  | sub {g h : Heading} {around children : List Block} (above : Reached bs g around)
      (mem : .header h children ∈ around) : Reached bs h children

theorem headersIn_append (bs cs : List Block) :
    headersIn (bs ++ cs) = headersIn bs ++ headersIn cs := by
  induction bs with
  | nil => rfl
  | cons b bs ih => simp [headersIn, ih]

theorem headersOf_eq_nil {b : Block} (h : b.kind ≠ .header) : headersOf b = [] := by
  cases b with
  | header => exact absurd rfl h
  | paragraph | code | choices | divert | branch => rfl

theorem headersIn_eq_nil {bs : List Block} (h : ∀ b ∈ bs, b.kind ≠ .header) :
    headersIn bs = [] := by
  induction bs with
  | nil => rfl
  | cons b bs ih =>
    obtain ⟨hb, hbs⟩ := List.forall_mem_cons.mp h
    rw [headersIn, headersOf_eq_nil hb, ih hbs, List.append_nil]

theorem Reached.mono {bs cs : List Block} {h : Heading} {children : List Block}
    (hr : Reached bs h children) (hsub : bs ⊆ cs) : Reached cs h children := by
  induction hr with
  | top mem => exact .top (hsub mem)
  | sub _ mem ih => exact .sub ih mem

/-- What is reached from the blocks below a header is reached from the header. -/
theorem Reached.under {bs children below : List Block} {g h : Heading}
    (hr : Reached children h below) (mem : .header g children ∈ bs) : Reached bs h below := by
  induction hr with
  | top mem' => exact .sub (.top mem) mem'
  | sub _ mem' ih => exact .sub ih mem'

mutual

theorem reached_of_mem_headersOf {h : Heading} {below : List Block} : (b : Block) →
    (h, below) ∈ headersOf b → Reached [b] h below
  | .header g children, hmem => by
    rcases List.mem_cons.mp hmem with heq | hmem
    · obtain ⟨rfl, rfl⟩ := Prod.mk.inj heq
      exact .top (List.mem_singleton_self _)
    · exact (reached_of_mem_headersIn children hmem).under (List.mem_singleton_self _)
  | .paragraph _, hmem | .code _, hmem | .choices .., hmem | .divert _, hmem
  | .branch .., hmem => by cases hmem

theorem reached_of_mem_headersIn {h : Heading} {below : List Block} : (bs : List Block) →
    (h, below) ∈ headersIn bs → Reached bs h below
  | [], hmem => by cases hmem
  | b :: bs, hmem => by
    rcases List.mem_append.mp hmem with hmem | hmem
    · exact (reached_of_mem_headersOf b hmem).mono (by simp)
    · exact (reached_of_mem_headersIn bs hmem).mono (by simp)

end

theorem headersOf_subset {b : Block} {bs : List Block} (hb : b ∈ bs) :
    headersOf b ⊆ headersIn bs := by
  obtain ⟨before, after, rfl⟩ := List.append_of_mem hb
  rw [headersIn_append, headersIn]
  exact fun x hx => List.mem_append_right _ (List.mem_append_left _ hx)

/-- The list holds the headers that are reached, and no others. -/
theorem mem_headersIn {bs : List Block} {h : Heading} {children : List Block} :
    (h, children) ∈ headersIn bs ↔ Reached bs h children := by
  refine ⟨reached_of_mem_headersIn bs, fun hr => ?_⟩
  have hall : (h, children) ∈ headersIn bs ∧ headersIn children ⊆ headersIn bs := by
    induction hr with
    | top mem =>
      have hsub := headersOf_subset mem
      exact ⟨hsub List.mem_cons_self, fun x hx => hsub (List.mem_cons_of_mem _ hx)⟩
    | sub _ mem ih =>
      have hsub := headersOf_subset mem
      exact ⟨ih.2 (hsub List.mem_cons_self), fun x hx => ih.2 (hsub (List.mem_cons_of_mem _ hx))⟩
  exact hall.1

/-! ## Where headers start -/

/-- The headers reached from some blocks start one behind the other, from `lo` on and before
`hi`. -/
structure Between (lo hi : Nat) (bs : List Block) : Prop where
  increasing : ((headersIn bs).map (·.1.span.start)).Pairwise (· < ·)
  bounds : ∀ n ∈ (headersIn bs).map (·.1.span.start), lo ≤ n ∧ n < hi

theorem Between.of_nil {lo hi : Nat} {bs : List Block} (h : headersIn bs = []) :
    Between lo hi bs := by
  constructor
  · rw [h]
    exact .nil
  · rw [h]
    exact List.forall_mem_nil _

theorem Between.widen {lo hi lo' hi' : Nat} {bs : List Block} (h : Between lo hi bs)
    (hlo : lo' ≤ lo) (hhi : hi ≤ hi') : Between lo' hi' bs := by
  refine ⟨h.increasing, fun n hn => ?_⟩
  obtain ⟨hle, hlt⟩ := h.bounds n hn
  exact ⟨Nat.le_trans hlo hle, Nat.lt_of_lt_of_le hlt hhi⟩

theorem Between.append {lo mid hi : Nat} {bs cs : List Block} (hb : Between lo mid bs)
    (hc : Between mid hi cs) (hlo : lo ≤ mid) (hhi : mid ≤ hi) : Between lo hi (bs ++ cs) := by
  constructor
  · rw [headersIn_append, List.map_append, List.pairwise_append]
    refine ⟨hb.increasing, hc.increasing, fun m hm n hn => ?_⟩
    exact Nat.lt_of_lt_of_le (hb.bounds m hm).2 (hc.bounds n hn).1
  · rw [headersIn_append, List.map_append]
    intro n hn
    rcases List.mem_append.mp hn with hn | hn
    · exact (hb.widen (Nat.le_refl _) hhi).bounds n hn
    · exact (hc.widen hlo (Nat.le_refl _)).bounds n hn

/-- A header stands before the headers below it. -/
theorem Between.header {start lo hi : Nat} {h : Heading} {children : List Block}
    (hc : Between lo hi children) (hstart : h.span.start = start) (hlt : start < lo)
    (hlo : lo ≤ hi) : Between start hi [.header h children] := by
  subst hstart
  have heq : headersIn [.header h children] = (h, children) :: headersIn children := by
    simp [headersIn, headersOf]
  constructor
  · rw [heq, List.map_cons, List.pairwise_cons]
    exact ⟨fun n hn => Nat.lt_of_lt_of_le hlt (hc.bounds n hn).1, hc.increasing⟩
  · rw [heq, List.map_cons, List.forall_mem_cons]
    refine ⟨⟨Nat.le_refl _, Nat.lt_of_lt_of_le hlt hlo⟩, fun n hn => ?_⟩
    obtain ⟨hle, hbefore⟩ := hc.bounds n hn
    exact ⟨Nat.le_trans (Nat.le_of_lt hlt) hle, hbefore⟩

/-- Attributes do not move headers. -/
theorem Between.attach {lo hi : Nat} {bs : List Block} (h : Between lo hi bs)
    (as : List Attribute) : Between lo hi (Parse.attach as bs) := by
  have heq : (headersIn (Parse.attach as bs)).map (·.1.span.start)
      = (headersIn bs).map (·.1.span.start) := by
    cases bs with
    | nil => rfl
    | cons b bs => cases b <;> rfl
  exact ⟨heq ▸ h.increasing, heq ▸ h.bounds⟩

namespace Parse

/-- A parser that reads headers between the place where it starts and the one where it ends. -/
def Places (f : File) (body : BodyParser) : Prop :=
  ∀ depth stop s, Stands f s → Ends (body depth stop) s fun r s' =>
    Between s.lexer.cursor.offset s'.lexer.cursor.offset r.1

variable {body : BodyParser}

theorem places_header (h : Stands f s) (depth : Nat) (hat : s.lexer.cursor.peek = '#')
    (hstand : ∀ depth stop s, Stands f s → Ends (body depth stop) s (ReadBlocks f s))
    (hbody : Places f body) :
    Ends (header body depth) s fun r s' =>
      Between s.lexer.cursor.offset s'.lexer.cursor.offset [r.1] := by
  have hfit := Cursor.runLength_bound h.cursor (· = '#')
  have hskip := h.ahead (d := s.log) (l := { s.lexer with cursor := s.lexer.cursor.skip _ })
    (Cursor.skip_ahead h.cursor hfit)
  have hoffset := Cursor.skip_offset h.cursor hfit
  have hpos := Cursor.runLength_marks hat
  simp only [header, ends_bind, ends_cursor, ends_mapCursor, ends_offset]
  refine (ends_eat hskip.stands ' ').imp fun _ s₁ h₁ => ?_
  refine (ends_restOfLine h₁.stands).imp fun t s₂ h₂ => ?_
  refine (ends_eatLineEnding h₂.stands).imp fun _ s₃ h₃ => ?_
  refine ((hstand depth _ s₃ h₃.stands).and (hbody depth _ s₃ h₃.stands)).imp fun r s₄ h₄ => ?_
  have hforward := (h₁.trans h₂).trans h₃
  rw [ends_pure]
  refine h₄.2.header rfl (Nat.lt_of_lt_of_le ?_ hforward.forward) h₄.1.1.forward
  rw [hoffset]
  exact Nat.lt_add_of_pos_right hpos

theorem places_openedBlock (h : Stands f s) (depth : Nat)
    (hstand : ∀ depth stop s, Stands f s → Ends (body depth stop) s (ReadBlocks f s))
    (hbody : Places f body) :
    Ends (openedBlock body depth) s fun r s' =>
      Between s.lexer.cursor.offset s'.lexer.cursor.offset r.1 := by
  by_cases ho : BlockOpening.ofCursor s.lexer.cursor = .header
  · rw [openedBlock, ends_bind, ends_cursor, ho, ends_bind]
    exact (places_header h depth (BlockOpening.peek_of_header ho) hstand hbody).imp fun _ _ hr => hr
  · exact (openedBlock_other depth ho).imp fun r _ hr => .of_nil (headersIn_eq_nil hr)

theorem places_block (h : Stands f s) (depth : Nat)
    (hstand : ∀ depth stop s, Stands f s → Ends (body depth stop) s (ReadBlocks f s))
    (hbody : Places f body) :
    Ends (block body depth) s fun r s' =>
      Between s.lexer.cursor.offset s'.lexer.cursor.offset r.1 := by
  simp only [block, ends_bind, ends_cursor, ends_lexer]
  refine (ends_attributeLines _ depth h).imp fun r s₁ h₁ => ?_
  split
  · split
    · exact .of_nil rfl
    · exact .of_nil rfl
  · have hindent := h₁.1.trans (h₁.1.stands.ahead (d := s₁.log)
      (Lexer.skipIndent_ahead h₁.1.stands.cursor))
    simp only [ends_bind, ends_mapLexer]
    refine (places_openedBlock hindent.stands depth hstand hbody).imp fun bs s₂ h₂ => ?_
    exact (h₂.attach _).widen hindent.forward (Nat.le_refl _)

theorem places_sequence (fuel : Nat) : Places f (sequence fuel) := by
  induction fuel with
  | zero => exact fun _ _ _ _ => .of_nil rfl
  | succ fuel ih =>
    intro depth stop s h
    have hstand (depth stop : Nat) (s : ParserState) (hs : Stands f s) :=
      ends_sequence fuel depth stop hs
    have hskip := h.ahead (d := s.log) (Lexer.skipBlankLines_ahead h.cursor)
    simp only [sequence, ends_bind, ends_mapLexer, ends_lexer]
    split
    · exact .of_nil rfl
    · simp only [ends_bind, ends_offset]
      refine ((ends_block hskip.stands depth hstand).and
        (places_block hskip.stands depth hstand ih)).imp fun r s₁ h₁ => ?_
      have hrest (s₂ : ParserState) (h₂ : Reaches f s₁ s₂) : Ends (sequence fuel depth stop) s₂
          fun r' s' => Between s.lexer.cursor.offset s'.lexer.cursor.offset (r.1 ++ r'.1) := by
        refine ((hstand depth stop s₂ h₂.stands).and (ih depth stop s₂ h₂.stands)).imp
          fun r' s₃ h₃ => ?_
        have hto := (hskip.trans h₁.1.1).trans h₂
        exact (h₁.2.widen hskip.forward h₂.forward).append h₃.2 hto.forward h₃.1.1.forward
      split
      · rw [ends_bind]
        exact (ends_finishLine h₁.1.1.stands).imp fun _ s₂ h₂ => hrest s₂ h₂
      · exact hrest s₁ (.refl h₁.1.1.stands)

end Parse

/-! ## Documents -/

/-- No two headers that are reached through headers start at the same place. -/
def Document.StartsApart (d : Document) : Prop :=
  ((headersIn d.blocks).map (·.1.span.start)).Nodup

theorem startsApart_parse (layout : Layout) (maxErrors : Nat) (small : f.size < Word.modulus) :
    (parse f layout maxErrors).document.StartsApart := by
  have hplaces := Parse.places_sequence ((Lexer.ofFile f layout).cursor.limit + 1) 0 0 _
    (Stands.ofFile layout small)
  exact hplaces.increasing.imp Nat.ne_of_lt

end Storyline.Markup
