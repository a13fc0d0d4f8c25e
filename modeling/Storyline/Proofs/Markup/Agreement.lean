import Storyline.Proofs.Markup.Attributes
import Storyline.Markup.Parser
import Storyline.Markup.Spans

/-!
# Documents agree with their file

A parsed file of fewer than 2^32 bytes agrees with its document except in one case.  Every block,
attribute and path part lies inside the file, every script is the text under its span, and scripts
are listed in source order.  The exception is a choice whose condition `@if` or `@not` has no
parentheses and is the last thing in the file: its empty script is placed one byte behind the end,
unless the file is the largest there can be, where the place behind the end is the start.
`parse_violation_iff` says that a document disagrees with its file in this case only, and how.

The parsers of single blocks are judged for any parser of the blocks below them that meets the
statement; `Parse.sequence` ties the knot by induction on its fuel.
-/

namespace Storyline.Markup

variable {f : File} {s : ParserState}

/-! ## Blocks and what is below them -/

/-- The blocks right below a block. -/
def Block.children : Block → List Block
  | .header _ children => children
  | .choices cs _ _ => cs.flatMap Choice.children
  | .branch _ arms children => arms.flatMap Choice.children ++ children
  | .paragraph _ | .code _ | .divert _ => []

/-- The heading of a header. -/
def Block.heading? : Block → Option Heading
  | .header h _ => some h
  | .paragraph _ | .code _ | .choices .. | .divert _ | .branch .. => none

theorem visitBlocks_append (owner : Option Heading) (bs cs : List Block) :
    visitBlocks owner (bs ++ cs) = visitBlocks owner bs ++ visitBlocks owner cs := by
  induction bs with
  | nil => rfl
  | cons b bs ih => simp [visitBlocks, ih]

theorem visitChoices_eq (owner : Option Heading) (cs : List Choice) :
    visitChoices owner cs = visitBlocks owner (cs.flatMap Choice.children) := by
  induction cs with
  | nil => rfl
  | cons c cs ih =>
    cases c
    simp [visitChoices, visitChoice, Choice.children, visitBlocks_append, ih]

theorem Block.kind_withAttrs (b : Block) (as : List Attribute) : (b.withAttrs as).kind = b.kind := by
  cases b <;> rfl

theorem Block.attrs_withAttrs (b : Block) (as : List Attribute) : (b.withAttrs as).attrs = as := by
  cases b <;> rfl

theorem Block.children_withAttrs (b : Block) (as : List Attribute) :
    (b.withAttrs as).children = b.children := by
  cases b <;> rfl

/-- A visit starts with the block itself and goes on with the blocks below it; a header is the
innermost one around those right below it. -/
theorem visitBlock_eq (owner : Option Heading) (b : Block) :
    visitBlock owner b = ⟨b, owner⟩ :: visitBlocks (b.heading?.or owner) b.children := by
  cases b with
  | header h children => simp [visitBlock, Block.children, Block.heading?]
  | choices | branch =>
    simp [visitBlock, Block.children, Block.heading?, visitBlocks_append, visitChoices_eq]
  | paragraph | code | divert => simp [visitBlock, Block.children, visitBlocks]

theorem mem_visitBlocks {owner : Option Heading} {bs : List Block} {v : Visit} :
    v ∈ visitBlocks owner bs ↔ ∃ b ∈ bs, v ∈ visitBlock owner b := by
  induction bs with
  | nil => simp [visitBlocks]
  | cons b bs ih => simp [visitBlocks, ih]

/-- A block that agrees with a file, what is below it aside. -/
structure Block.Agrees (f : File) (b : Block) : Prop where
  span : b.span.In f
  attrs : ∀ a ∈ b.attrs, a.span.In f
  path : ∀ d, b = .divert d → ∀ p ∈ d.path, p.span.In f
  scripts : ∀ r ∈ b.ownScripts, r.Known f

/-- A block that agrees with a file together with everything below it. -/
inductive Block.AgreesDeep (f : File) : Block → Prop
  | intro {b : Block} (here : b.Agrees f) (children : ∀ c ∈ b.children, AgreesDeep f c) : AgreesDeep f b

/-- Blocks that agree with a file together with everything below them. -/
def AllAgree (f : File) (bs : List Block) : Prop := ∀ b ∈ bs, b.AgreesDeep f

theorem Block.AgreesDeep.here {b : Block} : b.AgreesDeep f → b.Agrees f
  | .intro here _ => here

theorem Block.AgreesDeep.children {b : Block} : b.AgreesDeep f → AllAgree f b.children
  | .intro _ children => children

/-- Every block that is visited agrees with the file. -/
theorem Block.AgreesDeep.visit {b : Block} (h : b.AgreesDeep f) :
    ∀ owner, ∀ v ∈ visitBlock owner b, v.block.Agrees f := by
  induction h with
  | intro here _ ih =>
    intro owner v hv
    rw [visitBlock_eq, List.mem_cons] at hv
    rcases hv with rfl | hv
    · exact here
    · obtain ⟨c, hc, hv⟩ := mem_visitBlocks.mp hv
      exact ih c hc _ v hv

theorem AllAgree.append {bs cs : List Block} (hb : AllAgree f bs) (hc : AllAgree f cs) :
    AllAgree f (bs ++ cs) := by
  intro b h
  exact (List.mem_append.mp h).elim (hb b) (hc b)

theorem AllAgree.singleton {b : Block} (h : b.AgreesDeep f) : AllAgree f [b] := by
  intro c hc
  rwa [List.mem_singleton.mp hc]

theorem allAgree_diverts {ds : List Divert} (h : ∀ d ∈ ds, d.In f) :
    AllAgree f (ds.map .divert) := by
  intro b hb
  obtain ⟨d, hd, rfl⟩ := List.mem_map.mp hb
  refine .intro ⟨(h d hd).span, ?_, ?_, List.forall_mem_nil _⟩ (List.forall_mem_nil _)
  · simp [Block.attrs, (h d hd).attrs]
  · rintro _ ⟨⟩
    exact (h d hd).path

/-- Attributes inside the file can be given to a block. -/
theorem Block.AgreesDeep.withAttrs {b : Block} (h : b.AgreesDeep f) {as : List Attribute}
    (has : ∀ a ∈ as, a.span.In f) : (b.withAttrs as).AgreesDeep f := by
  obtain ⟨⟨span, -, path, scripts⟩, below⟩ := h
  cases b with
  | divert d => exact ⟨⟨span, has, by rintro _ ⟨⟩; exact path d rfl, scripts⟩, below⟩
  | header | choices | branch | paragraph | code =>
    exact ⟨⟨span, has, nofun, scripts⟩, below⟩

theorem AllAgree.attach {bs : List Block} (h : AllAgree f bs) {as : List Attribute}
    (has : ∀ a ∈ as, a.span.In f) : AllAgree f (Parse.attach as bs) := by
  cases bs with
  | nil => exact h
  | cons b bs =>
    intro c hc
    rcases List.mem_cons.mp hc with rfl | hc
    · exact (h b (by simp)).withAttrs has
    · exact h c (by simp [hc])

/-- A construct reaches from the end of its line to a place inside the file. -/
theorem reach_within {lineEnd : Nat} (hl : lineEnd ≤ f.size) {bs : List Block}
    (h : AllAgree f bs) : lineEnd ≤ reach lineEnd bs ∧ reach lineEnd bs ≤ f.size := by
  rw [reach]
  split
  · next b hb =>
    have := (h b (List.mem_of_getLast? hb)).here.span.within
    omega
  · exact ⟨Nat.le_refl _, hl⟩

/-! ## Choices -/

/-- A choice with known scripts above blocks that agree. -/
structure Choice.Agrees (f : File) (c : Choice) : Prop where
  scripts : ∀ r ∈ c.line.scripts, r.Known f
  children : AllAgree f c.children

theorem known_of_choices {cs : List Choice} (h : ∀ c ∈ cs, c.Agrees f) :
    ∀ r ∈ cs.flatMap fun c => c.line.scripts, r.Known f := by
  intro r hr
  obtain ⟨c, hc, hr⟩ := List.mem_flatMap.mp hr
  exact (h c hc).scripts r hr

theorem allAgree_of_choices {cs : List Choice} (h : ∀ c ∈ cs, c.Agrees f) :
    AllAgree f (cs.flatMap Choice.children) := by
  intro b hb
  obtain ⟨c, hc, hb⟩ := List.mem_flatMap.mp hb
  exact (h c hc).children b hb

theorem Block.AgreesDeep.choices {cs : List Choice} {as : List Attribute} {span : Span}
    (h : (Block.choices cs as span).AgreesDeep f) : ∀ c ∈ cs, c.Agrees f := by
  intro c hc
  refine ⟨fun r hr => h.here.scripts r (List.mem_flatMap.mpr ⟨c, hc, hr⟩), fun b hb => ?_⟩
  exact h.children b (List.mem_flatMap.mpr ⟨c, hc, hb⟩)

/-- The arms of a branch are the choices below it. -/
theorem arms_agree {bs : List Block} (h : AllAgree f bs) :
    ∀ c ∈ bs.flatMap fun | .choices cs .. => cs | _ => [], c.Agrees f := by
  intro c hc
  obtain ⟨b, hb, hc⟩ := List.mem_flatMap.mp hc
  cases b with
  | choices cs as span => exact (h _ hb).choices c hc
  | header | branch | paragraph | code | divert => cases hc

/-- What is known of the text at the cursor where a block opens. -/
def BlockOpening.Fits (c : Cursor) : BlockOpening → Prop
  | .code => c.hasPrefix [0x60, 0x60, 0x60]
  | .branch => c.hasPrefix [0x40, 0x7B]
  | .header | .choices | .paragraph => True

theorem BlockOpening.ofCursor_fits (c : Cursor) : (BlockOpening.ofCursor c).Fits c := by
  rw [BlockOpening.ofCursor]
  split
  · trivial
  split
  · assumption
  split
  · assumption
  split
  · trivial
  · trivial

/-- The text of a line with a match goes on at least behind what opens the match. -/
theorem Lexer.textEnd_of_match {l : Lexer} (h : l.cursor.In f)
    (hp : l.cursor.hasPrefix [0x40, 0x7B]) : l.cursor.offset + 2 ≤ l.textEnd := by
  refine le_textEnd h (Cursor.hasPrefix_bound h hp) fun j hj => ?_
  simp only [Cursor.hasPrefix, Cursor.matchesAt, List.isEmpty_cons, Bool.false_or, Bool.and_true,
    Bool.and_eq_true, decide_eq_true_eq] at hp
  obtain rfl | rfl : j = 0 ∨ j = 1 := by omega
  · rw [Nat.add_zero, hp.1.2]
    rfl
  · rw [hp.2.2]
    rfl

namespace Parse

/-! ## Single blocks -/

/-- Blocks that agree with the file were read. -/
def ReadBlocks (f : File) (s : ParserState) (r : List Block × Outcome) (s' : ParserState) : Prop :=
  Reaches f s s' ∧ AllAgree f r.1

/-- A block that agrees with the file was read. -/
def ReadBlock (f : File) (s : ParserState) (r : Block × Outcome) (s' : ParserState) : Prop :=
  Reaches f s s' ∧ r.1.AgreesDeep f

variable {body : BodyParser}

theorem ends_header (h : Stands f s) (depth : Nat)
    (hbody : ∀ depth stop s, Stands f s → Ends (body depth stop) s (ReadBlocks f s)) :
    Ends (header body depth) s (ReadBlock f s) := by
  have hskip := h.ahead (d := s.log) (l := { s.lexer with cursor := s.lexer.cursor.skip _ })
    (Cursor.skip_ahead h.cursor (Cursor.runLength_bound h.cursor (· = '#')))
  simp only [header, ends_bind, ends_cursor, ends_mapCursor, ends_offset]
  refine (ends_eat hskip.stands ' ').imp fun _ s₁ h₁ => ?_
  refine (ends_restOfLine h₁.stands).imp fun t s₂ h₂ => ?_
  refine (ends_eatLineEnding h₂.stands).imp fun _ s₃ h₃ => ?_
  refine (hbody depth _ s₃ h₃.stands).imp fun r s₄ h₄ => ?_
  have hline := (hskip.trans h₁).trans h₂
  have hreach := reach_within hline.stands.cursor.within h₄.2
  refine ⟨(hline.trans h₃).trans h₄.1, .intro ⟨?_, List.forall_mem_nil _, by rintro _ ⟨⟩, ?_⟩ h₄.2⟩
  · exact Cursor.spanAt_in h.cursor (Nat.le_trans hline.forward hreach.1) hreach.2
  · exact List.forall_mem_nil _

theorem ends_codeBlock (h : Stands f s) (hp : s.lexer.cursor.hasPrefix [0x60, 0x60, 0x60]) :
    Ends codeBlock s (ReadBlock f s) := by
  have hskip := h.ahead (d := s.log) (l := { s.lexer with cursor := s.lexer.cursor.skip 3 })
    (Cursor.skip_ahead h.cursor (Cursor.hasPrefix_bound h.cursor hp))
  have hcode {code language : Bytes} {stop : Nat} (hle : s.lexer.cursor.offset ≤ stop)
      (hstop : stop ≤ f.size) : Block.AgreesDeep f
        (.code { language, code, span := s.lexer.cursor.spanAt s.lexer.cursor.offset stop }) :=
    .intro ⟨Cursor.spanAt_in h.cursor hle hstop, List.forall_mem_nil _, by rintro _ ⟨⟩,
      List.forall_mem_nil _⟩ (List.forall_mem_nil _)
  simp only [codeBlock, ends_bind, ends_cursor, ends_mapCursor]
  refine (ends_restOfLine hskip.stands).imp fun t s₁ h₁ => ?_
  refine (ends_eatLineEnding h₁.stands).imp fun _ s₂ h₂ => ?_
  have hinner := (hskip.trans h₁).trans h₂
  have hin := hinner.stands.cursor
  -- the closing fence was found, or the code goes on to the end of the file
  split
  · next code behind hc =>
    rw [Cursor.consumeUntil?, Option.map_eq_some_iff] at hc
    obtain ⟨i, hi, hc⟩ := hc
    obtain ⟨-, rfl⟩ := Prod.mk.inj hc
    obtain ⟨hle, hfit⟩ := Cursor.positionOf?_within hin hi
    have hforward := Nat.le_trans hinner.forward (Nat.le_trans hle (Nat.le_add_right i 3))
    simp only [ends_bind, ends_moveTo]
    have hm := hinner.stands.moveTo (d := s₂.log) (Nat.le_trans hle (Nat.le_add_right i 3)) hfit
    refine (ends_finishLine hm.stands).imp fun _ s₃ h₃ => ?_
    exact ⟨(hinner.trans hm).trans h₃, hcode hforward hfit⟩
  · have hrest := Cursor.rest_ahead hin s₂.lexer.cursor.limit
    simp only [ends_bind, ends_unclosed, ends_complain, ends_moveTo, ends_pure]
    refine ⟨hinner.trans (hinner.stands.moveTo hrest.forward hrest.here.within), ?_⟩
    exact hcode (Nat.le_trans hinner.forward hrest.forward) hrest.here.within

theorem ends_matchCondition (h : Stands f s) (hp : s.lexer.cursor.hasPrefix [0x40, 0x7B]) :
    Ends matchCondition s fun r s' =>
      Reaches f s s' ∧ ScriptRef.Exact f ⟨.match, r.1.name, r.1.span⟩ := by
  have hfit := Cursor.hasPrefix_bound h.cursor hp
  have hskip := Cursor.skip_ahead h.cursor hfit
  have hoffset := Cursor.skip_offset h.cursor hfit
  simp only [List.length_cons, List.length_nil, Nat.zero_add, Nat.reduceAdd] at hfit hskip hoffset
  simp only [matchCondition, ends_bind, ends_lexer]
  split
  · next close hc =>
    obtain ⟨hle, hclose⟩ := Cursor.closeOffset?_within hskip.here hc
    exact ⟨h.moveTo (by omega) hclose, exact_slice hskip.here _ hle (Nat.le_of_succ_le hclose)⟩
  · have hle := Lexer.textEnd_of_match h.cursor hp
    have hstop := (Lexer.textEnd_within h.cursor).2
    simp only [ends_bind, ends_unclosed, ends_complain, ends_moveTo, ends_pure]
    exact ⟨h.moveTo (by omega) hstop, exact_slice hskip.here _ (by omega) hstop⟩

theorem ends_matchMode (h : Stands f s) (modifier : Bytes) (span : Span) :
    Ends (matchMode modifier span) s fun _ s' => Reaches f s s' := by
  rw [matchMode]
  split
  · exact .refl h
  split
  · exact .refl h
  split
  · exact .refl h
  · exact h.ahead (.refl h.cursor)

theorem ends_branch (h : Stands f s) (depth : Nat) (hp : s.lexer.cursor.hasPrefix [0x40, 0x7B])
    (hbody : ∀ depth stop s, Stands f s → Ends (body depth stop) s (ReadBlocks f s)) :
    Ends (branch body depth) s (ReadBlock f s) := by
  simp only [branch, ends_bind, ends_cursor, ends_offset]
  refine (ends_matchCondition h hp).imp fun condition s₁ h₁ => ?_
  refine (ends_restOfLine h₁.1.stands).imp fun t s₂ h₂ => ?_
  refine (ends_matchMode h₂.stands _ _).imp fun _ s₃ h₃ => ?_
  refine (ends_eatLineEnding h₃.stands).imp fun _ s₄ h₄ => ?_
  refine (hbody (depth + 1) 0 s₄ h₄.stands).imp fun r s₅ h₅ => ?_
  have hline := (h₁.1.trans h₂).trans h₃
  have hreach := reach_within hline.stands.cursor.within h₅.2
  have harms := arms_agree h₅.2
  refine ⟨(hline.trans h₄).trans h₅.1, .intro ⟨?_, List.forall_mem_nil _, by rintro _ ⟨⟩, ?_⟩ ?_⟩
  · exact Cursor.spanAt_in h.cursor (Nat.le_trans hline.forward hreach.1) hreach.2
  · intro x hx
    rcases List.mem_cons.mp hx with rfl | hx
    · exact .inl h₁.2
    · exact known_of_choices harms x hx
  · refine (allAgree_of_choices harms).append fun b hb => ?_
    exact h₅.2 b (List.mem_of_mem_filter hb)

theorem ends_paragraph (h : Stands f s) : Ends paragraph s (ReadBlocks f s) := by
  simp only [paragraph, ends_bind, ends_cursor, ends_offset]
  refine (ends_lineText h).imp fun r s₁ h₁ => ?_
  refine (ends_finishLine h₁.1.stands).imp fun _ s₂ h₂ => ?_
  refine ⟨h₁.1.trans h₂, AllAgree.append ?_ (allAgree_diverts h₁.2.2)⟩
  split
  · exact List.forall_mem_nil _
  · refine .singleton (.intro ⟨?_, List.forall_mem_nil _, by rintro _ ⟨⟩, ?_⟩ (List.forall_mem_nil _))
    · exact Cursor.spanAt_in h.cursor h₁.1.forward h₁.1.stands.cursor.within
    · exact fun x hx => .inl (h₁.2.1 x hx)

/-! ## Choices -/

/-- A head whose condition has a known script. -/
def ChoiceHead.Known (f : File) (head : ChoiceHead) : Prop :=
  ∀ c ∈ head.condition, ScriptRef.Known f ⟨.condition, c.text, c.span⟩

theorem ChoiceHead.known_empty : ChoiceHead.Known f {} := nofun

theorem ends_choiceAttribute (h : Stands f s) {head : ChoiceHead} {a : Attribute} (ha : a.Placed f)
    (hh : head.Known f) :
    Ends (choiceAttribute head a) s fun r s' => Reaches f s s' ∧ r.Known f := by
  rw [choiceAttribute]
  split
  · next hc =>
    split
    · exact ⟨h.ahead (.refl h.cursor), hh⟩
    · refine ⟨.refl h, fun c hc' => ?_⟩
      cases hc'
      exact ha.script hc
  · exact ⟨.refl h, hh⟩

theorem ends_choiceHead (fuel : Nat) (h : Stands f s) {head : ChoiceHead} (hh : head.Known f) :
    Ends (choiceHead fuel head) s fun r s' => Reaches f s s' ∧ r.Known f := by
  induction fuel generalizing s head with
  | zero => exact ⟨.refl h, hh⟩
  | succ fuel ih =>
    simp only [choiceHead, ends_bind]
    refine (ends_takeAttribute h).imp fun r s₁ h₁ => ?_
    rcases r with _ | ⟨a, o⟩
    · cases h₁
      exact ⟨.refl h, hh⟩
    · have hh' : ChoiceHead.Known f { head with outcome := head.outcome.worse o } := hh
      simp only [ends_bind]
      refine (ends_choiceAttribute h₁.1.stands h₁.2 hh').imp fun head' s₂ h₂ => ?_
      refine (ends_skipSpaces h₂.1.stands).imp fun _ s₃ h₃ => ?_
      refine (ih h₃.stands h₂.2).imp fun r s₄ h₄ => ?_
      exact ⟨((h₁.1.trans h₂.1).trans h₃).trans h₄.1, h₄.2⟩

/-- A choice that agrees with the file was read, from here on. -/
def ReadChoice (f : File) (s : ParserState) (c : Choice) : Prop :=
  c.Agrees f ∧ c.span.In f ∧ s.lexer.cursor.offset ≤ c.span.start

theorem ends_choice (h : Stands f s) (depth : Nat)
    (hbody : ∀ depth stop s, Stands f s → Ends (body depth stop) s (ReadBlocks f s)) :
    Ends (choice body depth) s fun r s' => Reaches f s s' ∧ ReadChoice f s r.1 := by
  have hdash := h.ahead (d := s.log) (l := { s.lexer with cursor := s.lexer.cursor.next })
    (Cursor.next_ahead h.cursor)
  simp only [choice, ends_bind, ends_cursor, ends_mapCursor, ends_offset]
  refine (ends_skipSpaces hdash.stands).imp fun _ s₁ h₁ => ?_
  refine (ends_choiceHead _ h₁.stands ChoiceHead.known_empty).imp fun head s₂ h₂ => ?_
  refine (ends_lineText h₂.1.stands).imp fun r s₃ h₃ => ?_
  refine (ends_finishLine h₃.1.stands).imp fun _ s₄ h₄ => ?_
  have hline := ((hdash.trans h₁).trans h₂.1).trans h₃.1
  have hbelow (s₅ : ParserState) (h₅ : Reaches f s₄ s₅) :
      Ends (body (depth + 1) 0) s₅ fun b s' => Reaches f s s' ∧ ReadChoice f s (.mk
        { text := r.1, condition := head.condition, attrs := head.attrs.toList
          span := s.lexer.cursor.spanAt s.lexer.cursor.offset
            (reach s₃.lexer.cursor.offset b.1) }
        (r.2.1.map .divert ++ b.1)) := by
    refine (hbody (depth + 1) 0 s₅ h₅.stands).imp fun b s₆ h₆ => ?_
    have hreach := reach_within hline.stands.cursor.within h₆.2
    refine ⟨((hline.trans h₄).trans h₅).trans h₆.1, ⟨?_, ?_⟩, ?_, Nat.le_refl _⟩
    -- the scripts of a choice are its condition and those of its line
    · intro x hx
      rcases List.mem_append.mp hx with hx | hx
      · obtain ⟨k, hk, rfl⟩ := Option.map_eq_some_iff.mp (Option.mem_toList.mp hx)
        exact h₂.2 k hk
      · exact .inl (h₃.2.1 x hx)
    · exact (allAgree_diverts h₃.2.2).append h₆.2
    · exact Cursor.spanAt_in h.cursor (Nat.le_trans hline.forward hreach.1) hreach.2
  -- whether blocks are read below it or not, the choice is the same up to these
  split
  · exact hbelow _ (h₄.stands.ahead (.refl h₄.stands.cursor))
  · exact hbelow _ (.refl h₄.stands)

theorem ends_nextChoice (h : Stands f s) (depth : Nat) :
    Ends (nextChoice depth) s fun _ s' => Reaches f s s' := by
  have hblank := Lexer.skipBlankLines_ahead h.cursor
  simp only [nextChoice, ends_bind, ends_mapLexer, ends_lexer]
  split
  · exact h.ahead (hblank.trans (Lexer.skipIndent_ahead hblank.here))
  · exact h.ahead hblank

theorem ends_choiceList (fuel depth : Nat) (h : Stands f s)
    (hbody : ∀ depth stop s, Stands f s → Ends (body depth stop) s (ReadBlocks f s)) :
    Ends (choiceList body fuel depth) s fun r s' =>
      Reaches f s s' ∧ ∀ c ∈ r.1, ReadChoice f s c := by
  induction fuel generalizing s with
  | zero => exact ⟨.refl h, List.forall_mem_nil _⟩
  | succ fuel ih =>
    simp only [choiceList, ends_bind]
    refine (ends_choice h depth hbody).imp fun r s₁ h₁ => ?_
    refine (ends_nextChoice h₁.1.stands depth).imp fun more s₂ h₂ => ?_
    have hs := h₁.1.trans h₂
    split
    · rw [ends_bind]
      refine (ih h₂.stands).imp fun r' s₃ h₃ => ?_
      refine ⟨hs.trans h₃.1, fun c hc => ?_⟩
      rcases List.mem_cons.mp hc with rfl | hc
      · exact h₁.2
      · obtain ⟨hagrees, hspan, hstart⟩ := h₃.2 c hc
        exact ⟨hagrees, hspan, Nat.le_trans hs.forward hstart⟩
    · refine ⟨hs, fun c hc => ?_⟩
      rw [List.mem_singleton.mp hc]
      exact h₁.2

theorem ends_choices (h : Stands f s) (depth : Nat)
    (hbody : ∀ depth stop s, Stands f s → Ends (body depth stop) s (ReadBlocks f s)) :
    Ends (choices body depth) s (ReadBlock f s) := by
  simp only [choices, ends_bind, ends_cursor]
  refine (ends_choiceList _ depth h hbody).imp fun r s₁ h₁ => ?_
  have hcs : ∀ c ∈ r.1, c.Agrees f := fun c hc => (h₁.2 c hc).1
  refine ⟨h₁.1, .intro ⟨?_, List.forall_mem_nil _, by rintro _ ⟨⟩, ?_⟩ ?_⟩
  · show (s.lexer.cursor.spanAt _ _).In f
    cases hlast : r.1.getLast? with
    | none => exact Cursor.spanAt_in h.cursor (Nat.le_refl _) h.cursor.within
    | some c =>
      obtain ⟨-, hspan, hstart⟩ := h₁.2 c (List.mem_of_getLast? hlast)
      exact Cursor.spanAt_in h.cursor (Nat.le_trans hstart hspan.ordered) hspan.within
  · exact known_of_choices hcs
  · exact allAgree_of_choices hcs

/-! ## Sequences -/

theorem ends_openedBlock (h : Stands f s) (depth : Nat)
    (hbody : ∀ depth stop s, Stands f s → Ends (body depth stop) s (ReadBlocks f s)) :
    Ends (openedBlock body depth) s (ReadBlocks f s) := by
  have single {m : Parse (Block × Outcome)} (hm : Ends m s (ReadBlock f s)) :
      Ends m s fun r s' => ReadBlocks f s ([r.1], r.2) s' :=
    hm.imp fun _ _ hr => ⟨hr.1, .singleton hr.2⟩
  have hfits := BlockOpening.ofCursor_fits s.lexer.cursor
  rw [openedBlock, ends_bind, ends_cursor]
  generalize BlockOpening.ofCursor s.lexer.cursor = o at hfits ⊢
  cases o with
  | header =>
    rw [ends_bind]
    exact single (ends_header h depth hbody)
  | code =>
    rw [ends_bind]
    exact single (ends_codeBlock h hfits)
  | branch =>
    rw [ends_bind]
    exact single (ends_branch h depth hfits hbody)
  | choices =>
    rw [ends_bind]
    exact single (ends_choices h depth hbody)
  | paragraph => exact ends_paragraph h

theorem ends_block (h : Stands f s) (depth : Nat)
    (hbody : ∀ depth stop s, Stands f s → Ends (body depth stop) s (ReadBlocks f s)) :
    Ends (block body depth) s (ReadBlocks f s) := by
  simp only [block, ends_bind, ends_cursor, ends_lexer]
  refine (ends_attributeLines _ depth h).imp fun r s₁ h₁ => ?_
  split
  · split
    · exact ⟨h₁.1.trans (h₁.1.stands.ahead (.refl h₁.1.stands.cursor)), List.forall_mem_nil _⟩
    · exact ⟨h₁.1, List.forall_mem_nil _⟩
  · have hindent := h₁.1.trans (h₁.1.stands.ahead (d := s₁.log)
      (Lexer.skipIndent_ahead h₁.1.stands.cursor))
    simp only [ends_bind, ends_mapLexer]
    refine (ends_openedBlock hindent.stands depth hbody).imp fun bs s₂ h₂ => ?_
    exact ⟨hindent.trans h₂.1, h₂.2.attach fun a ha => (h₁.2 a ha).span⟩

/-- Blocks in sequence agree with the file, with everything below them. -/
theorem ends_sequence (fuel depth stop : Nat) (h : Stands f s) :
    Ends (sequence fuel depth stop) s (ReadBlocks f s) := by
  induction fuel generalizing s depth stop with
  | zero => exact ⟨.refl h, List.forall_mem_nil _⟩
  | succ fuel ih =>
    have hblank := h.ahead (d := s.log) (Lexer.skipBlankLines_ahead h.cursor)
    simp only [sequence, ends_bind, ends_mapLexer, ends_lexer]
    split
    · exact ⟨hblank, List.forall_mem_nil _⟩
    · simp only [ends_bind, ends_offset]
      refine (ends_block hblank.stands depth fun depth stop s hs => ih depth stop hs).imp
        fun r s₁ h₁ => ?_
      have hrest (s₂ : ParserState) (h₂ : Reaches f s₁ s₂) : Ends (sequence fuel depth stop) s₂
          fun r' s' => ReadBlocks f s (r.1 ++ r'.1, r.2.worse r'.2) s' := by
        refine (ih depth stop h₂.stands).imp fun r' s₃ h₃ => ?_
        exact ⟨((hblank.trans h₁.1).trans h₂).trans h₃.1, h₁.2.append h₃.2⟩
      split
      · rw [ends_bind]
        exact (ends_finishLine h₁.1.stands).imp fun _ s₂ h₂ => hrest s₂ h₂
      · exact hrest s₁ (.refl h₁.1.stands)

end Parse

/-! ## Documents -/

theorem spanViolation?_of_in {what : Bytes} {span : Span} (h : span.In f) :
    spanViolation? f what span = none := by
  have hfile : ¬ span.file ≠ f.id := fun hne => hne h.file
  have hin : ¬ (span.stop < span.start ∨ f.size < span.stop) := by
    have := h.ordered
    have := h.within
    omega
  rw [spanViolation?, if_neg hfile, if_neg hin]

theorem Block.Agrees.violation {b : Block} (h : b.Agrees f) : blockViolation? f b = none := by
  have hattrs (as : List Attribute) (has : ∀ a ∈ as, a.span.In f) :
      (as.findSome? fun a => spanViolation? f ("attribute @" ++ a.name) a.span) = none :=
    List.findSome?_eq_none_iff.mpr fun a ha => spanViolation?_of_in (has a ha)
  have hpath (d : Divert) (hd : b = .divert d) :
      (d.path.findSome? fun p => spanViolation? f "divert segment" p.span) = none :=
    List.findSome?_eq_none_iff.mpr fun p hp => spanViolation?_of_in (h.path d hd p hp)
  simp only [blockViolation?, spanViolation?_of_in h.span, hattrs _ h.attrs]
  cases b with
  | divert d => exact hpath d rfl
  | header | choices | branch | paragraph | code => rfl

/-- The one place outside of the file that a script can have. -/
def behindEnd (f : File) : Violation := .outside "script" ⟨f.id, f.size + 1, f.size + 1⟩ f.size

theorem ScriptRef.Behind.lt {r : ScriptRef} (h : r.Behind f) : f.size < r.span.stop := by
  rw [h.eq]
  exact Nat.lt_succ_self _

theorem ScriptRef.Known.behind {r : ScriptRef} (h : r.Known f) (hlt : f.size < r.span.stop) :
    r.Behind f :=
  h.resolve_left fun he => Nat.not_lt.mpr he.span.within hlt

/-- Known scripts in source order are all in place, or the first violation is behind the end. -/
theorem scriptViolation?_of_known {rs : List ScriptRef} (known : ∀ r ∈ rs, r.Known f)
    (sorted : rs.Pairwise fun a b => a.span.start ≤ b.span.start) (index last : Nat)
    (hlast : ∀ r ∈ rs, last ≤ r.span.start) :
    scriptViolation? f index last rs =
      if ∀ r ∈ rs, r.span.stop ≤ f.size then none else some (behindEnd f) := by
  induction rs generalizing index last with
  | nil => simp [scriptViolation?]
  | cons r rs ih =>
    obtain ⟨hr, hrs⟩ := List.forall_mem_cons.mp known
    obtain ⟨hstart, sorted⟩ := List.pairwise_cons.mp sorted
    rcases hr with hr | hr
    · have horder : ¬ r.span.start < last := Nat.not_lt.mpr (hlast r List.mem_cons_self)
      have hiff : (∀ x ∈ r :: rs, x.span.stop ≤ f.size) ↔ ∀ x ∈ rs, x.span.stop ≤ f.size := by
        rw [List.forall_mem_cons]
        exact and_iff_right hr.span.within
      simp only [scriptViolation?, spanViolation?_of_in hr.span, hr.raw, ne_eq, not_true_eq_false,
        if_false, if_neg horder, hiff]
      exact ih hrs sorted _ _ hstart
    · have hnot : ¬ ∀ x ∈ r :: rs, x.span.stop ≤ f.size := fun hall =>
        Nat.not_lt.mpr (hall r List.mem_cons_self) hr.lt
      rw [if_neg hnot, scriptViolation?, hr.eq]
      simp [spanViolation?, behindEnd]

/-- Everything in a parsed file agrees with the file. -/
theorem parse_allAgree (layout : Layout) (maxErrors : Nat) (small : f.size < Word.modulus) :
    AllAgree f (parse f layout maxErrors).document.blocks := by
  have start : Stands f { lexer := .ofFile f layout } :=
    ⟨⟨rfl, rfl, rfl, Nat.zero_le _, small⟩, fun d hd => by simp at hd⟩
  exact (Parse.ends_sequence ((Lexer.ofFile f layout).cursor.limit + 1) 0 0 start).2

theorem parse_scripts_known (layout : Layout) (maxErrors : Nat) (small : f.size < Word.modulus) :
    ∀ r ∈ (parse f layout maxErrors).document.scripts, r.Known f := by
  intro r hr
  obtain ⟨v, hv, hr⟩ := List.mem_flatMap.mp (List.mem_mergeSort.mp hr)
  obtain ⟨b, hb, hv⟩ := mem_visitBlocks.mp hv
  exact ((parse_allAgree layout maxErrors small b hb).visit _ v hv).scripts r hr

theorem Document.scripts_sorted (d : Document) :
    d.scripts.Pairwise fun a b => a.span.start ≤ b.span.start := by
  rw [Document.scripts]
  refine (List.pairwise_mergeSort ?_ ?_ _).imp of_decide_eq_true
  · intro a b c hab hbc
    simp only [decide_eq_true_eq] at hab hbc ⊢
    exact Nat.le_trans hab hbc
  · intro a b
    simp only [Bool.or_eq_true, decide_eq_true_eq]
    exact Nat.le_total _ _

theorem parse_violation (layout : Layout) (maxErrors : Nat) (small : f.size < Word.modulus) :
    (parse f layout maxErrors).document.violation? (some f) =
      if ∀ r ∈ (parse f layout maxErrors).document.scripts, r.span.stop ≤ f.size then none
      else some (behindEnd f) := by
  have hfile : (parse f layout maxErrors).document.file = f.id := rfl
  have hagree := parse_allAgree layout maxErrors small
  have hknown := parse_scripts_known layout maxErrors small
  generalize (parse f layout maxErrors).document = d at hfile hagree hknown ⊢
  have hblocks : (d.visits.findSome? fun v => blockViolation? f v.block) = none := by
    refine List.findSome?_eq_none_iff.mpr fun v hv => ?_
    obtain ⟨b, hb, hv⟩ := mem_visitBlocks.mp hv
    exact ((hagree b hb).visit _ v hv).violation
  have hscripts := scriptViolation?_of_known hknown d.scripts_sorted 0 0
    fun r _ => Nat.zero_le _
  simp only [Document.violation?, hfile, ne_eq, not_true_eq_false, if_false, hblocks, hscripts]
  rfl

/-- A parsed file of fewer than 2^32 bytes agrees with its document if and only if no script is
placed behind the end of the file.  A script that is placed there is the empty condition of a
choice, whose `@if` or `@not` without parentheses ends the file, and its place is the first
disagreement. -/
theorem parse_violation_iff (f : File) (layout : Layout) (maxErrors : Nat)
    (small : f.size < Word.modulus) :
    let d := (parse f layout maxErrors).document
    (d.violation? (some f) = none ↔ ∀ r ∈ d.scripts, r.span.stop ≤ f.size) ∧
    (∀ r ∈ d.scripts, f.size < r.span.stop →
      r.Behind f ∧ d.violation? (some f) = some (.outside "script" r.span f.size)) ∧
    (¬ Bytes.ofString "@if" <:+ f.bytes → ¬ Bytes.ofString "@not" <:+ f.bytes →
      d.violation? (some f) = none) := by
  intro d
  have heq : d.violation? (some f) = if ∀ r ∈ d.scripts, r.span.stop ≤ f.size then none
      else some (behindEnd f) := parse_violation layout maxErrors small
  have hknown : ∀ r ∈ d.scripts, r.Known f := parse_scripts_known layout maxErrors small
  refine ⟨?_, ?_, ?_⟩
  -- the checker names the first violation, and only a script can be one
  · rw [heq]
    split
    · next hall => exact ⟨fun _ => hall, fun _ => rfl⟩
    · next hall => exact ⟨nofun, fun h => absurd h hall⟩
  · intro r hr hlt
    have hbehind := (hknown r hr).behind hlt
    refine ⟨hbehind, ?_⟩
    rw [heq, if_neg fun hall => Nat.not_lt.mpr (hall r hr) hlt, hbehind.eq]
    rfl
  -- a script behind the end belongs to a bare condition at the very end of the file
  · intro hif hnot
    rw [heq, if_pos]
    intro r hr
    by_contra hlt
    rcases ((hknown r hr).behind (Nat.lt_of_not_le hlt)).ending with h | h
    · exact hif h
    · exact hnot h

theorem guarded_choice_agrees :
    let f := File.ofBytes 0 "a.story" "- @if(a) \x7bb\x7d -> c.d\n"
    f.size < Word.modulus ∧ (parse f).document.violation? (some f) = none :=
  ⟨by decide +kernel, (parse_violation_iff _ {} 0 (by decide +kernel)).2.2
    (by decide +kernel) (by decide +kernel)⟩

/-- The condition of the only choice has no parentheses and ends the file. -/
theorem bare_condition_behind_end :
    let f := File.ofBytes 0 "a.story" "- @if"
    (parse f).document.violation? (some f) = some (.outside "script" ⟨0, 6, 6⟩ 5) := by
  decide +kernel

end Storyline.Markup
