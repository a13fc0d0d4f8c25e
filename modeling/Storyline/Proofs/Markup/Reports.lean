import Mathlib.Data.List.TakeWhile
import Storyline.Proofs.Diagnostic.Bounds
import Storyline.Proofs.Markup.Agreement
import Storyline.Proofs.Text.Ascii

/-!
# Reports of the markup parser lie inside the file

Whatever a file of fewer than 2^32 bytes holds, every report of the markup parser is about a place
inside of it.  Where the parser stands during a run is known already; here each parser is judged
once more, for what it adds to the log (`Logged`), and `Ends.and` puts the two judgements together
where a later step needs both.
-/

namespace Storyline

/-! ## Blanks at the ends of a line -/

namespace Bytes

/-- A text of spaces, tabs and carriage returns alone is blank. -/
theorem trimBlank_eq_nil {s : Bytes} (h : ∀ b ∈ s, isGap b = true ∨ b = '\r') :
    s.trimBlank = [] := by
  have hall : ∀ g ∈ s.glyphs, Text.isBlankGlyph g = true := by
    induction s with
    | nil => simp [glyphs, glyphsFrom]
    | cons b s ih =>
      obtain ⟨hb, hs⟩ := List.forall_mem_cons.mp h
      have hcases : b = ' ' ∨ b = '\t' ∨ b = '\r' := by
        simpa [isGap, or_assoc] using hb
      rw [glyphs_cons_ascii (by rcases hcases with rfl | rfl | rfl <;> decide),
        List.forall_mem_cons]
      exact ⟨by rcases hcases with rfl | rfl | rfl <;> decide, ih hs⟩
  rw [trimBlank, List.dropWhile_eq_nil_iff.mpr hall]
  rfl

/-- The blanks at the two ends of a text that is not blank do not meet. -/
theorem trimmed_lengths {s : Bytes} (h : s.trimBlank ≠ []) :
    (s.length - (s.trimLeft isGap).length)
      + (s.length - (s.trimRight fun b => isGap b || b = '\r').length) ≤ s.length := by
  obtain ⟨x, hx, hgap, hreturn⟩ : ∃ x ∈ s, isGap x = false ∧ x ≠ '\r' := by
    by_contra hnone
    push Not at hnone
    refine h (trimBlank_eq_nil fun b hb => ?_)
    cases hg : isGap b with
    | true => exact .inl rfl
    | false => exact .inr (hnone b hb hg)
  obtain ⟨before, after, rfl⟩ := List.append_of_mem hx
  have hleft : (x :: after).length ≤ (trimLeft isGap (before ++ x :: after)).length := by
    rw [trimLeft, List.dropWhile_append]
    split
    · simp [hgap]
    · simp
  have hright : (before ++ [x]).length
      ≤ (trimRight (fun b => isGap b || b = '\r') (before ++ x :: after)).length := by
    have hreverse : (before ++ x :: after).reverse = after.reverse ++ x :: before.reverse := by simp
    rw [trimRight, List.length_reverse, hreverse, List.dropWhile_append]
    split
    · simp [hgap, hreturn]
    · simp
  simp only [List.length_append, List.length_cons, List.length_nil] at hleft hright ⊢
  omega

end Bytes

namespace Markup

variable {f : File} {s : ParserState}

/-- A state whose reports all lie inside a file. -/
def Logged (f : File) (s : ParserState) : Prop := ∀ d ∈ s.log, d.Within f.id f.size

/-- A report inside the file can be added. -/
theorem Logged.push (h : Logged f s) {d : Diagnostic} (hd : d.Within f.id f.size) {l : Lexer}
    {ds : Array Divert} : Logged f { lexer := l, log := s.log.push d, lifted := ds } := by
  intro e he
  rcases Array.mem_push.mp he with he | rfl
  · exact h e he
  · exact hd

namespace Parse

variable {α : Type}

/-- A parser whose reports lie inside the file, started anywhere in it. -/
def Logs (f : File) (m : Parse α) : Prop :=
  ∀ s, Stands f s → Logged f s → Ends m s fun _ s' => Logged f s'

/-! ## Lines -/

theorem logs_skipSpaces : Logs f skipSpaces := fun _ _ hl => hl

theorem logs_eatLineEnding : Logs f eatLineEnding := fun _ _ hl => hl

theorem logs_finishLine : Logs f finishLine := fun _ _ hl => hl

theorem logs_eat (b : UInt8) : Logs f (eat b) := by
  intro s _ hl
  rw [eat, ends_bind, ends_cursor]
  cases s.lexer.cursor.eatByte? b with
  | none => exact hl
  | some c => exact hl

theorem logs_restOfLine : Logs f restOfLine := by
  intro s _ hl
  simp only [restOfLine, ends_bind, ends_lexer, ends_moveTo]
  split
  · exact hl
  · exact hl

/-- The text that is left on a line, if any, stands inside the file. -/
theorem ends_restOfLine_span (h : Stands f s) :
    Ends restOfLine s fun r _ => r.1 ≠ [] → r.2.In f := by
  obtain ⟨hle, hstop⟩ := Lexer.textEnd_within h.cursor
  simp only [restOfLine, ends_bind, ends_lexer, ends_moveTo]
  split
  · exact fun hne => absurd rfl hne
  · next hblank =>
    intro hne
    have hlen := length_slice h.cursor hle hstop
    have htrim := Bytes.trimmed_lengths hne
    rw [hlen] at htrim
    simp only [hlen]
    exact Cursor.spanAt_in h.cursor (by omega) (by omega)

/-! ## Texts -/

theorem logs_literalOpening (draft : Draft) (code : Code) {delimiter : Bytes} (h : Stands f s)
    (hl : Logged f s) (hfit : s.lexer.cursor.offset + delimiter.length ≤ f.size) :
    Ends (literalOpening draft code delimiter) s fun _ s' => Logged f s' := by
  simp only [literalOpening, ends_bind, ends_offset, ends_unclosed, ends_complain, ends_mapCursor,
    ends_pure]
  exact hl.push (.error (Cursor.spanAt_in h.cursor (Nat.le_add_right _ _) hfit).toWithin _ _)

theorem logs_codeSpan (stop : Nat) : Logs f (codeSpan stop) := by
  intro s _ hl
  simp only [codeSpan, ends_bind, ends_cursor]
  split
  · exact hl
  · exact hl

theorem logs_scriptSpan (stop : Nat) : Logs f (scriptSpan stop) := by
  intro s _ hl
  simp only [scriptSpan, ends_bind, ends_cursor]
  split
  · exact hl
  · exact hl

theorem logs_inlineDivert (stop : Nat) (h : Stands f s) (hl : Logged f s)
    (hp : s.lexer.cursor.hasPrefix "<->" ∨ s.lexer.cursor.hasPrefix "->") :
    Ends (inlineDivert stop) s fun _ s' => Logged f s' := by
  simp only [inlineDivert, ends_bind, ends_cursor]
  have hc := h.cursor
  generalize s.lexer.cursor = c at hp hc ⊢
  generalize harrow : (if c.hasPrefix "<->" then { c with offset := c.offset + 3 } else c.skip 2)
    = arrow
  have hahead : Cursor.Ahead f c arrow := by
    rw [← harrow]
    split
    · next ht => exact hc.ahead (Nat.le_add_right _ _) (Cursor.hasPrefix_bound hc ht)
    · next ht => exact Cursor.skip_ahead hc (Cursor.hasPrefix_bound hc (hp.resolve_left ht))
  generalize hraw : c.slice _ (min stop _) = raw
  rw [ends_moveTo]
  split
  · refine hl.push (.error ⟨?_, hahead.forward, hahead.here.within⟩ _ _)
    exact h.cursor.file
  · exact hl

variable {inner : Style → Parse TextResult}

theorem logs_styledSpan (stop : Nat) {style : Style} (h : Stands f s) (hl : Logged f s)
    (hfit : s.lexer.cursor.offset + style.delimiter.length ≤ f.size)
    (hinner : ∀ style, Logs f (inner style)) :
    Ends (styledSpan inner stop style) s fun _ s' => Logged f s' := by
  have hskip := Cursor.skip_ahead h.cursor hfit
  simp only [styledSpan, ends_bind, ends_get]
  split
  · exact hl
  · have hm := h.moveTo (d := s.log) hskip.forward hskip.here.within
    simp only [ends_bind, ends_moveTo]
    refine (hinner style _ hm.stands hl).imp fun r s' hr => ?_
    split
    · exact hr
    · exact hl

theorem logs_textStep (h : Stands f s) (hl : Logged f s) {stop : Nat}
    (hlt : s.lexer.cursor.offset < stop) (hstop : stop ≤ f.size) (draft : Draft)
    (hstand : ∀ style s, Stands f s → Ends (inner style) s (ReadText f s))
    (hinner : ∀ style, Logs f (inner style)) :
    Ends (textStep inner stop draft) s fun _ s' => Logged f s' := by
  have hsize : s.lexer.cursor.offset < f.size := Nat.lt_of_lt_of_le hlt hstop
  -- a report is placed where the text at the cursor starts, so that it lies in the file
  have hfits := Opening.ofCursor_fits h.cursor hsize stop
  simp only [textStep, ends_bind, ends_cursor]
  cases ho : Opening.ofCursor s.lexer.cursor stop with
  | literal => exact hl
  | escape =>
    simp only
    split
    · exact hl
    · exact hl
  | styled style =>
    rw [ho] at hfits
    simp only [ends_bind]
    refine ((ends_styledSpan h stop hfits hstand).and
      (logs_styledSpan stop h hl hfits hinner)).imp fun r s' hr => ?_
    cases r with
    | some p => exact hr.2
    | none =>
      -- what was logged while the attempt lasted was taken back with it
      cases hr.1
      exact logs_literalOpening draft _ h hl hfits
  | code =>
    simp only [ends_bind]
    refine ((ends_codeSpan h stop).and (logs_codeSpan stop s h hl)).imp fun r s' hr => ?_
    cases r with
    | some e => exact hr.2
    | none =>
      cases hr.1
      exact logs_literalOpening draft _ h hl hsize
  | script =>
    simp only [ends_bind]
    refine ((ends_scriptSpan h stop).and (logs_scriptSpan stop s h hl)).imp fun r s' hr => ?_
    cases r with
    | some e => exact hr.2
    | none =>
      cases hr.1
      exact logs_literalOpening draft _ h hl hsize
  | join => exact hl
  | divert =>
    rw [ho] at hfits
    simp only [ends_bind]
    refine (logs_inlineDivert stop h hl hfits).imp fun o s' hr => ?_
    split
    · exact hr
    · exact hr

theorem logs_textFrom {stop : Nat} (hstop : stop ≤ f.size) (fuel : Nat) (closer : Option Style)
    (start : Nat) (draft : Draft) (hd : draft.Exact f) (out : Outcome) :
    Logs f (textFrom fuel stop closer start draft out) := by
  induction fuel generalizing closer start draft out with
  | zero => exact fun _ _ hl => hl
  | succ fuel ih =>
    intro s h hl
    have hempty : Draft.Exact f {} := by simp [Draft.Exact, Inline.scriptsOf]
    simp only [textFrom, ends_bind, ends_cursor]
    split
    · exact hl
    · next hlt =>
      split
      · exact hl
      · rw [ends_bind]
        have hinner (style : Style) (s : ParserState) (hs : Stands f s) := by
          exact ends_textFrom hstop fuel hs (some style) s.lexer.cursor.offset hempty .parsed
        have hlt := Nat.lt_of_not_le hlt
        refine ((ends_textStep h hlt hstop hd hinner).and
          (logs_textStep h hl hlt hstop draft hinner ?_)).imp fun r s' hr => ?_
        · exact fun style s hs hl => ih (some style) _ _ hempty _ s hs hl
        · exact ih closer start _ hr.1.2 _ s' hr.1.1.stands hr.2

theorem logs_lineText : Logs f lineText := by
  intro s h hl
  simp only [lineText, ends_bind, ends_get, ends_textEnd, ends_offset]
  exact logs_textFrom (Lexer.textEnd_within h.cursor).2 _ none _ {}
    (by simp [Draft.Exact, Inline.scriptsOf]) _ s h hl

/-! ## Attributes -/

theorem logs_parameters (h : Stands f s) (hl : Logged f s) (hp : s.lexer.cursor.peek = '(') :
    Ends parameters s fun _ s' => Logged f s' := by
  have hlt := Cursor.lt_of_peek h.cursor hp (by decide)
  simp only [parameters, ends_bind, ends_lexer]
  split
  · exact hl
  · simp only [ends_bind, ends_unclosed, ends_complain, ends_moveTo, ends_pure]
    exact hl.push (.error (Cursor.spanAt_in h.cursor (Nat.le_add_right _ _) hlt).toWithin _ _)

theorem logs_takeAttribute : Logs f takeAttribute := by
  intro s h hl
  simp only [takeAttribute, ends_bind, ends_cursor]
  split
  · exact hl
  · next hc =>
    have hat : s.lexer.cursor.peek = '@' := by simp at hc; exact hc.1
    have hlt := Cursor.lt_of_peek h.cursor hat (by decide)
    have hnamed := Cursor.next_ahead h.cursor
    have hend := Cursor.skipWhile_ahead hnamed.here isNamePart
    have hm := h.moveTo (d := s.log) (hnamed.trans hend).forward hend.here.within
    have hmoved : (s.lexer.moveTo (s.lexer.cursor.next.skipWhile isNamePart).offset).cursor
        = s.lexer.cursor.next.skipWhile isNamePart := by
      rw [Cursor.next_eq h.cursor hlt]
      rfl
    rw [ends_bind, ends_moveTo]
    split
    · next hp =>
      rw [ends_bind]
      exact (logs_parameters hm.stands hl (by rwa [hmoved])).imp fun _ _ hr => hr
    · exact hl

theorem logs_attributeLine : Logs f attributeLine := by
  intro s h hl
  have hindent := h.ahead (d := s.log) (Lexer.skipIndent_ahead h.cursor)
  simp only [attributeLine, ends_bind, ends_get, ends_mapLexer]
  refine (logs_takeAttribute _ hindent.stands hl).imp fun r s' hr => ?_
  cases r with
  | none => exact hl
  | some p =>
    simp only [ends_bind, ends_offset, ends_textEnd]
    refine Ends.imp (show Ends skipSpaces s' fun _ s'' => Logged f s'' from hr) fun _ s'' hs => ?_
    split
    · exact hs
    · exact hl

theorem logs_attributeLines (fuel depth : Nat) : Logs f (attributeLines fuel depth) := by
  induction fuel with
  | zero => exact fun _ _ hl => hl
  | succ fuel ih =>
    intro s h hl
    have hblank := h.ahead (d := s.log) (Lexer.skipBlankLines_ahead h.cursor)
    simp only [attributeLines, ends_bind, ends_mapLexer, ends_lexer]
    split
    · exact hl
    · rw [ends_bind]
      refine ((ends_attributeLine hblank.stands).and
        (logs_attributeLine _ hblank.stands hl)).imp fun r s' hr => ?_
      cases r with
      | none => exact hr.2
      | some p => exact ih s' hr.1.1.stands hr.2

/-! ## Blocks -/

theorem logs_matchCondition (h : Stands f s) (hl : Logged f s)
    (hp : s.lexer.cursor.hasPrefix [0x40, 0x7B]) :
    Ends matchCondition s fun _ s' => Logged f s' := by
  have hfit := Cursor.hasPrefix_bound h.cursor hp
  simp only [matchCondition, ends_bind, ends_lexer]
  split
  · exact hl
  · simp only [ends_bind, ends_unclosed, ends_complain, ends_moveTo, ends_pure]
    exact hl.push (.error (Cursor.spanAt_in h.cursor (Nat.le_add_right _ _) hfit).toWithin _ _)

theorem logs_matchMode (hl : Logged f s) {modifier : Bytes} {span : Span}
    (hspan : modifier ≠ [] → span.In f) :
    Ends (matchMode modifier span) s fun _ s' => Logged f s' := by
  rw [matchMode]
  split
  · exact hl
  split
  · exact hl
  split
  · exact hl
  · next hne _ _ =>
    exact hl.push (.error (hspan (by simpa using hne)).toWithin _ _)

theorem logs_codeBlock (h : Stands f s) (hl : Logged f s)
    (hp : s.lexer.cursor.hasPrefix [0x60, 0x60, 0x60]) :
    Ends codeBlock s fun _ s' => Logged f s' := by
  have hfit := Cursor.hasPrefix_bound h.cursor hp
  have hskip := h.ahead (d := s.log) (l := { s.lexer with cursor := s.lexer.cursor.skip 3 })
    (Cursor.skip_ahead h.cursor hfit)
  simp only [codeBlock, ends_bind, ends_cursor, ends_mapCursor]
  refine ((ends_restOfLine hskip.stands).and (logs_restOfLine _ hskip.stands hl)).imp
    fun t s₁ h₁ => ?_
  refine ((ends_eatLineEnding h₁.1.stands).and (logs_eatLineEnding _ h₁.1.stands h₁.2)).imp
    fun _ s₂ h₂ => ?_
  split
  · exact h₂.2
  · simp only [ends_bind, ends_unclosed, ends_complain, ends_moveTo, ends_pure]
    refine h₂.2.push (.error ⟨?_, Nat.le_add_right _ _, hfit⟩ _ _)
    exact h₂.1.stands.cursor.file

variable {body : BodyParser}

theorem logs_header (depth : Nat) (hbody : ∀ depth stop, Logs f (body depth stop)) :
    Logs f (header body depth) := by
  intro s h hl
  have hskip := h.ahead (d := s.log) (l := { s.lexer with cursor := s.lexer.cursor.skip _ })
    (Cursor.skip_ahead h.cursor (Cursor.runLength_bound h.cursor (· = '#')))
  simp only [header, ends_bind, ends_cursor, ends_mapCursor, ends_offset]
  refine ((ends_eat hskip.stands ' ').and (logs_eat ' ' _ hskip.stands hl)).imp fun _ s₁ h₁ => ?_
  refine ((ends_restOfLine h₁.1.stands).and (logs_restOfLine _ h₁.1.stands h₁.2)).imp
    fun t s₂ h₂ => ?_
  refine ((ends_eatLineEnding h₂.1.stands).and (logs_eatLineEnding _ h₂.1.stands h₂.2)).imp
    fun _ s₃ h₃ => ?_
  exact hbody depth _ s₃ h₃.1.stands h₃.2

theorem logs_branch (depth : Nat) (h : Stands f s) (hl : Logged f s)
    (hp : s.lexer.cursor.hasPrefix [0x40, 0x7B])
    (hbody : ∀ depth stop, Logs f (body depth stop)) :
    Ends (branch body depth) s fun _ s' => Logged f s' := by
  simp only [branch, ends_bind, ends_cursor, ends_offset]
  refine ((ends_matchCondition h hp).and (logs_matchCondition h hl hp)).imp fun _ s₁ h₁ => ?_
  have hs₁ := h₁.1.1.stands
  refine (((ends_restOfLine hs₁).and (ends_restOfLine_span hs₁)).and
    (logs_restOfLine _ hs₁ h₁.2)).imp fun t s₂ h₂ => ?_
  have hs₂ := h₂.1.1.stands
  refine ((ends_matchMode hs₂ _ _).and (logs_matchMode h₂.2 h₂.1.2)).imp fun _ s₃ h₃ => ?_
  refine ((ends_eatLineEnding h₃.1.stands).and (logs_eatLineEnding _ h₃.1.stands h₃.2)).imp
    fun _ s₄ h₄ => ?_
  exact hbody (depth + 1) 0 s₄ h₄.1.stands h₄.2

theorem logs_paragraph : Logs f paragraph := by
  intro s h hl
  simp only [paragraph, ends_bind, ends_cursor, ends_offset]
  refine ((ends_lineText h).and (logs_lineText s h hl)).imp fun r s₁ h₁ => ?_
  exact logs_finishLine s₁ h₁.1.1.stands h₁.2

/-! ## Choices -/

theorem logs_choiceAttribute (hl : Logged f s) {head : ChoiceHead} {a : Attribute}
    (ha : a.Placed f) : Ends (choiceAttribute head a) s fun _ s' => Logged f s' := by
  rw [choiceAttribute]
  split
  · split
    · exact hl.push (.error ha.span.toWithin _ _)
    · exact hl
  · exact hl

theorem logs_choiceHead (fuel : Nat) {head : ChoiceHead} (hh : head.Known f) :
    Logs f (choiceHead fuel head) := by
  induction fuel generalizing head with
  | zero => exact fun _ _ hl => hl
  | succ fuel ih =>
    intro s h hl
    simp only [choiceHead, ends_bind]
    refine ((ends_takeAttribute h).and (logs_takeAttribute s h hl)).imp fun r s₁ h₁ => ?_
    rcases r with _ | ⟨a, o⟩
    · exact h₁.2
    · have hh' : ChoiceHead.Known f { head with outcome := head.outcome.worse o } := hh
      simp only [ends_bind]
      refine ((ends_choiceAttribute h₁.1.1.stands h₁.1.2 hh').and
        (logs_choiceAttribute h₁.2 h₁.1.2)).imp fun head' s₂ h₂ => ?_
      refine ((ends_skipSpaces h₂.1.1.stands).and (logs_skipSpaces _ h₂.1.1.stands h₂.2)).imp
        fun _ s₃ h₃ => ?_
      exact ih h₂.1.2 s₃ h₃.1.stands h₃.2

theorem logs_choice (depth : Nat) (hbody : ∀ depth stop, Logs f (body depth stop)) :
    Logs f (choice body depth) := by
  intro s h hl
  have hdash := h.ahead (d := s.log) (l := { s.lexer with cursor := s.lexer.cursor.next })
    (Cursor.next_ahead h.cursor)
  simp only [choice, ends_bind, ends_cursor, ends_mapCursor, ends_offset]
  refine ((ends_skipSpaces hdash.stands).and (logs_skipSpaces _ hdash.stands hl)).imp
    fun _ s₁ h₁ => ?_
  refine ((ends_choiceHead _ h₁.1.stands ChoiceHead.known_empty).and
    (logs_choiceHead _ ChoiceHead.known_empty s₁ h₁.1.stands h₁.2)).imp fun head s₂ h₂ => ?_
  refine ((ends_lineText h₂.1.1.stands).and (logs_lineText s₂ h₂.1.1.stands h₂.2)).imp
    fun r s₃ h₃ => ?_
  have hline := ((hdash.trans h₁.1).trans h₂.1.1).trans h₃.1.1
  refine ((ends_finishLine hline.stands).and (logs_finishLine _ hline.stands h₃.2)).imp
    fun _ s₄ h₄ => ?_
  split
  · simp only [ends_bind, ends_report]
    refine hbody (depth + 1) 0 _ (h₄.1.stands.ahead (.refl h₄.1.stands.cursor)).stands ?_
    refine h₄.2.push (.warning (Cursor.spanAt_in h.cursor ?_ ?_).toWithin _ _)
    · exact hline.forward
    · exact hline.stands.cursor.within
  · exact hbody (depth + 1) 0 s₄ h₄.1.stands h₄.2

theorem logs_nextChoice (depth : Nat) : Logs f (nextChoice depth) := by
  intro s _ hl
  simp only [nextChoice, ends_bind, ends_mapLexer, ends_lexer]
  split
  · exact hl
  · exact hl

theorem logs_choiceList (fuel depth : Nat)
    (hstand : ∀ depth stop s, Stands f s → Ends (body depth stop) s (ReadBlocks f s))
    (hbody : ∀ depth stop, Logs f (body depth stop)) : Logs f (choiceList body fuel depth) := by
  induction fuel with
  | zero => exact fun _ _ hl => hl
  | succ fuel ih =>
    intro s h hl
    simp only [choiceList, ends_bind]
    refine ((ends_choice h depth hstand).and (logs_choice depth hbody s h hl)).imp
      fun r s₁ h₁ => ?_
    have hs₁ := h₁.1.1.stands
    refine ((ends_nextChoice hs₁ depth).and (logs_nextChoice depth s₁ hs₁ h₁.2)).imp
      fun more s₂ h₂ => ?_
    split
    · exact ih s₂ h₂.1.stands h₂.2
    · exact h₂.2

theorem logs_choices (depth : Nat)
    (hstand : ∀ depth stop s, Stands f s → Ends (body depth stop) s (ReadBlocks f s))
    (hbody : ∀ depth stop, Logs f (body depth stop)) : Logs f (choices body depth) := by
  intro s h hl
  simp only [choices, ends_bind, ends_cursor]
  exact logs_choiceList _ depth hstand hbody s h hl

/-! ## Sequences -/

theorem logs_openedBlock (depth : Nat)
    (hstand : ∀ depth stop s, Stands f s → Ends (body depth stop) s (ReadBlocks f s))
    (hbody : ∀ depth stop, Logs f (body depth stop)) : Logs f (openedBlock body depth) := by
  intro s h hl
  have hfits := BlockOpening.ofCursor_fits s.lexer.cursor
  rw [openedBlock, ends_bind, ends_cursor]
  generalize BlockOpening.ofCursor s.lexer.cursor = o at hfits ⊢
  cases o with
  | header =>
    rw [ends_bind]
    exact logs_header depth hbody s h hl
  | code =>
    rw [ends_bind]
    exact logs_codeBlock h hl hfits
  | branch =>
    rw [ends_bind]
    exact logs_branch depth h hl hfits hbody
  | choices =>
    rw [ends_bind]
    exact logs_choices depth hstand hbody s h hl
  | paragraph => exact logs_paragraph s h hl

theorem logs_block (depth : Nat)
    (hstand : ∀ depth stop s, Stands f s → Ends (body depth stop) s (ReadBlocks f s))
    (hbody : ∀ depth stop, Logs f (body depth stop)) : Logs f (block body depth) := by
  intro s h hl
  simp only [block, ends_bind, ends_cursor, ends_lexer]
  refine ((ends_attributeLines _ depth h).and (logs_attributeLines _ depth s h hl)).imp
    fun r s₁ h₁ => ?_
  split
  · split
    · next a ha =>
      have hspan := (h₁.1.2 a (List.mem_of_getLast? ha)).span
      exact h₁.2.push (.warning hspan.toWithin _ _)
    · exact h₁.2
  · have hindent := h₁.1.1.stands.ahead (d := s₁.log) (Lexer.skipIndent_ahead h₁.1.1.stands.cursor)
    simp only [ends_bind, ends_mapLexer]
    exact (logs_openedBlock depth hstand hbody _ hindent.stands h₁.2).imp fun _ _ hr => hr

theorem logs_sequence (fuel depth stop : Nat) : Logs f (sequence fuel depth stop) := by
  induction fuel generalizing depth stop with
  | zero => exact fun _ _ hl => hl
  | succ fuel ih =>
    intro s h hl
    have hstand (depth stop : Nat) (s : ParserState) (hs : Stands f s) :=
      ends_sequence fuel depth stop hs
    have hblank := h.ahead (d := s.log) (Lexer.skipBlankLines_ahead h.cursor)
    simp only [sequence, ends_bind, ends_mapLexer, ends_lexer]
    split
    · exact hl
    · simp only [ends_bind, ends_offset]
      refine ((ends_block hblank.stands depth hstand).and
        (logs_block depth hstand ih _ hblank.stands hl)).imp fun r s₁ h₁ => ?_
      have hs₁ := h₁.1.1.stands
      split
      · rw [ends_bind]
        refine ((ends_finishLine hs₁).and (logs_finishLine s₁ hs₁ h₁.2)).imp fun _ s₂ h₂ => ?_
        exact ih depth stop s₂ h₂.1.stands h₂.2
      · exact ih depth stop s₁ hs₁ h₁.2

end Parse

theorem keepErrors_go_subset (n : Nat) (ds : List Diagnostic) : keepErrors.go n ds ⊆ ds := by
  induction ds generalizing n with
  | nil => exact List.Subset.refl _
  | cons d ds ih =>
    unfold keepErrors.go
    split
    · exact List.cons_subset_cons d (ih n)
    · cases n with
      | zero => exact List.subset_cons_of_subset d (ih 0)
      | succ n => exact List.cons_subset_cons d (ih n)

theorem keepErrors_subset (limit : Nat) (ds : List Diagnostic) : keepErrors limit ds ⊆ ds := by
  rw [keepErrors]
  split
  · exact List.Subset.refl _
  · exact keepErrors_go_subset limit ds

/-- Something is kept of whatever is reported. -/
theorem eq_nil_of_keepErrors {limit : Nat} {ds : List Diagnostic} (h : keepErrors limit ds = []) :
    ds = [] := by
  cases ds with
  | nil => rfl
  | cons d ds =>
    rw [keepErrors] at h
    split at h
    · exact h
    · next hlimit =>
      obtain ⟨n, rfl⟩ := Nat.exists_eq_succ_of_ne_zero hlimit
      unfold keepErrors.go at h
      split at h
      · cases h
      · cases h

/-- What is reported about the markup of a file lies inside the file. -/
theorem parse_diagnostics_within (layout : Layout) (maxErrors : Nat)
    (small : f.size < Word.modulus) :
    ∀ d ∈ (parse f layout maxErrors).diagnostics, d.Within f.id f.size := by
  have start : Stands f { lexer := .ofFile f layout } :=
    ⟨⟨rfl, rfl, rfl, Nat.zero_le _, small⟩, fun d hd => by simp at hd⟩
  have hlog := Parse.logs_sequence ((Lexer.ofFile f layout).cursor.limit + 1) 0 0 _ start
    (fun d hd => by simp at hd)
  intro d hd
  exact hlog d (Array.mem_toList_iff.mp (keepErrors_subset _ _ hd))

end Markup

end Storyline
