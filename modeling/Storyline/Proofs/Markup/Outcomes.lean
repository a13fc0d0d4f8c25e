import Storyline.Proofs.Markup.Lifted
import Storyline.Proofs.Markup.Progress
import Storyline.Proofs.Markup.Reports

/-!
# The outcome of parsing tells whether there were errors

A file is parsed without problems exactly if no error is reported about it.  The log may lose
reports again, when an attempt is undone, and the outcomes are put together by hand; so the errors
in the log are counted (`errorCount`) and every parser is judged by whether its outcome tells that
it added one (`Tells`).

The one outcome that is not put together from others is that of a line that gives no block at all.
It is a failure, and the parser of the line reports nothing about it.  But such a line holds
something, so that its first byte either becomes text, or opens a divert, or was complained about.
-/

namespace Storyline.Markup

variable {f : File}

/-! ## Errors in a log -/

/-- How many errors a log holds. -/
def errorCount (log : Array Diagnostic) : Nat := log.toList.countP fun d => d.severity = .error

/-- An outcome that tells whether errors came to a log. -/
structure Tells (o : Outcome) (before after : Array Diagnostic) : Prop where
  grown : errorCount before ≤ errorCount after
  parsed_iff : o = .parsed ↔ errorCount after = errorCount before

theorem Outcome.worse_eq_parsed {o o' : Outcome} :
    o.worse o' = .parsed ↔ o = .parsed ∧ o' = .parsed := by
  cases o <;> cases o' <;> decide

namespace Tells

variable {o o' : Outcome} {before between after : Array Diagnostic}

theorem refl : Tells .parsed before before := ⟨Nat.le_refl _, by simp⟩

theorem trans (h : Tells o before between) (k : Tells o' between after) :
    Tells (o.worse o') before after := by
  have hgrown := h.grown
  have hgrown' := k.grown
  refine ⟨Nat.le_trans hgrown hgrown', ?_⟩
  rw [Outcome.worse_eq_parsed, h.parsed_iff, k.parsed_iff]
  omega

/-- What goes well tells nothing new. -/
theorem well (h : Tells o before between) (k : Tells .parsed between after) :
    Tells o before after := by
  have hboth := h.trans k
  have hsame : o.worse .parsed = o := by cases o <;> rfl
  rwa [hsame] at hboth

/-- One more error keeps an outcome from being good. -/
theorem error {code : Code} {span : Span} {message : Bytes} (ho : o ≠ .parsed) :
    Tells o before (before.push (.error code span message)) := by
  have hcount : errorCount (before.push (.error code span message)) = errorCount before + 1 := by
    simp [errorCount, Diagnostic.error]
  refine ⟨by omega, iff_of_false ho ?_⟩
  omega

/-- A warning does not count. -/
theorem warning {code : Code} {span : Span} {message : Bytes} :
    Tells .parsed before (before.push (.warning code span message)) := by
  have hother : Severity.warning ≠ Severity.error := by decide
  have hcount : errorCount (before.push (.warning code span message)) = errorCount before := by
    simp [errorCount, Diagnostic.warning, hother]
  exact ⟨Nat.le_of_eq hcount.symm, by simp [hcount]⟩

/-- What is not good may as well have failed. -/
theorem worsen (h : Tells o before after) (ho : o ≠ .parsed) : Tells .failed before after := by
  refine ⟨h.grown, iff_of_false (by decide) fun hsame => ho (h.parsed_iff.mpr hsame)⟩

end Tells

namespace Parse

variable {s : ParserState} {stop : Nat}

/-! ## Texts -/

theorem tells_literalOpening (draft : Draft) (code : Code) (delimiter : Bytes) :
    Ends (literalOpening draft code delimiter) s fun _ s' => Tells .recovered s.log s'.log := by
  simp only [literalOpening, ends_bind, ends_offset, ends_unclosed, ends_complain, ends_mapCursor,
    ends_pure]
  exact .error (by decide)

theorem tells_inlineDivert (stop : Nat) :
    Ends (inlineDivert stop) s fun o s' => Tells o s.log s'.log := by
  simp only [inlineDivert, ends_bind, ends_cursor, ends_moveTo]
  generalize (if s.lexer.cursor.hasPrefix "<->" then _ else s.lexer.cursor.skip 2) = arrow
  generalize max arrow.offset _ = start
  generalize s.lexer.cursor.slice start _ = raw
  split
  · exact .error Outcome.recovered_ne_parsed
  · exact .refl

variable {inner : Style → Parse TextResult}

/-- An attempt at a styled text that is undone tells nothing. -/
theorem tells_styledSpan (stop : Nat) (style : Style)
    (hinner : ∀ style s, Ends (inner style) s fun r s' => Tells r.outcome s.log s'.log) :
    Ends (styledSpan inner stop style) s fun r s' =>
      match r with
      | none => s' = s
      | some (_, o) => Tells o s.log s'.log := by
  simp only [styledSpan, ends_bind, ends_get]
  split
  · exact rfl
  · simp only [ends_bind, ends_moveTo]
    refine (hinner style _).imp fun r s' hr => ?_
    split
    · exact hr
    · exact rfl

theorem tells_textStep (stop : Nat) (draft : Draft)
    (hinner : ∀ style s, Ends (inner style) s fun r s' => Tells r.outcome s.log s'.log) :
    Ends (textStep inner stop draft) s fun r s' => Tells r.2 s.log s'.log := by
  -- By what the text at the cursor may start; each of them tells in its outcome what it reported.
  simp only [textStep, ends_bind, ends_cursor]
  cases Opening.ofCursor s.lexer.cursor stop with
  | literal | join => exact .refl
  | escape =>
    simp only
    split
    · exact .refl
    · exact .refl
  | styled style =>
    simp only [ends_bind]
    refine (tells_styledSpan stop style hinner).imp fun r s' hr => ?_
    cases r with
    | some p => exact hr
    | none =>
      cases hr
      exact tells_literalOpening draft _ _
  | code =>
    simp only [ends_bind]
    refine codeSpan_moves.imp fun r s' hr => ?_
    rw [← hr.1]
    cases r with
    | some e => exact .refl
    | none => exact tells_literalOpening draft _ _
  | script =>
    simp only [ends_bind]
    refine scriptSpan_moves.imp fun r s' hr => ?_
    rw [← hr.1]
    cases r with
    | some e => exact .refl
    | none => exact tells_literalOpening draft _ _
  | divert =>
    simp only [ends_bind]
    refine (tells_inlineDivert stop).imp fun o s' hr => ?_
    split
    · exact hr
    · exact hr

/-- Reading on from an outcome that tells ends with one that does. -/
theorem tells_textFrom (fuel : Nat) (closer : Option Style) (start : Nat) (draft : Draft)
    {out : Outcome} {log : Array Diagnostic} (h : Tells out log s.log) :
    Ends (textFrom fuel stop closer start draft out) s fun r s' => Tells r.outcome log s'.log := by
  induction fuel generalizing s closer start draft out log with
  | zero => exact h
  | succ fuel ih =>
    simp only [textFrom, ends_bind, ends_cursor]
    split
    · exact h
    · split
      · exact h
      · rw [ends_bind]
        have hinner (style : Style) (s : ParserState) :
            Ends (textFrom fuel stop (some style) s.lexer.cursor.offset {} .parsed) s
              fun r s' => Tells r.outcome s.log s'.log :=
          ih (some style) s.lexer.cursor.offset {} .refl
        refine (tells_textStep stop draft hinner).imp fun r s' hr => ?_
        exact ih closer start r.1 (h.trans hr)

theorem tells_lineText : Ends lineText s fun r s' => Tells r.2.2 s.log s'.log := by
  simp only [lineText, ends_bind, ends_get, ends_textEnd, ends_offset]
  exact tells_textFrom _ none _ {} .refl

end Parse

/-! ## Lines that hold something -/

namespace Draft

theorem isEmpty_write (d : Draft) (b : UInt8) : (d.write b).isEmpty = false := by
  simp [isEmpty, write]

theorem isEmpty_insert (d : Draft) (e : Inline) : (d.insert e).isEmpty = false := by
  simp [isEmpty, insert]

theorem isEmpty_append (d : Draft) {bs : Bytes} (h : 0 < bs.length) :
    (d.append bs).isEmpty = false := by
  have hrun : (d.run ++ bs).isEmpty = false := by
    rw [Array.isEmpty_eq_false_iff]
    intro hempty
    have hlist := congrArg Array.toList hempty
    rw [Array.toList_appendList] at hlist
    exact absurd hlist (List.append_ne_nil_of_right_ne_nil _ (List.length_pos_iff.mp h))
  rw [isEmpty, append, hrun, Bool.and_false]

theorem isEmpty_text (d : Draft) (span : Span) : (d.text span).isEmpty = d.isEmpty := by
  simp [text, Text.isEmpty, isEmpty]

end Draft

/-- A step of reading keeps what the draft holds, and makes it hold something unless there was a
problem or a divert was taken out. -/
structure Gives (draft : Draft) (s : ParserState) (r : Draft × Outcome) (s' : ParserState) :
    Prop where
  kept : draft.isEmpty = false → r.1.isEmpty = false
  gave : r.1.isEmpty = false ∨ r.2 ≠ .parsed ∨ s.lifted.size < s'.lifted.size

theorem Gives.of_full {draft : Draft} {s s' : ParserState} {r : Draft × Outcome}
    (h : r.1.isEmpty = false) : Gives draft s r s' :=
  ⟨fun _ => h, .inl h⟩

namespace Parse

variable {s : ParserState} {stop : Nat} {inner : Style → Parse TextResult}

theorem gives_textStep (h : Stands f s) (hsize : s.lexer.cursor.offset < f.size) (stop : Nat)
    (draft : Draft) : Ends (textStep inner stop draft) s (Gives draft s) := by
  -- each start adds to the draft, and a divert either lifts one or is read as wrong
  have hfits := Opening.ofCursor_fits h.cursor hsize stop
  simp only [textStep, ends_bind, ends_cursor]
  cases ho : Opening.ofCursor s.lexer.cursor stop with
  | literal => exact .of_full (draft.isEmpty_write _)
  | join => exact .of_full (draft.isEmpty_insert _)
  | escape =>
    simp only
    split
    · exact .of_full (draft.isEmpty_write _)
    · exact .of_full (draft.isEmpty_write _)
  | styled style =>
    simp only [ends_bind]
    refine ends_any.imp fun r s' _ => ?_
    cases r with
    | some p => exact .of_full (draft.isEmpty_insert _)
    | none => exact .of_full (draft.isEmpty_append style.delimiter_pos)
  | code =>
    simp only [ends_bind]
    refine ends_any.imp fun r s' _ => ?_
    cases r with
    | some e => exact .of_full (draft.isEmpty_insert _)
    | none => exact .of_full (draft.isEmpty_append (by decide))
  | script =>
    simp only [ends_bind]
    refine ends_any.imp fun r s' _ => ?_
    cases r with
    | some e => exact .of_full (draft.isEmpty_insert _)
    | none => exact .of_full (draft.isEmpty_append (by decide))
  | divert =>
    rw [ho] at hfits
    simp only [ends_bind]
    refine (lifts_inlineDivert h stop hfits).imp fun o s' hr => ?_
    have hgave : o ≠ .parsed ∨ s.lifted.size < s'.lifted.size :=
      (Decidable.em (o = .parsed)).symm.imp_right hr.2
    split
    · exact ⟨id, .inr hgave⟩
    · exact ⟨id, .inr hgave⟩

/-- Reading on keeps what the draft holds, and problems as well. -/
theorem retains_textFrom (hstop : stop ≤ f.size) (fuel : Nat) (h : Stands f s)
    (closer : Option Style) (start : Nat) {draft : Draft} (hd : draft.Exact f) (out : Outcome) :
    Ends (textFrom fuel stop closer start draft out) s fun r _ =>
      (draft.isEmpty = false → r.text.isEmpty = false) ∧ (out ≠ .parsed → r.outcome ≠ .parsed) := by
  induction fuel generalizing s closer start draft out with
  | zero => exact ⟨fun hfull => (draft.isEmpty_text _).trans hfull, id⟩
  | succ fuel ih =>
    have hempty : Draft.Exact f {} := by simp [Draft.Exact, Inline.scriptsOf]
    simp only [textFrom, ends_bind, ends_cursor]
    split
    · exact ⟨fun hfull => (draft.isEmpty_text _).trans hfull, id⟩
    · next hlt =>
      split
      · exact ⟨fun hfull => (draft.isEmpty_text _).trans hfull, id⟩
      · rw [ends_bind]
        have hlt := Nat.lt_of_not_le hlt
        have hstand (style : Style) (s : ParserState) (hs : Stands f s) :=
          ends_textFrom hstop fuel hs (some style) s.lexer.cursor.offset hempty .parsed
        refine ((ends_textStep h hlt hstop hd hstand).and
          (gives_textStep h (Nat.lt_of_lt_of_le hlt hstop) stop draft)).imp fun r s' hr => ?_
        refine (ih hr.1.1.stands closer start hr.1.2 (out.worse r.2)).imp fun r' s'' hr' => ?_
        refine ⟨fun hfull => hr'.1 (hr.2.kept hfull), fun hout => hr'.2 fun hworse => ?_⟩
        exact hout (Outcome.worse_eq_parsed.mp hworse).1

/-- A line that is not at its end gives text or diverts if there are no problems with it. -/
theorem gives_lineText (h : Stands f s) (hlt : s.lexer.cursor.offset < s.lexer.textEnd) :
    Ends lineText s fun r _ => r.2.2 = .parsed → r.1.isEmpty = false ∨ r.2.1 ≠ [] := by
  have hstop := (Lexer.textEnd_within h.cursor).2
  have hempty : Draft.Exact f {} := by simp [Draft.Exact, Inline.scriptsOf]
  have hread (fuel start : Nat) :
      Ends (textFrom (fuel + 1) s.lexer.textEnd none start {} .parsed) s fun r s' =>
        r.outcome = .parsed → r.text.isEmpty = false ∨ s.lifted.size < s'.lifted.size := by
    simp only [textFrom, ends_bind, ends_cursor]
    rw [if_neg (Nat.not_le.mpr hlt), Option.filter_none, ends_bind]
    have hstand (style : Style) (s : ParserState) (hs : Stands f s) :=
      ends_textFrom hstop fuel hs (some style) s.lexer.cursor.offset hempty .parsed
    refine ((ends_textStep h hlt hstop hempty hstand).and
      (gives_textStep h (Nat.lt_of_lt_of_le hlt hstop) _ _)).imp fun r s₁ h₁ => ?_
    refine ((retains_textFrom hstop fuel h₁.1.1.stands none start h₁.1.2 _).and
      (lifts_textFrom hstop fuel h₁.1.1.stands none start h₁.1.2 _)).imp fun r' s₂ h₂ hparsed => ?_
    have hsize := h₂.2.size_le
    rcases h₁.2.gave with hfull | hproblem | hgrown
    · exact .inl (h₂.1.1 hfull)
    · exact absurd hparsed (h₂.1.2 fun hworse => hproblem (Outcome.worse_eq_parsed.mp hworse).2)
    · exact .inr (Nat.lt_of_lt_of_le hgrown hsize)
  simp only [lineText, ends_bind, ends_get, ends_textEnd, ends_offset]
  refine (hread _ _).imp fun r s₁ h₁ hparsed => ?_
  rcases h₁ hparsed with hfull | hgrown
  · refine (Decidable.em (s₁.lifted.toList.drop s.lifted.size = [])).imp (fun hnone => ?_) id
    show (if (s₁.lifted.toList.drop s.lifted.size).isEmpty then r.text else _).isEmpty = false
    rw [hnone]
    exact hfull
  · refine .inr fun hnone => ?_
    have hlength := List.drop_eq_nil_iff.mp hnone
    rw [Array.length_toList] at hlength
    omega

end Parse

namespace Parse

variable {s : ParserState}

/-! ## Attributes -/

theorem tells_parameters : Ends parameters s fun r s' => Tells r.2 s.log s'.log := by
  simp only [parameters, ends_bind, ends_lexer]
  split
  · exact .refl
  · exact .error Outcome.recovered_ne_parsed

/-- Where there is no attribute nothing is told. -/
theorem tells_takeAttribute :
    Ends takeAttribute s fun r s' => Tells (r.elim .parsed (·.2)) s.log s'.log := by
  simp only [takeAttribute, ends_bind, ends_cursor]
  split
  · exact .refl
  · rw [ends_bind, ends_moveTo]
    split
    · rw [ends_bind]
      exact tells_parameters
    · exact .refl

theorem tells_attributeLine :
    Ends attributeLine s fun r s' => Tells (r.elim .parsed (·.2)) s.log s'.log := by
  simp only [attributeLine, ends_bind, ends_get, ends_mapLexer]
  refine tells_takeAttribute.imp fun r s₁ h₁ => ?_
  cases r with
  | none => exact .refl
  | some found =>
    simp only [ends_bind, ends_offset, ends_textEnd]
    refine Ends.imp (P := fun _ s₂ => s₂.log = s₁.log) rfl fun _ s₂ h₂ => ?_
    rw [← h₂] at h₁
    split
    · exact h₁
    · exact .refl

theorem tells_attributeLines (fuel depth : Nat) :
    Ends (attributeLines fuel depth) s fun r s' => Tells r.2 s.log s'.log := by
  induction fuel generalizing s with
  | zero => exact .refl
  | succ fuel ih =>
    simp only [attributeLines, ends_bind, ends_mapLexer, ends_lexer]
    split
    · exact .refl
    · rw [ends_bind]
      refine tells_attributeLine.imp fun r s₁ h₁ => ?_
      cases r with
      | none => exact h₁
      | some found =>
        rw [ends_bind]
        exact ih.imp fun r' s₂ h₂ => h₁.trans h₂

/-! ## Single blocks -/

theorem log_eat (b : UInt8) : Ends (eat b) s fun _ s' => s'.log = s.log := by
  rw [eat, ends_bind, ends_cursor]
  cases s.lexer.cursor.eatByte? b with
  | none => exact rfl
  | some c => exact rfl

theorem log_restOfLine : Ends restOfLine s fun _ s' => s'.log = s.log := by
  simp only [restOfLine, ends_bind, ends_lexer, ends_moveTo]
  split
  · exact rfl
  · exact rfl

theorem log_eatLineEnding : Ends eatLineEnding s fun _ s' => s'.log = s.log := rfl

theorem log_finishLine : Ends finishLine s fun _ s' => s'.log = s.log := rfl

theorem tells_codeBlock : Ends codeBlock s fun r s' => Tells r.2 s.log s'.log := by
  simp only [codeBlock, ends_bind, ends_cursor, ends_mapCursor]
  refine log_restOfLine.imp fun t s₁ h₁ => ?_
  refine log_eatLineEnding.imp fun _ s₂ h₂ => ?_
  have hlog : s₂.log = s.log := h₂.trans h₁
  rw [← hlog]
  split
  · exact .refl
  · exact .error Outcome.recovered_ne_parsed

theorem tells_matchCondition : Ends matchCondition s fun r s' => Tells r.2 s.log s'.log := by
  simp only [matchCondition, ends_bind, ends_lexer]
  split
  · exact .refl
  · exact .error Outcome.recovered_ne_parsed

theorem tells_matchMode (modifier : Bytes) (span : Span) :
    Ends (matchMode modifier span) s fun r s' => Tells r.2 s.log s'.log := by
  rw [matchMode]
  split
  · exact .refl
  split
  · exact .refl
  split
  · exact .refl
  · exact .error Outcome.recovered_ne_parsed

/-- A line that holds something fails only if there was a problem. -/
theorem tells_paragraph (h : Stands f s) (hlt : s.lexer.cursor.offset < s.lexer.textEnd) :
    Ends paragraph s fun r s' => Tells r.2 s.log s'.log := by
  simp only [paragraph, ends_bind, ends_cursor, ends_offset]
  refine (tells_lineText.and (gives_lineText h hlt)).imp fun r s₁ h₁ => ?_
  obtain ⟨text, diverts, o⟩ := r
  refine log_finishLine.imp fun _ s₂ h₂ => ?_
  rw [← h₂] at h₁
  simp only [ends_pure]
  generalize hblocks : (if text.isEmpty then _ else _ : List Block) ++ diverts.map .divert = blocks
  by_cases hnone : blocks.isEmpty = true
  · rw [if_pos hnone]
    refine h₁.1.worsen fun hparsed => ?_
    rw [← hblocks] at hnone
    rcases h₁.2 hparsed with htext | hdiverts
    · simp [htext] at hnone
    · simp [hdiverts] at hnone
  · rw [if_neg hnone]
    exact h₁.1

/-- A parser of blocks whose outcome tells whether it reported errors, started anywhere in a
file. -/
def Truthful (f : File) (body : BodyParser) : Prop :=
  ∀ depth stop s, Stands f s → Ends (body depth stop) s fun r s' => Tells r.2 s.log s'.log

variable {body : BodyParser}

theorem tells_header (h : Stands f s) (depth : Nat) (hbody : Truthful f body) :
    Ends (header body depth) s fun r s' => Tells r.2 s.log s'.log := by
  have hskip := h.ahead (d := s.log) (l := { s.lexer with cursor := s.lexer.cursor.skip _ })
    (Cursor.skip_ahead h.cursor (Cursor.runLength_bound h.cursor (· = '#')))
  simp only [header, ends_bind, ends_cursor, ends_mapCursor, ends_offset]
  refine ((ends_eat hskip.stands ' ').and (log_eat ' ')).imp fun _ s₁ h₁ => ?_
  refine ((ends_restOfLine h₁.1.stands).and log_restOfLine).imp fun t s₂ h₂ => ?_
  refine ((ends_eatLineEnding h₂.1.stands).and log_eatLineEnding).imp fun _ s₃ h₃ => ?_
  have hlog : s₃.log = s.log := h₃.2.trans (h₂.2.trans h₁.2)
  rw [← hlog]
  exact hbody depth _ s₃ h₃.1.stands

theorem tells_branch (h : Stands f s) (depth : Nat) (hp : s.lexer.cursor.hasPrefix [0x40, 0x7B])
    (hbody : Truthful f body) : Ends (branch body depth) s fun r s' => Tells r.2 s.log s'.log := by
  simp only [branch, ends_bind, ends_cursor, ends_offset]
  refine ((ends_matchCondition h hp).and tells_matchCondition).imp fun condition s₁ h₁ => ?_
  refine ((ends_restOfLine h₁.1.1.stands).and log_restOfLine).imp fun t s₂ h₂ => ?_
  refine ((ends_matchMode h₂.1.stands _ _).and (tells_matchMode _ _)).imp fun mode s₃ h₃ => ?_
  refine ((ends_eatLineEnding h₃.1.stands).and log_eatLineEnding).imp fun _ s₄ h₄ => ?_
  refine (hbody (depth + 1) 0 s₄ h₄.1.stands).imp fun r s₅ h₅ => ?_
  rw [h₄.2] at h₅
  exact (h₁.2.trans (h₂.2 ▸ h₃.2)).trans h₅

/-! ## Choices -/

theorem tells_choiceAttribute (head : ChoiceHead) (a : Attribute) {log : Array Diagnostic}
    (h : Tells head.outcome log s.log) :
    Ends (choiceAttribute head a) s fun head' s' => Tells head'.outcome log s'.log := by
  rw [choiceAttribute]
  split
  · split
    · exact h.trans (.error Outcome.recovered_ne_parsed)
    · exact h
  · exact h

theorem tells_choiceHead (fuel : Nat) (head : ChoiceHead) {log : Array Diagnostic}
    (h : Tells head.outcome log s.log) :
    Ends (choiceHead fuel head) s fun head' s' => Tells head'.outcome log s'.log := by
  induction fuel generalizing s head with
  | zero => exact h
  | succ fuel ih =>
    simp only [choiceHead, ends_bind]
    refine tells_takeAttribute.imp fun r s₁ h₁ => ?_
    rcases r with _ | ⟨a, o⟩
    · exact h.well h₁
    · simp only [ends_bind]
      refine (tells_choiceAttribute _ a (h.trans h₁)).imp fun head' s₂ h₂ => ?_
      exact ih head' h₂

theorem tells_choice (h : Stands f s) (depth : Nat) (hbody : Truthful f body) :
    Ends (choice body depth) s fun r s' => Tells r.2 s.log s'.log := by
  have hdash := h.ahead (d := s.log) (l := { s.lexer with cursor := s.lexer.cursor.next })
    (Cursor.next_ahead h.cursor)
  simp only [choice, ends_bind, ends_cursor, ends_mapCursor, ends_offset]
  refine ((ends_skipSpaces hdash.stands).and
    (show Ends skipSpaces _ fun _ s' => s'.log = s.log from rfl)).imp fun _ s₁ h₁ => ?_
  have hstart : Tells (ChoiceHead.outcome {}) s.log s₁.log := h₁.2 ▸ .refl
  refine ((ends_choiceHead _ h₁.1.stands ChoiceHead.known_empty).and
    (tells_choiceHead _ {} hstart)).imp fun head s₂ h₂ => ?_
  refine ((ends_lineText h₂.1.1.stands).and tells_lineText).imp fun r s₃ h₃ => ?_
  refine ((ends_finishLine h₃.1.1.stands).and log_finishLine).imp fun _ s₄ h₄ => ?_
  have hline : Tells (head.outcome.worse r.2.2) s.log s₄.log := h₄.2 ▸ h₂.2.trans h₃.2
  have hbelow (s₅ : ParserState) (h₅ : Stands f s₅) (hwell : Tells .parsed s₄.log s₅.log) :
      Ends (body (depth + 1) 0) s₅ fun b s₆ =>
        Tells ((head.outcome.worse r.2.2).worse b.2) s.log s₆.log :=
    (hbody (depth + 1) 0 s₅ h₅).imp fun b s₆ h₆ => (hline.well hwell).trans h₆
  split
  · exact hbelow _ (h₄.1.stands.ahead (.refl h₄.1.stands.cursor)).stands .warning
  · exact hbelow _ h₄.1.stands .refl

theorem log_nextChoice (depth : Nat) : Ends (nextChoice depth) s fun _ s' => s'.log = s.log := by
  simp only [nextChoice, ends_bind, ends_mapLexer, ends_lexer]
  split
  · exact rfl
  · exact rfl

theorem tells_choiceList (fuel depth : Nat) (h : Stands f s)
    (hstand : ∀ depth stop s, Stands f s → Ends (body depth stop) s (ReadBlocks f s))
    (hbody : Truthful f body) :
    Ends (choiceList body fuel depth) s fun r s' => Tells r.2 s.log s'.log := by
  induction fuel generalizing s with
  | zero => exact .refl
  | succ fuel ih =>
    simp only [choiceList, ends_bind]
    refine ((ends_choice h depth hstand).and (tells_choice h depth hbody)).imp fun r s₁ h₁ => ?_
    have hs₁ := h₁.1.1.stands
    refine ((ends_nextChoice hs₁ depth).and (log_nextChoice depth)).imp fun more s₂ h₂ => ?_
    rw [← h₂.2] at h₁
    split
    · rw [ends_bind]
      exact (ih h₂.1.stands).imp fun r' s₃ h₃ => h₁.2.trans h₃
    · exact h₁.2

/-! ## Sequences -/

theorem tells_openedBlock (h : Stands f s) (depth : Nat)
    (hlt : s.lexer.cursor.offset < s.lexer.textEnd)
    (hstand : ∀ depth stop s, Stands f s → Ends (body depth stop) s (ReadBlocks f s))
    (hbody : Truthful f body) :
    Ends (openedBlock body depth) s fun r s' => Tells r.2 s.log s'.log := by
  have hfits := BlockOpening.ofCursor_fits s.lexer.cursor
  rw [openedBlock, ends_bind, ends_cursor]
  generalize BlockOpening.ofCursor s.lexer.cursor = o at hfits ⊢
  cases o with
  | header =>
    rw [ends_bind]
    exact tells_header h depth hbody
  | code =>
    rw [ends_bind]
    exact tells_codeBlock
  | branch =>
    rw [ends_bind]
    exact tells_branch h depth hfits hbody
  | choices =>
    rw [ends_bind]
    simp only [choices, ends_bind, ends_cursor]
    exact tells_choiceList _ depth h hstand hbody
  | paragraph => exact tells_paragraph h hlt

theorem tells_block (h : Stands f s) (depth : Nat)
    (hstand : ∀ depth stop s, Stands f s → Ends (body depth stop) s (ReadBlocks f s))
    (hbody : Truthful f body) : Ends (block body depth) s fun r s' => Tells r.2 s.log s'.log := by
  simp only [block, ends_bind, ends_cursor, ends_lexer]
  have hfuel : f.size
      < s.lexer.cursor.offset + (s.lexer.cursor.limit - s.lexer.cursor.offset + 1) := by
    rw [h.cursor.limit]
    omega
  refine (((ends_attributeLines _ depth h).and (attributeLines_stops _ depth h hfuel)).and
    (tells_attributeLines _ depth)).imp fun r s₁ h₁ => ?_
  split
  · split
    · exact h₁.2.well .warning
    · exact h₁.2
  · next hgo =>
    simp only [Bool.or_eq_true, not_or, Bool.not_eq_true] at hgo
    have hs₁ := h₁.1.1.1.stands
    have hdark : s₁.lexer.isBlankLine = false := by simpa [hgo.1] using h₁.1.2
    have hindent := hs₁.ahead (d := s₁.log) (Lexer.skipIndent_ahead hs₁.cursor)
    simp only [ends_bind, ends_mapLexer]
    refine (tells_openedBlock hindent.stands depth ?_ hstand hbody).imp fun r' s₂ h₂ => ?_
    · exact Lexer.lt_textEnd_skipIndent hs₁.cursor hdark
    · exact h₁.2.trans h₂

theorem tells_sequence (fuel : Nat) : Truthful f (sequence fuel) := by
  induction fuel with
  | zero => exact fun _ _ _ _ => .refl
  | succ fuel ih =>
    intro depth stop s h
    have hstand (depth stop : Nat) (s : ParserState) (hs : Stands f s) :=
      ends_sequence fuel depth stop hs
    have hblank := h.ahead (d := s.log) (Lexer.skipBlankLines_ahead h.cursor)
    simp only [sequence, ends_bind, ends_mapLexer, ends_lexer]
    split
    · exact .refl
    · simp only [ends_bind, ends_offset]
      refine ((ends_block hblank.stands depth hstand).and
        (tells_block hblank.stands depth hstand ih)).imp fun r s₁ h₁ => ?_
      have hs₁ := h₁.1.1.stands
      have hrest (s₂ : ParserState) (h₂ : Stands f s₂) (hlog : s₂.log = s₁.log) :
          Ends (sequence fuel depth stop) s₂ fun r' s₃ => Tells (r.2.worse r'.2) s.log s₃.log :=
        (ih depth stop s₂ h₂).imp fun r' s₃ h₃ => h₁.2.trans (hlog ▸ h₃)
      split
      · rw [ends_bind]
        exact ((ends_finishLine hs₁).and log_finishLine).imp fun _ s₂ h₂ =>
          hrest s₂ h₂.1.stands h₂.2
      · exact hrest s₁ hs₁ rfl

end Parse

/-! ## Files -/

theorem errorCount_eq_zero {log : Array Diagnostic} :
    errorCount log = 0 ↔ ∀ d ∈ log.toList, d.severity ≠ .error := by
  simp [errorCount]

/-- Of several errors the first one is kept. -/
theorem error_of_keepErrors (limit : Nat) {ds : List Diagnostic}
    (h : ∀ d ∈ keepErrors limit ds, d.severity ≠ .error) : ∀ d ∈ ds, d.severity ≠ .error := by
  rw [keepErrors] at h
  split at h
  · exact h
  · next hlimit =>
    obtain ⟨n, rfl⟩ := Nat.exists_eq_succ_of_ne_zero hlimit
    induction ds with
    | nil => exact List.forall_mem_nil _
    | cons d ds ih =>
      unfold keepErrors.go at h
      split at h
      · next hother =>
        obtain ⟨hd, hds⟩ := List.forall_mem_cons.mp h
        exact List.forall_mem_cons.mpr ⟨hd, ih hds⟩
      · next herror =>
        obtain ⟨hd, -⟩ := List.forall_mem_cons.mp h
        exact absurd hd (by simpa using herror)

/-- A file of fewer than 2^32 bytes is parsed without problems exactly if no error is reported about
it, however many errors are shown. -/
theorem outcome_parsed_iff (f : File) (layout : Layout) (maxErrors : Nat)
    (small : f.size < Word.modulus) :
    (parse f layout maxErrors).outcome = .parsed
      ↔ ∀ d ∈ (parse f layout maxErrors).diagnostics, d.severity ≠ .error := by
  have start := Stands.ofFile (f := f) layout small
  have htells := Parse.tells_sequence ((Lexer.ofFile f layout).cursor.limit + 1) 0 0 _ start
  have hnone : errorCount #[] = 0 := rfl
  refine htells.parsed_iff.trans ?_
  show errorCount _ = errorCount #[] ↔ _
  rw [hnone, errorCount_eq_zero]
  exact ⟨fun h d hd => h d (keepErrors_subset _ _ hd), error_of_keepErrors maxErrors⟩

/-- The error inside the italics is undone with them, but not the one about them. -/
theorem outcome_parsed_iff_undone :
    let f := File.ofBytes 0 "a.story" "*a **\n"
    f.size < Word.modulus
      ∧ (parse f).diagnostics.map (fun d => (d.severity, d.span.start)) = [(.error, 0), (.error, 3)]
      ∧ (parse f).outcome ≠ .parsed := by
  intro f
  have small : f.size < Word.modulus := by decide +kernel
  refine ⟨small, by decide +kernel, fun hparsed => ?_⟩
  exact absurd ((outcome_parsed_iff f {} 0 small).mp hparsed) (by decide +kernel)

end Storyline.Markup
