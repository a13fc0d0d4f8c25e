import Mathlib
import Storyline.Proofs.Markup.Agreement
import Storyline.Proofs.Markup.LineEnds

/-!
# Reading goes on

What moves the markup parser on and what leaves it where it was.  Going to the next line leaves
every place but the end of the file, so that blank lines are skipped until a line with text or the
end is reached; and an attempt to read an attribute, a code span or a script that fails leaves the
state as it found it (`Attempts`).
-/

namespace Storyline.Markup

variable {f : File}

/-! ## Getting on -/

section Passes

variable {s s' s'' : ParserState}

/-- A state that stands in the file, later than another one. -/
structure Passes (f : File) (s s' : ParserState) : Prop where
  stands : Stands f s'
  onward : s.lexer.cursor.offset < s'.lexer.cursor.offset

theorem Passes.reaches (h : Passes f s s') : Reaches f s s' := ⟨h.stands, Nat.le_of_lt h.onward⟩

theorem Passes.trans (h : Passes f s s') (k : Reaches f s' s'') : Passes f s s'' :=
  ⟨k.stands, Nat.lt_of_lt_of_le h.onward k.forward⟩

theorem Reaches.passes (h : Reaches f s s') (k : Passes f s' s'') : Passes f s s'' :=
  ⟨k.stands, Nat.lt_of_le_of_lt h.forward k.onward⟩

theorem Reaches.onward (h : Reaches f s s') (hne : s'.lexer.cursor.offset ≠ s.lexer.cursor.offset) :
    Passes f s s' :=
  ⟨h.stands, Nat.lt_of_le_of_ne h.forward hne.symm⟩

theorem Stands.moveOn (h : Stands f s) {d : Array Diagnostic} {n : Nat}
    (hlt : s.lexer.cursor.offset < n) (hn : n ≤ f.size) :
    Passes f s { lexer := s.lexer.moveTo n, log := d, lifted := s.lifted } :=
  ⟨(h.moveTo (Nat.le_of_lt hlt) hn).stands, hlt⟩

theorem Stands.nextOn (h : Stands f s) (hlt : s.lexer.cursor.offset < f.size) :
    Passes f s { s with lexer := { s.lexer with cursor := s.lexer.cursor.next } } := by
  refine ⟨⟨(Cursor.next_ahead h.cursor).here, h.lifted⟩, ?_⟩
  show s.lexer.cursor.offset < s.lexer.cursor.next.offset
  rw [Cursor.next_offset h.cursor hlt]
  exact Nat.lt_succ_self _

theorem Stands.skipOn (h : Stands f s) {d : Array Diagnostic} {n : Nat} (hpos : 0 < n)
    (hn : s.lexer.cursor.offset + n ≤ f.size) :
    Passes f s { s with
      lexer := { s.lexer with cursor := s.lexer.cursor.skip n }
      log := d } := by
  refine ⟨(h.ahead (d := d) (Cursor.skip_ahead h.cursor hn)).stands, ?_⟩
  show s.lexer.cursor.offset < (s.lexer.cursor.skip n).offset
  rw [Cursor.skip_offset h.cursor hn]
  exact Nat.lt_add_of_pos_right hpos

/-- A parser starts at the front of the file. -/
theorem Stands.ofFile (layout : Layout) (small : f.size < Word.modulus) :
    Stands f { lexer := .ofFile f layout } :=
  ⟨⟨rfl, rfl, rfl, Nat.zero_le _, small⟩, fun d hd => by simp at hd⟩

/-- An attempt to read something: it got on, or nothing happened. -/
def Attempts {α : Type} (f : File) (s : ParserState) (r : Option α) (s' : ParserState) : Prop :=
  match r with
  | none => s' = s
  | some _ => Passes f s s'

end Passes

/-! ## Openings -/

/-- A run of marks starts at a mark. -/
theorem Cursor.runLength_marks {c : Cursor} (h : c.peek = '#') : 0 < c.runLength (· = '#') := by
  have hend : c.atEnd = false := by
    by_contra hend
    simp only [Bool.not_eq_false] at hend
    rw [Cursor.peek, if_pos hend] at h
    cases h
  rw [Cursor.peek, hend] at h
  have hlt : c.offset < c.limit := by simpa [Cursor.atEnd] using hend
  rw [Cursor.runLength, show c.limit - c.offset = (c.limit - c.offset - 1) + 1 by omega,
    Cursor.runFrom, if_pos (by simpa using h)]
  exact Nat.succ_pos _

theorem Style.delimiter_pos (style : Style) : 0 < style.delimiter.length := by
  cases style <;> decide

/-- The byte that headers and choices open with. -/
def BlockOpening.Marked (c : Cursor) : BlockOpening → Prop
  | .header => c.peek = '#'
  | .choices => c.peek = '-'
  | .code | .branch | .paragraph => True

theorem BlockOpening.ofCursor_marked (c : Cursor) : (BlockOpening.ofCursor c).Marked c := by
  rw [BlockOpening.ofCursor]
  split
  · assumption
  split
  · trivial
  split
  · trivial
  split
  · next hc =>
    simp only [Bool.and_eq_true, decide_eq_true_eq] at hc
    exact hc.1
  · trivial

theorem BlockOpening.peek_of_header {c : Cursor} (h : BlockOpening.ofCursor c = .header) :
    c.peek = '#' := by
  have hmarked := BlockOpening.ofCursor_marked c
  rwa [h] at hmarked

/-! ## Lines -/

namespace Lexer

variable {l : Lexer}

/-- A line ending comes next where its bytes are. -/
theorem atLineEnding_iff (h : l.cursor.In f) : l.atLineEnding = true ↔
    l.cursor.matchesAt l.cursor.offset l.cursor.limit
      (if l.layout.isCrlf then "\r\n" else "\n") = true := by
  have hfeed : ('\n' : UInt8) ≠ 0 := by decide
  have hreturn : ('\r' : UInt8) ≠ 0 := by decide
  rw [atLineEnding]
  cases hl : l.layout.lineEnding with
  | lf =>
    simp only [Layout.isCrlf, hl, decide_eq_true_eq, Cursor.peek_eq_iff hfeed]
    show _ ↔ (decide _ && decide _ && true) = true
    simp only [Bool.and_true, Bool.and_eq_true, decide_eq_true_eq]
    rfl
  | crlf =>
    simp only [Layout.isCrlf, hl, Bool.and_eq_true, decide_eq_true_eq, Cursor.peek_eq_iff hreturn]
    show _ ↔ (decide _ && decide _ && (decide _ && decide _ && true)) = true
    simp only [Bool.and_true, Bool.and_eq_true, decide_eq_true_eq]
    refine and_congr_right fun hat => Cursor.peekAt_one_eq_iff h hat.1 hfeed

/-- A line ends with the file or in front of a line ending. -/
theorem atLineEnding_lineEnd (h : l.cursor.In f) (hlt : l.lineEnd < f.size) :
    (l.moveTo l.lineEnd).atLineEnding = true := by
  have hmoved : (l.moveTo l.lineEnd).cursor.In f := h.moved (Nat.le_of_lt hlt)
  refine (atLineEnding_iff hmoved).mpr (Eq.trans (Cursor.matchesAt_moved _) ?_)
  exact (Cursor.matchesAt_lineEnd (h.limit ▸ hlt)).2

/-- The next line starts behind every place of this one. -/
theorem lt_skipLine (h : l.cursor.In f) (hlt : l.cursor.offset < f.size) :
    l.cursor.offset < l.skipLine.cursor.offset := by
  obtain ⟨hle, hwithin⟩ := lineEnd_within h
  have hmoved : (l.moveTo l.lineEnd).cursor.In f := h.moved hwithin
  rcases Nat.eq_or_lt_of_le hwithin with hend | hend
  · rw [skipLine, eatLineEnding?_of_atEnd]
    · exact Nat.lt_of_lt_of_eq hlt hend.symm
    · simp [moveTo, Cursor.atEnd, h.limit, hend]
  · have hat := atLineEnding_lineEnd h hend
    rw [skipLine, eatLineEnding?_of_atLineEnding (peek_moveTo h hend).1 hat, Option.getD_some]
    simp only
    rw [Cursor.skip_offset hmoved (lineEnding_bound hmoved hat)]
    have hwidth : 0 < (l.moveTo l.lineEnd).layout.lineEnding.width := by
      cases (l.moveTo l.lineEnd).layout.lineEnding <;> decide
    exact Nat.lt_of_le_of_lt hle (Nat.lt_add_of_pos_right hwidth)

theorem not_atEnd_iff (h : l.cursor.In f) : l.cursor.atEnd = false ↔ l.cursor.offset < f.size := by
  simp [Cursor.atEnd, h.limit]

/-- Blank lines are skipped up to the end of the file or a line that is not blank. -/
theorem skipBlankLines_stops (h : l.cursor.In f) :
    (!l.skipBlankLines.cursor.atEnd && l.skipBlankLines.isBlankLine) = false := by
  rw [skipBlankLines]
  have hcount : f.size ≤ l.cursor.offset + (l.cursor.limit - l.cursor.offset) := by
    rw [h.limit]
    omega
  generalize l.cursor.limit - l.cursor.offset = count at hcount
  induction count generalizing l with
  | zero =>
    have : l.cursor.atEnd = true := by simpa [Cursor.atEnd, h.limit] using hcount
    simp [skipBlankLines.go, this]
  | succ count ih =>
    rw [skipBlankLines.go]
    split
    · next hc =>
      simp only [Bool.and_eq_true, Bool.not_eq_true'] at hc
      have hstep := lt_skipLine h ((not_atEnd_iff h).mp hc.1)
      exact ih (skipLine_ahead h).here (by omega)
    · next hc => exact Bool.eq_false_iff.mpr hc

/-- Behind blank lines there are none to skip. -/
theorem skipBlankLines_of_stops (h : (!l.cursor.atEnd && l.isBlankLine) = false) :
    l.skipBlankLines = l := by
  rw [skipBlankLines]
  cases l.cursor.limit - l.cursor.offset with
  | zero => rfl
  | succ count => rw [skipBlankLines.go, if_neg (Bool.eq_false_iff.mp h)]

theorem skipBlankLines_idem (h : l.cursor.In f) :
    l.skipBlankLines.skipBlankLines = l.skipBlankLines :=
  skipBlankLines_of_stops (skipBlankLines_stops h)

/-- On a line that is not blank there is text behind the indentation. -/
theorem lt_textEnd_skipIndent (h : l.cursor.In f) (hline : l.isBlankLine = false) :
    l.skipIndent.cursor.offset < l.skipIndent.textEnd := by
  -- the first byte that is no blank is neither in the indentation nor at the end of the line
  generalize hdark :
    l.cursor.offset + (l.cursor.runLength fun b => Bytes.isGap b || b = '\r') = dark
  have hlt : dark < l.lineEnd := by
    rw [isBlankLine, hdark, decide_eq_false_iff_not] at hline
    exact Nat.lt_of_not_le hline
  have hend := (lineEnd_within h).2
  have hbyte : l.cursor.byteAt dark ≠ '\r' := by
    have hstop := Cursor.byteAt_runLength h (fun b => Bytes.isGap b || b = '\r')
      (by rw [hdark]; omega)
    rw [hdark, Bool.or_eq_false_iff, decide_eq_false_iff_not] at hstop
    exact hstop.2
  have hahead := skipIndent_ahead h
  have hindent : l.skipIndent.cursor.offset ≤ dark := by
    have hrun := Cursor.runFrom_le_of_imp (c := l.cursor) (p := Bytes.isGap)
      (q := fun b => Bytes.isGap b || b = '\r') (fun b hb => by simp [hb])
      (l.cursor.limit - l.cursor.offset) l.cursor.offset
    rw [← hdark]
    exact Nat.add_le_add_left hrun _
  have hmono : l.lineEnd ≤ l.skipIndent.lineEnd :=
    Cursor.lineEnd_mono h l.layout.isCrlf hahead.forward
  have hlast : l.skipIndent.cursor.byteAt dark = l.cursor.byteAt dark := rfl
  rw [textEnd]
  split
  · next hreturn =>
    simp only [Bool.and_eq_true, decide_eq_true_eq] at hreturn
    have hne : dark ≠ l.skipIndent.lineEnd - 1 := by
      rintro rfl
      exact hbyte (hlast ▸ hreturn.2)
    omega
  · omega

end Lexer

/-! ## Attempts -/

namespace Parse

variable {s : ParserState}

theorem attempts_codeSpan (h : Stands f s) (stop : Nat) :
    Ends (codeSpan stop) s (Attempts f s) := by
  have hnext := Cursor.next_ahead h.cursor
  simp only [codeSpan, ends_bind, ends_cursor]
  split
  · exact rfl
  · next close hc =>
    obtain ⟨hle, hfit⟩ := Cursor.positionOf?_within hnext.here hc
    exact h.moveOn (Nat.lt_succ_of_le (Nat.le_trans hnext.forward hle)) hfit

theorem attempts_scriptSpan (h : Stands f s) (stop : Nat) :
    Ends (scriptSpan stop) s (Attempts f s) := by
  have hnext := Cursor.next_ahead h.cursor
  simp only [scriptSpan, ends_bind, ends_cursor]
  split
  · exact rfl
  · next close hc =>
    obtain ⟨hle, hfit⟩ := Cursor.closeOffset?_within hnext.here hc
    exact h.moveOn (Nat.lt_succ_of_le (Nat.le_trans hnext.forward hle)) hfit

theorem attempts_takeAttribute (h : Stands f s) : Ends takeAttribute s (Attempts f s) := by
  simp only [takeAttribute, ends_bind, ends_cursor]
  split
  · exact rfl
  · next hc =>
    have hat : s.lexer.cursor.peek = '@' := by simp at hc; exact hc.1
    have hlt := Cursor.lt_of_peek h.cursor hat (by decide)
    have hend := Cursor.skipWhile_ahead (Cursor.next_ahead h.cursor).here isNamePart
    rw [Cursor.next_eq h.cursor hlt] at hend ⊢
    generalize hc' : Cursor.skipWhile _ isNamePart = c' at hend ⊢
    have hmoved : (s.lexer.moveTo c'.offset).cursor = c' := by rw [← hc']; rfl
    have hm := h.moveOn (d := s.log) hend.forward hend.here.within
    rw [ends_bind, ends_moveTo]
    split
    · next hp =>
      rw [ends_bind]
      exact (ends_parameters hm.stands (by rwa [hmoved])).imp fun r s' hr => hm.trans hr.1
    · exact hm

theorem attempts_attributeLine (h : Stands f s) : Ends attributeLine s (Attempts f s) := by
  have hindent := h.ahead (d := s.log) (Lexer.skipIndent_ahead h.cursor)
  simp only [attributeLine, ends_bind, ends_get, ends_mapLexer]
  refine (attempts_takeAttribute hindent.stands).imp fun r s₁ h₁ => ?_
  cases r with
  | none => exact rfl
  | some found =>
    have h₁ : Passes f _ s₁ := h₁
    simp only [ends_bind, ends_offset, ends_textEnd]
    refine (ends_skipSpaces h₁.stands).imp fun _ s₂ h₂ => ?_
    split
    · rw [ends_bind]
      refine (ends_finishLine h₂.stands).imp fun _ s₃ h₃ => ?_
      exact hindent.passes (h₁.trans (h₂.trans h₃))
    · exact rfl

/-- Attribute lines, and the blank lines behind each of them, are read up to a line that is not
blank or up to the end of the file. -/
theorem attributeLines_stops (fuel depth : Nat) (h : Stands f s)
    (hfuel : f.size < s.lexer.cursor.offset + fuel) :
    Ends (attributeLines fuel depth) s fun _ s' =>
      (!s'.lexer.cursor.atEnd && s'.lexer.isBlankLine) = false := by
  induction fuel generalizing s with
  | zero =>
    have := h.cursor.within
    omega
  | succ fuel ih =>
    have hblank := h.ahead (d := s.log) (Lexer.skipBlankLines_ahead h.cursor)
    have hstops := Lexer.skipBlankLines_stops h.cursor
    simp only [attributeLines, ends_bind, ends_mapLexer, ends_lexer]
    split
    · exact hstops
    · rw [ends_bind]
      refine (attempts_attributeLine hblank.stands).imp fun r s₁ h₁ => ?_
      cases r with
      | none =>
        rw [show s₁ = _ from h₁]
        exact hstops
      | some found =>
        have h₁ : Passes f s s₁ := hblank.passes h₁
        have := h₁.onward
        rw [ends_bind]
        exact ih h₁.stands (by omega)

/-! ## Steps that get on -/

theorem inlineDivert_onward (h : Stands f s) (stop : Nat)
    (hp : s.lexer.cursor.hasPrefix "<->" ∨ s.lexer.cursor.hasPrefix "->") :
    Ends (inlineDivert stop) s fun _ s' => s.lexer.cursor.offset < s'.lexer.cursor.offset := by
  simp only [inlineDivert, ends_bind, ends_cursor]
  have hc := h.cursor
  generalize s.lexer.cursor = c at hp hc ⊢
  generalize harrow : (if c.hasPrefix "<->" then { c with offset := c.offset + 3 } else c.skip 2)
    = arrow
  have honward : c.offset < arrow.offset := by
    rw [← harrow]
    split
    · exact Nat.lt_add_of_pos_right (by decide)
    · next ht =>
      have hskip : (c.skip 2).offset = c.offset + 2 :=
        Cursor.skip_offset hc (Cursor.hasPrefix_bound hc (hp.resolve_left ht))
      omega
  rw [ends_moveTo]
  split
  · show c.offset < max arrow.offset _ + _
    omega
  · show c.offset < max arrow.offset _ + _
    omega

theorem passes_inlineDivert (h : Stands f s) (stop : Nat)
    (hp : s.lexer.cursor.hasPrefix "<->" ∨ s.lexer.cursor.hasPrefix "->") :
    Ends (inlineDivert stop) s fun _ s' => Passes f s s' :=
  ((ends_inlineDivert h stop hp).and (inlineDivert_onward h stop hp)).imp
    fun _ _ hr => ⟨hr.1.stands, hr.2⟩

theorem passes_literalOpening (h : Stands f s) (draft : Draft) (code : Code) {delimiter : Bytes}
    (hpos : 0 < delimiter.length) (hfit : s.lexer.cursor.offset + delimiter.length ≤ f.size) :
    Ends (literalOpening draft code delimiter) s fun _ s' => Passes f s s' := by
  simp only [literalOpening, ends_bind, ends_offset, ends_unclosed, ends_complain, ends_mapCursor,
    ends_pure]
  exact h.skipOn hpos hfit

theorem passes_matchCondition (h : Stands f s) (hp : s.lexer.cursor.hasPrefix [0x40, 0x7B]) :
    Ends matchCondition s fun _ s' => Passes f s s' := by
  have hskip := Cursor.skip_ahead h.cursor (Cursor.hasPrefix_bound h.cursor hp)
  simp only [matchCondition, ends_bind, ends_lexer]
  split
  · next close hc =>
    obtain ⟨hle, hfit⟩ := Cursor.closeOffset?_within hskip.here hc
    exact h.moveOn (Nat.lt_succ_of_le (Nat.le_trans hskip.forward hle)) hfit
  · exact h.moveOn (Nat.lt_of_succ_lt (Lexer.textEnd_of_match h.cursor hp))
      (Lexer.textEnd_within h.cursor).2

theorem passes_finishLine (h : Stands f s) (hlt : s.lexer.cursor.offset < f.size) :
    Ends finishLine s fun _ s' => Passes f s s' :=
  ⟨(ends_finishLine h).stands, Lexer.lt_skipLine h.cursor hlt⟩

/-- Whatever it is, an attribute of a choice was read before. -/
theorem reaches_choiceAttribute (h : Stands f s) (head : ChoiceHead) (a : Attribute) :
    Ends (choiceAttribute head a) s fun _ s' => Reaches f s s' := by
  rw [choiceAttribute]
  split
  · split
    · exact h.ahead (.refl h.cursor)
    · exact .refl h
  · exact .refl h

/-- A further choice does not stand at the end of the file. -/
theorem nextChoice_lt_size (h : Stands f s) (depth : Nat) :
    Ends (nextChoice depth) s fun more s' => more = true → s'.lexer.cursor.offset < f.size := by
  have hblank := Lexer.skipBlankLines_ahead h.cursor
  simp only [nextChoice, ends_bind, ends_mapLexer, ends_lexer]
  split
  · next hc =>
    simp only [Bool.and_eq_true, decide_eq_true_eq] at hc
    have hmarked := BlockOpening.ofCursor_marked s.lexer.skipBlankLines.skipIndent.cursor
    rw [hc.2] at hmarked
    exact fun _ => Cursor.lt_of_peek (Lexer.skipIndent_ahead hblank.here).here hmarked (by decide)
  · exact fun hmore => absurd hmore Bool.false_ne_true

end Parse

end Storyline.Markup
