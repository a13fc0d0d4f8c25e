import Storyline.Proofs.Source.Bounds
import Storyline.Markup.Parser.State

/-!
# Running the markup parser

`Parse.Ends` says what holds of the result and of the state after a run from a given state; runs in
sequence are judged one after the other by `ends_bind`.

`Stands` is the invariant of the state: the cursor is inside the file and every divert that waits to
be placed is inside it too.  `Reaches` relates the state before a run to the one after it: the
invariant holds there, and the cursor was not moved back.
-/

namespace Storyline.Markup

/-! ## What holds after a run -/

namespace Parse

variable {α β : Type} {s : ParserState}

/-- What holds of the result and the state that a run from `s` ends with. -/
def Ends (m : Parse α) (s : ParserState) (post : α → ParserState → Prop) : Prop :=
  post (m.run s).1 (m.run s).2

theorem Ends.imp {m : Parse α} {P Q : α → ParserState → Prop} (h : Ends m s P)
    (imp : ∀ a s', P a s' → Q a s') : Ends m s Q :=
  imp _ _ h

theorem Ends.and {m : Parse α} {P Q : α → ParserState → Prop} (h : Ends m s P) (k : Ends m s Q) :
    Ends m s fun a s' => P a s' ∧ Q a s' :=
  ⟨h, k⟩

theorem ends_any {m : Parse α} : Ends m s fun _ _ => True := trivial

/-- A run ends with what it gives. -/
theorem ends_run (m : Parse α) (s : ParserState) : Ends m s fun a s' => m.run s = (a, s') := rfl

variable {Q : α → ParserState → Prop}

@[simp] theorem ends_bind {m : Parse β} {k : β → Parse α} :
    Ends (m >>= k) s Q ↔ Ends m s fun a s' => Ends (k a) s' Q := Iff.rfl

@[simp] theorem ends_pure {a : α} : Ends (pure a) s Q ↔ Q a s := Iff.rfl

@[simp] theorem ends_get {Q : ParserState → ParserState → Prop} : Ends get s Q ↔ Q s s := Iff.rfl

@[simp] theorem ends_set {s' : ParserState} {Q : PUnit → ParserState → Prop} :
    Ends (set s') s Q ↔ Q ⟨⟩ s' := Iff.rfl

@[simp] theorem ends_modify {g : ParserState → ParserState} {Q : PUnit → ParserState → Prop} :
    Ends (modify g) s Q ↔ Q ⟨⟩ (g s) := Iff.rfl

@[simp] theorem ends_lexer {Q : Lexer → ParserState → Prop} : Ends lexer s Q ↔ Q s.lexer s := Iff.rfl

@[simp] theorem ends_cursor {Q : Cursor → ParserState → Prop} :
    Ends cursor s Q ↔ Q s.lexer.cursor s := Iff.rfl

@[simp] theorem ends_offset {Q : Nat → ParserState → Prop} :
    Ends offset s Q ↔ Q s.lexer.cursor.offset s := Iff.rfl

@[simp] theorem ends_textEnd {Q : Nat → ParserState → Prop} :
    Ends textEnd s Q ↔ Q s.lexer.textEnd s := Iff.rfl

@[simp] theorem ends_mapLexer {g : Lexer → Lexer} {Q : Unit → ParserState → Prop} :
    Ends (mapLexer g) s Q ↔ Q () { s with lexer := g s.lexer } := Iff.rfl

@[simp] theorem ends_mapCursor {g : Cursor → Cursor} {Q : Unit → ParserState → Prop} :
    Ends (mapCursor g) s Q ↔
      Q () { s with lexer := { s.lexer with cursor := g s.lexer.cursor } } := Iff.rfl

@[simp] theorem ends_moveTo {n : Nat} {Q : Unit → ParserState → Prop} :
    Ends (moveTo n) s Q ↔ Q () { s with lexer := s.lexer.moveTo n } := Iff.rfl

@[simp] theorem ends_report {d : Diagnostic} {Q : Unit → ParserState → Prop} :
    Ends (report d) s Q ↔ Q () { s with log := s.log.push d } := Iff.rfl

@[simp] theorem ends_complain {code : Code} {start stop : Nat} {message : Bytes}
    {Q : Unit → ParserState → Prop} : Ends (complain code start stop message) s Q ↔
      Q () { s with log := s.log.push (.error code (s.lexer.cursor.spanAt start stop) message) } :=
  Iff.rfl

@[simp] theorem ends_unclosed {code : Code} {start width : Nat} {Q : Unit → ParserState → Prop} :
    Ends (unclosed code start width) s Q ↔
      Ends (complain code start (start + width) "missing closing symbol") s Q := Iff.rfl

end Parse

/-! ## The invariant -/

/-- A divert without attributes whose span and path lie inside a file. -/
structure Divert.In (d : Divert) (f : File) : Prop where
  span : d.span.In f
  path : ∀ p ∈ d.path, p.span.In f
  attrs : d.attrs = []

/-- A state whose cursor and collected diverts are inside a file. -/
structure Stands (f : File) (s : ParserState) : Prop where
  cursor : s.lexer.cursor.In f
  lifted : ∀ d ∈ s.lifted, d.In f

/-- A state that stands in the file, no earlier than another one. -/
structure Reaches (f : File) (s s' : ParserState) : Prop where
  stands : Stands f s'
  forward : s.lexer.cursor.offset ≤ s'.lexer.cursor.offset

variable {f : File} {s s' s'' : ParserState}

theorem Reaches.refl (h : Stands f s) : Reaches f s s := ⟨h, Nat.le_refl _⟩

theorem Reaches.trans (h : Reaches f s s') (h' : Reaches f s' s'') : Reaches f s s'' :=
  ⟨h'.stands, Nat.le_trans h.forward h'.forward⟩

/-- Moving the lexer ahead keeps the invariant, whatever is reported. -/
theorem Stands.ahead (h : Stands f s) {l : Lexer} {d : Array Diagnostic}
    (hl : Cursor.Ahead f s.lexer.cursor l.cursor) :
    Reaches f s { lexer := l, log := d, lifted := s.lifted } :=
  ⟨⟨hl.here, h.lifted⟩, hl.forward⟩

theorem Stands.moveTo (h : Stands f s) {d : Array Diagnostic} {n : Nat}
    (hle : s.lexer.cursor.offset ≤ n) (hn : n ≤ f.size) :
    Reaches f s { lexer := s.lexer.moveTo n, log := d, lifted := s.lifted } :=
  h.ahead (h.cursor.ahead hle hn)

/-! ## Lines -/

namespace Lexer

variable {l : Lexer}

theorem lineEnd_within (h : l.cursor.In f) : l.cursor.offset ≤ l.lineEnd ∧ l.lineEnd ≤ f.size :=
  Cursor.lineEnd_within h _

theorem textEnd_within (h : l.cursor.In f) : l.cursor.offset ≤ l.textEnd ∧ l.textEnd ≤ f.size := by
  have := lineEnd_within h
  rw [textEnd]
  split
  · next hc =>
    simp only [Bool.and_eq_true, decide_eq_true_eq] at hc
    omega
  · exact this

/-- Bytes at the cursor that take part in no line ending belong to the text of the line. -/
theorem le_textEnd (h : l.cursor.In f) {n : Nat} (hn : l.cursor.offset + n ≤ f.size)
    (plain : ∀ j < n, Cursor.isPlain (l.cursor.byteAt (l.cursor.offset + j))) :
    l.cursor.offset + n ≤ l.textEnd := by
  have hline : l.cursor.offset + n ≤ l.lineEnd := by
    refine Cursor.le_of_isPlain (lineEnd_within h).1 plain ?_
    rcases Cursor.lineEnd_byte h l.layout.isCrlf with he | hb
    · exact .inl (Nat.le_trans hn (Nat.le_of_eq he.symm))
    · exact .inr hb
  refine Cursor.le_of_isPlain (textEnd_within h).1 plain ?_
  rw [textEnd]
  split
  · next hc =>
    -- the byte before the line feed is a carriage return
    simp only [Bool.and_eq_true, decide_eq_true_eq] at hc
    exact .inr (by rw [hc.2]; rfl)
  · exact .inl hline

/-- Behind a byte that takes part in no line ending the text of the line goes on. -/
theorem succ_le_textEnd (h : l.cursor.In f) {b : UInt8} (hb : l.cursor.peek = b) (hz : b ≠ 0)
    (hplain : Cursor.isPlain b = true) : l.cursor.offset + 1 ≤ l.textEnd := by
  refine le_textEnd h (Cursor.lt_of_peek h hb hz) fun j hj => ?_
  obtain rfl : j = 0 := by omega
  rwa [Nat.add_zero, Cursor.byteAt_of_peek h hb hz]

theorem textEnd_le_lineEnd (l : Lexer) : l.textEnd ≤ l.lineEnd := by
  rw [textEnd]
  split
  · exact Nat.sub_le _ _
  · exact Nat.le_refl _

theorem moveTo_lineEnd_ahead (h : l.cursor.In f) :
    Cursor.Ahead f l.cursor (l.moveTo l.lineEnd).cursor :=
  h.ahead (lineEnd_within h).1 (lineEnd_within h).2

theorem lineEnding_bound (h : l.cursor.In f) (he : l.atLineEnding) :
    l.cursor.offset + l.layout.lineEnding.width ≤ f.size := by
  rw [atLineEnding] at he
  cases hl : l.layout.lineEnding with
  | lf =>
    simp only [hl, decide_eq_true_eq] at he
    exact Cursor.lt_of_peek h he (by decide)
  | crlf =>
    simp only [hl, Bool.and_eq_true, decide_eq_true_eq] at he
    have hlt := Cursor.lt_of_peek h he.1 (by decide)
    exact Cursor.lt_of_peekAt_one h hlt he.2 (by decide)

theorem eatLineEnding?_ahead (h : l.cursor.In f) {l' : Lexer} (he : l.eatLineEnding? = some l') :
    Cursor.Ahead f l.cursor l'.cursor := by
  rw [eatLineEnding?] at he
  split at he
  · cases he
  · next hc =>
    simp only [Bool.or_eq_true, not_or, Bool.not_eq_true', Bool.not_eq_true, Bool.not_eq_false]
      at hc
    cases he
    simp only [next, hc, if_true, Bool.false_eq_true, if_false]
    exact Cursor.skip_ahead h (lineEnding_bound h hc.2)

theorem eatLineEnding_ahead (h : l.cursor.In f) :
    Cursor.Ahead f l.cursor (l.eatLineEnding?.getD l).cursor := by
  cases he : l.eatLineEnding? with
  | none => exact .refl h
  | some l' => exact eatLineEnding?_ahead h he

theorem skipLine_ahead (h : l.cursor.In f) : Cursor.Ahead f l.cursor l.skipLine.cursor := by
  have hm := moveTo_lineEnd_ahead h
  rw [skipLine]
  cases he : (l.moveTo l.lineEnd).eatLineEnding? with
  | none => exact hm
  | some l' => exact hm.trans (eatLineEnding?_ahead hm.here he)

theorem skipBlankLines_ahead (h : l.cursor.In f) :
    Cursor.Ahead f l.cursor l.skipBlankLines.cursor := by
  rw [skipBlankLines]
  generalize l.cursor.limit - l.cursor.offset = count
  induction count generalizing l with
  | zero => exact .refl h
  | succ count ih =>
    rw [skipBlankLines.go]
    split
    · have hs := skipLine_ahead h
      exact hs.trans (ih hs.here)
    · exact .refl h

theorem skipIndent_ahead (h : l.cursor.In f) : Cursor.Ahead f l.cursor l.skipIndent.cursor :=
  Cursor.skipWhile_ahead h _

end Lexer

/-! ## Moving -/

namespace Parse

theorem ends_skipSpaces (h : Stands f s) : Ends skipSpaces s fun _ s' => Reaches f s s' :=
  h.ahead (Cursor.skipWhile_ahead h.cursor _)

theorem ends_eat (h : Stands f s) (b : UInt8) : Ends (eat b) s fun _ s' => Reaches f s s' := by
  rw [eat, ends_bind, ends_cursor]
  cases he : s.lexer.cursor.eatByte? b with
  | none => exact .refl h
  | some c => exact h.ahead (Cursor.eatByte?_ahead h.cursor he)

theorem ends_eatLineEnding (h : Stands f s) : Ends eatLineEnding s fun _ s' => Reaches f s s' :=
  h.ahead (Lexer.eatLineEnding_ahead h.cursor)

theorem ends_finishLine (h : Stands f s) : Ends finishLine s fun _ s' => Reaches f s s' :=
  h.ahead (Lexer.skipLine_ahead h.cursor)

theorem ends_restOfLine (h : Stands f s) : Ends restOfLine s fun _ s' => Reaches f s s' := by
  simp only [restOfLine, ends_bind, ends_lexer, ends_moveTo]
  split
  · exact h.ahead (Lexer.moveTo_lineEnd_ahead h.cursor)
  · exact h.ahead (Lexer.moveTo_lineEnd_ahead h.cursor)

end Parse

end Storyline.Markup
