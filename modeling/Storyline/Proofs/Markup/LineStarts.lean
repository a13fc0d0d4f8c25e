import Storyline.Proofs.Markup.Layouts
import Storyline.Proofs.Markup.Progress

/-!
# Where lines start

A line starts with the file and behind every line ending (`startsLine`), and a place is on the line
that starts last in front of it (`lineStart`); how deep that line is indented is the `lineDepth` of
the place.  A place that can be reached from the start of a line without going past the line's end
is on that line (`OnLine.lineStart_eq`), so that a reader only has to be watched for not passing
the end.

Whatever is left unread of a line, the next one starts behind its ending, and behind the last line
there is only the end of the file (`Begins`).
-/

namespace Storyline

namespace Markup

/-- A lexer at a place of a file. -/
def lexerAt (f : File) (layout : Layout) (n : Nat) : Lexer := (Lexer.ofFile f layout).moveTo n

/-! ## The line of a place -/

/-- Whether a line starts at a place: at the start of the file, or behind a line ending. -/
def startsLine (f : File) (layout : Layout) (n : Nat) : Bool :=
  n = 0 || layout.lineEnding.width ≤ n
    && (lexerAt f layout (n - layout.lineEnding.width)).atLineEnding

/-- Where the line starts that a place is on. -/
def lineStart (f : File) (layout : Layout) : Nat → Nat
  | 0 => 0
  | n + 1 => if startsLine f layout (n + 1) then n + 1 else lineStart f layout n

/-- How many levels the line is indented that a place is on. -/
def lineDepth (f : File) (layout : Layout) (n : Nat) : Int :=
  (lexerAt f layout (lineStart f layout n)).indentDepth

/-- A place where a line starts, or the end of the file. -/
def Begins (f : File) (layout : Layout) (n : Nat) : Prop :=
  startsLine f layout n = true ∨ n = f.size

/-- A place on the line that starts at `start`, before its ending. -/
structure OnLine (f : File) (layout : Layout) (start n : Nat) : Prop where
  starts : startsLine f layout start = true
  behind : start ≤ n
  within : n ≤ f.size
  before : n ≤ (lexerAt f layout start).lineEnd

/-- A lexer in a file that is read in a layout. -/
structure Lexer.In (l : Lexer) (f : File) (layout : Layout) : Prop where
  cursor : l.cursor.In f
  layout : l.layout = layout

variable {f : File} {layout : Layout} {l : Lexer} {start n : Nat}

theorem lexerAt_in (small : f.size < Word.modulus) (hn : n ≤ f.size) :
    (lexerAt f layout n).In f layout :=
  ⟨⟨rfl, rfl, rfl, hn, small⟩, rfl⟩

namespace Lexer.In

/-- Nothing but its place makes a lexer of a file differ from others, as long as tokens are left
aside. -/
theorem eq (h : l.In f layout) :
    l = { lexerAt f layout l.cursor.offset with atLineStart := l.atLineStart } := by
  obtain ⟨⟨content, file, limit, -, -⟩, hlayout⟩ := h
  obtain ⟨⟨_, _, offset, _⟩, _, _⟩ := l
  cases content
  cases file
  cases limit
  cases hlayout
  rfl

theorem indentDepth (h : l.In f layout) :
    l.indentDepth = (lexerAt f layout l.cursor.offset).indentDepth := by
  conv_lhs => rw [h.eq]
  rfl

theorem lineEnd (h : l.In f layout) : l.lineEnd = (lexerAt f layout l.cursor.offset).lineEnd := by
  conv_lhs => rw [h.eq]
  rfl

theorem atLineEnding (h : l.In f layout) :
    l.atLineEnding = (lexerAt f layout l.cursor.offset).atLineEnding := by
  conv_lhs => rw [h.eq]
  rfl

end Lexer.In

/-- The line of a place is the one that starts last in front of it. -/
theorem lineStart_eq_of_last (hs : startsLine f layout start = true) (hle : start ≤ n)
    (hlast : ∀ m, start < m → m ≤ n → startsLine f layout m = false) :
    lineStart f layout n = start := by
  induction n with
  | zero => exact (Nat.le_zero.mp hle).symm
  | succ n ih =>
    rw [lineStart]
    rcases Nat.eq_or_lt_of_le hle with rfl | hlt
    · rw [if_pos hs]
    · rw [if_neg (Bool.eq_false_iff.mp (hlast (n + 1) hlt (Nat.le_refl _)))]
      exact ih (Nat.le_of_lt_succ hlt) fun m hm hle => hlast m hm (Nat.le_succ_of_le hle)

theorem lineEnd_le_of_atLineEnding (small : f.size < Word.modulus) (hn : n ≤ f.size)
    (hle : start ≤ n) (hat : (lexerAt f layout n).atLineEnding = true) :
    (lexerAt f layout start).lineEnd ≤ n := by
  have hmatch := (Lexer.atLineEnding_iff (lexerAt_in small hn).cursor).mp hat
  refine Cursor.lineEnd_le hle (Eq.trans ?_ hmatch)
  exact (Cursor.matchesAt_moved (c := (lexerAt f layout start).cursor) n).symm

/-- No line starts inside of a line ending. -/
theorem le_or_le_of_startsLine (small : f.size < Word.modulus) (hn : n ≤ f.size)
    (hat : (lexerAt f layout n).atLineEnding = true) (hs : startsLine f layout start = true) :
    start ≤ n ∨ n + layout.lineEnding.width ≤ start := by
  by_contra hinside
  cases hl : layout.lineEnding with
  | lf =>
    rw [hl, LineEnding.width] at hinside
    omega
  | crlf =>
    have hlayout (m : Nat) : (lexerAt f layout m).layout.lineEnding = .crlf := hl
    rw [hl, LineEnding.width] at hinside
    obtain rfl : start = n + 1 := by omega
    -- the byte at `n` would be a carriage return and a line feed
    simp only [startsLine, hl, LineEnding.width, Bool.or_eq_true, Bool.and_eq_true,
      decide_eq_true_eq, Nat.succ_ne_zero, false_or, Lexer.atLineEnding, hlayout] at hs hat
    obtain ⟨hpos, hreturn, hfeed⟩ := hs
    have hreturn := (Cursor.peek_eq_iff (by decide)).mp hreturn
    have hin : (lexerAt f layout (n + 1 - 2)).In f layout := lexerAt_in small (by omega)
    have hfeed := ((Cursor.peekAt_one_eq_iff hin.cursor hreturn.1 (by decide)).mp hfeed).2
    have hbyte := ((Cursor.peek_eq_iff (by decide)).mp hat.1).2
    have hplace : (lexerAt f layout (n + 1 - 2)).cursor.offset + 1 = n :=
      show n + 1 - 2 + 1 = n by omega
    rw [hplace] at hfeed
    exact absurd (hbyte.symm.trans hfeed) (by decide)

namespace OnLine

theorem start_le (h : OnLine f layout start n) : start ≤ f.size := Nat.le_trans h.behind h.within

/-- From every place on a line the line ends at the same place. -/
theorem lineEnd_eq (small : f.size < Word.modulus) (h : OnLine f layout start n) :
    (lexerAt f layout n).lineEnd = (lexerAt f layout start).lineEnd := by
  have hin : (lexerAt f layout start).In f layout := lexerAt_in small h.start_le
  exact Cursor.lineEnd_moved hin.cursor _ h.behind h.before

/-- On the line a place can be left for a later one. -/
theorem move (h : OnLine f layout start l.cursor.offset) (hl : l.In f layout)
    (hle : l.cursor.offset ≤ n) (hn : n ≤ l.lineEnd) : OnLine f layout start n := by
  refine ⟨h.starts, Nat.le_trans h.behind hle, ?_, ?_⟩
  · exact Nat.le_trans hn (Lexer.lineEnd_within hl.cursor).2
  · rwa [← h.lineEnd_eq hl.cursor.small, ← hl.lineEnd]

/-- Between its start and its end no other line starts. -/
theorem startsLine_eq_false (small : f.size < Word.modulus) (h : OnLine f layout start n) {m : Nat}
    (hlt : start < m) (hle : m ≤ n) : startsLine f layout m = false := by
  have hwithin := h.within
  have hbefore := h.before
  have hwidth : 0 < layout.lineEnding.width := by cases layout.lineEnding <;> decide
  refine Bool.eq_false_iff.mpr fun hs => ?_
  simp only [startsLine, Bool.or_eq_true, Bool.and_eq_true, decide_eq_true_eq,
    show m ≠ 0 by omega, false_or] at hs
  -- the line ending in front of `m` would end the line earlier
  have hsize : m - layout.lineEnding.width ≤ f.size := by omega
  rcases le_or_le_of_startsLine small hsize hs.2 h.starts with hbehind | hbehind
  · have := lineEnd_le_of_atLineEnding small hsize hbehind hs.2
    omega
  · omega

theorem lineStart_eq (small : f.size < Word.modulus) (h : OnLine f layout start n) :
    lineStart f layout n = start :=
  lineStart_eq_of_last h.starts h.behind fun _ => h.startsLine_eq_false small

theorem lineDepth_eq (small : f.size < Word.modulus) (h : OnLine f layout start n) :
    lineDepth f layout n = (lexerAt f layout start).indentDepth := by
  rw [lineDepth, h.lineStart_eq small]

end OnLine

/-- Where a line starts the lexer is on this line. -/
theorem Lexer.In.onLine (h : l.In f layout) (hs : startsLine f layout l.cursor.offset = true) :
    OnLine f layout l.cursor.offset l.cursor.offset :=
  ⟨hs, Nat.le_refl _, h.cursor.within, h.lineEnd ▸ (Lexer.lineEnd_within h.cursor).1⟩

/-! ## Going on to the next line -/

namespace Lexer

/-- From every place on a line the line ends at the same place. -/
theorem lineEnd_moveTo (h : l.cursor.In f) (hle : l.cursor.offset ≤ n) (hn : n ≤ l.lineEnd) :
    (l.moveTo n).lineEnd = l.lineEnd :=
  Cursor.lineEnd_moved h _ hle hn

/-- A run of bytes that take part in no line ending stays on the line. -/
theorem run_le (h : l.cursor.In f) {p : UInt8 → Bool}
    (hplain : ∀ b, p b = true → Cursor.isPlain b = true) :
    l.cursor.offset + l.cursor.runLength p ≤ l.lineEnd := by
  refine Nat.le_trans (le_textEnd h (Cursor.runLength_bound h p) fun j hj => ?_)
    l.textEnd_le_lineEnd
  exact hplain _ (Cursor.of_lt_runLength hj)

theorem atLineEnd_lineEnd (h : l.cursor.In f) : (l.moveTo l.lineEnd).atLineEnd = true := by
  rw [atLineEnd, Bool.or_eq_true]
  rcases Nat.eq_or_lt_of_le (lineEnd_within h).2 with heq | hlt
  · refine .inl ?_
    simp [moveTo, Cursor.atEnd, h.limit, heq]
  · exact .inr (atLineEnding_lineEnd h hlt)

namespace In

theorem moveTo (h : l.In f layout) (hn : n ≤ f.size) : (l.moveTo n).In f layout :=
  ⟨h.cursor.moved hn, h.layout⟩

theorem offset_of_atEnd (h : l.In f layout) (hend : l.cursor.atEnd = true) :
    l.cursor.offset = f.size := by
  have hwithin := h.cursor.within
  rw [Cursor.atEnd, h.cursor.limit, decide_eq_true_eq] at hend
  omega

/-- A line starts behind a line ending. -/
theorem begins_eatLineEnding (h : l.In f layout) (hend : l.atLineEnd = true) :
    Begins f layout (l.eatLineEnding?.getD l).cursor.offset := by
  by_cases hat : l.cursor.atEnd = true
  · rw [eatLineEnding?_of_atEnd hat]
    exact .inr (h.offset_of_atEnd hat)
  · have hline : l.atLineEnding = true := by simpa [atLineEnd, hat] using hend
    rw [eatLineEnding?_of_atLineEnding (Bool.eq_false_iff.mpr hat) hline, Option.getD_some,
      Cursor.skip_eq h.cursor (lineEnding_bound h.cursor hline), h.layout]
    refine .inl ?_
    simp only [startsLine, Nat.add_sub_cancel, ← h.atLineEnding, hline]
    simp

/-- Wherever it is left, behind a line the next one starts. -/
theorem begins_skipLine (h : l.In f layout) : Begins f layout l.skipLine.cursor.offset := by
  have hnext := (h.moveTo (lineEnd_within h.cursor).2).begins_eatLineEnding
    (atLineEnd_lineEnd h.cursor)
  rw [skipLine]
  cases he : (l.moveTo l.lineEnd).eatLineEnding? with
  | none =>
    rw [he] at hnext
    exact hnext
  | some l' =>
    rw [he] at hnext
    exact hnext

theorem skipLine (h : l.In f layout) : l.skipLine.In f layout :=
  ⟨(skipLine_ahead h.cursor).here, l.skipLine_layout.trans h.layout⟩

theorem begins_skipBlankLines (h : l.In f layout) (hb : Begins f layout l.cursor.offset) :
    Begins f layout l.skipBlankLines.cursor.offset := by
  rw [skipBlankLines]
  generalize l.cursor.limit - l.cursor.offset = count
  induction count generalizing l with
  | zero => exact hb
  | succ count ih =>
    rw [skipBlankLines.go]
    split
    · exact ih h.skipLine h.begins_skipLine
    · exact hb

end In

end Lexer

end Markup

end Storyline
