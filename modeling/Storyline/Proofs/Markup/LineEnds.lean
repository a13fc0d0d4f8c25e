import Storyline.Proofs.Markup.Running
import Storyline.Markup.Parser

/-!
# Where lines end in either layout

In a file whose carriage returns and line feeds only occur in pairs (`File.Paired`) a line ends
with a pair, whether lines are said to end in pairs or in line feeds: the line feed is one byte
behind the carriage return, and both layouts agree on where the text of the line ends and where the
next line starts.  They agree from every place that is not between the two bytes of a pair.

`Lexer.inLf` is the lexer in the layout of line feeds, at the same place.
-/

namespace Storyline

/-! ## Searching -/

namespace Cursor

variable {c : Cursor} {f : File}

/-- A search finds the first match. -/
theorem search_first {p : Bytes} {stop : Nat} :
    {count start i : Nat} → c.search p stop count start = some i →
      ∀ j, start ≤ j → j < i → c.matchesAt j stop p = false
  | 0, _, _, h => by simp [search] at h
  | count + 1, start, i, h => by
    rw [search] at h
    intro j hj hlt
    split at h
    · cases h
      omega
    · next hm =>
      rcases Nat.eq_or_lt_of_le hj with rfl | hj
      · exact Bool.eq_false_iff.mpr hm
      · exact search_first h j hj hlt

/-- A search that finds nothing has seen no match. -/
theorem search_none {p : Bytes} {stop : Nat} :
    {count start : Nat} → c.search p stop count start = none →
      ∀ j, start ≤ j → j < start + count → c.matchesAt j stop p = false
  | 0, _, _ => by omega
  | count + 1, start, h => by
    rw [search] at h
    intro j hj hlt
    split at h
    · cases h
    · next hm =>
      rcases Nat.eq_or_lt_of_le hj with rfl | hj
      · exact Bool.eq_false_iff.mpr hm
      · exact search_none h j hj (by omega)

/-- A search with enough steps finds a place that matches if no place before it does. -/
theorem search_eq {p : Bytes} {stop count start i : Nat} (hstart : start ≤ i)
    (hcount : i < start + count) (hi : c.matchesAt i stop p)
    (hfirst : ∀ j, start ≤ j → j < i → c.matchesAt j stop p = false) :
    c.search p stop count start = some i := by
  cases hs : c.search p stop count start with
  | none =>
    rw [search_none hs i hstart hcount] at hi
    cases hi
  | some k =>
    obtain ⟨hk, hm⟩ := search_bound hs
    rcases Nat.lt_trichotomy k i with hlt | rfl | hlt
    · rw [hfirst k hk hlt] at hm
      cases hm
    · rfl
    · rw [search_first hs i hstart hlt] at hi
      cases hi

theorem search_eq_none {p : Bytes} {stop count start : Nat}
    (h : ∀ j, start ≤ j → c.matchesAt j stop p = false) : c.search p stop count start = none := by
  cases hs : c.search p stop count start with
  | none => rfl
  | some k =>
    obtain ⟨hk, hm⟩ := search_bound hs
    rw [h k hk] at hm
    cases hm

/-- Every byte of a run satisfies what the run is made of. -/
theorem of_lt_runFrom {p : UInt8 → Bool} {count i n : Nat} (hn : n < c.runFrom p count i) :
    p (c.byteAt (i + n)) = true := by
  induction count generalizing i n with
  | zero => cases hn
  | succ count ih =>
    rw [runFrom] at hn
    split at hn
    · next hp =>
      cases n with
      | zero => exact hp
      | succ n =>
        have := ih (Nat.lt_of_succ_lt_succ hn)
        rwa [Nat.add_assoc, Nat.add_comm 1] at this
    · cases hn

theorem of_lt_runLength {p : UInt8 → Bool} {n : Nat} (hn : n < c.runLength p) :
    p (c.byteAt (c.offset + n)) = true :=
  of_lt_runFrom hn

/-- A run stops before a byte that does not belong to it. -/
theorem byteAt_runFrom {p : UInt8 → Bool} {count i : Nat} (h : c.runFrom p count i < count) :
    p (c.byteAt (i + c.runFrom p count i)) = false := by
  induction count generalizing i with
  | zero => cases h
  | succ count ih =>
    rw [runFrom] at h ⊢
    split at h
    · next hp =>
      rw [if_pos hp]
      have := ih (Nat.lt_of_succ_lt_succ h)
      rwa [Nat.add_assoc, Nat.add_comm 1] at this
    · next hp =>
      rw [if_neg hp]
      exact Bool.eq_false_iff.mpr hp

theorem byteAt_runLength (h : c.In f) (p : UInt8 → Bool)
    (hlt : c.offset + c.runLength p < f.size) :
    p (c.byteAt (c.offset + c.runLength p)) = false := by
  refine byteAt_runFrom ?_
  rw [h.limit]
  rw [runLength, h.limit] at hlt
  omega

theorem byteAt_eq_zero (h : c.In f) {i : Nat} (hi : f.size ≤ i) : c.byteAt i = 0 := by
  rw [byteAt, h.content, Array.getD_eq_getD_getElem?, Array.getElem?_eq_none (by exact hi)]
  rfl

theorem matchesAt_moved (n : Nat) {i stop : Nat} {p : Bytes} :
    matchesAt { c with offset := n } i stop p = c.matchesAt i stop p := by
  induction p generalizing i with
  | nil => rfl
  | cons b p ih =>
    rw [matchesAt, matchesAt, ih]
    rfl

/-- In front of the limit a line ends where the bytes of a line ending are. -/
theorem matchesAt_lineEnd {crlf : Bool} (hlt : c.lineEnd crlf < c.limit) :
    c.offset ≤ c.lineEnd crlf
      ∧ c.matchesAt (c.lineEnd crlf) c.limit (if crlf then "\r\n" else "\n") = true := by
  rw [lineEnd] at hlt ⊢
  cases hp : c.positionOf? (if crlf then "\r\n" else "\n") c.limit with
  | none =>
    rw [hp, Option.getD_none] at hlt
    exact absurd hlt (Nat.lt_irrefl _)
  | some i =>
    obtain ⟨hle, hm, -⟩ := positionOf?_bound hp
    rw [Nat.min_self] at hm
    exact ⟨hle, hm⟩

/-- A line ends at the first line ending at the latest. -/
theorem lineEnd_le {crlf : Bool} {i : Nat} (hle : c.offset ≤ i)
    (hm : c.matchesAt i c.limit (if crlf then "\r\n" else "\n") = true) :
    c.lineEnd crlf ≤ i := by
  have hp : (if crlf then "\r\n" else "\n" : Bytes) ≠ [] := by cases crlf <;> decide
  rw [lineEnd, positionOf?, Nat.min_self, if_neg (by simpa using hp)]
  generalize (if crlf then "\r\n" else "\n" : Bytes) = p at hm hp ⊢
  have hi := matchesAt_bound hp hm
  have hpos : 0 < p.length := List.length_pos_iff.mpr hp
  by_contra hlt
  have hnone : c.matchesAt i c.limit p = false := by
    cases hs : c.search p c.limit (c.limit - c.offset) c.offset with
    | none => exact search_none hs i hle (by omega)
    | some k =>
      rw [hs, Option.getD_some] at hlt
      exact search_first hs i hle (Nat.lt_of_not_le hlt)
  rw [hnone] at hm
  cases hm

/-- From a later place no earlier end of the line is found. -/
theorem lineEnd_mono (h : c.In f) (crlf : Bool) {n : Nat} (hle : c.offset ≤ n) :
    c.lineEnd crlf ≤ lineEnd { c with offset := n } crlf := by
  by_cases hlt : lineEnd { c with offset := n } crlf < c.limit
  · obtain ⟨hn, hm⟩ := matchesAt_lineEnd hlt
    rw [matchesAt_moved] at hm
    exact lineEnd_le (Nat.le_trans hle hn) hm
  · have hend : c.lineEnd crlf ≤ c.limit := h.limit ▸ (lineEnd_within h crlf).2
    exact Nat.le_trans hend (Nat.le_of_not_lt hlt)

/-- From every place on a line the line ends at the same place. -/
theorem lineEnd_moved (h : c.In f) (crlf : Bool) {n : Nat} (hle : c.offset ≤ n)
    (hn : n ≤ c.lineEnd crlf) : lineEnd { c with offset := n } crlf = c.lineEnd crlf := by
  have hend := (lineEnd_within h crlf).2
  refine Nat.le_antisymm ?_ (lineEnd_mono h crlf hle)
  rcases Nat.eq_or_lt_of_le hend with heq | hlt
  · rw [heq]
    exact (lineEnd_within (h.moved (Nat.le_trans hn hend)) crlf).2
  · refine lineEnd_le hn ?_
    rw [matchesAt_moved]
    exact (matchesAt_lineEnd (h.limit ▸ hlt)).2

theorem runFrom_le_of_imp {p q : UInt8 → Bool} (hpq : ∀ b, p b = true → q b = true)
    (count i : Nat) : c.runFrom p count i ≤ c.runFrom q count i := by
  induction count generalizing i with
  | zero => exact Nat.le_refl _
  | succ count ih =>
    rw [runFrom, runFrom]
    split
    · next hb =>
      rw [if_pos (hpq _ hb)]
      exact Nat.succ_le_succ (ih (i + 1))
    · exact Nat.zero_le _

end Cursor

/-! ## Pairs -/

/-- A file in which every line feed stands behind a carriage return, and every carriage return
before a line feed. -/
structure File.Paired (f : File) : Prop where
  feed : ∀ i, f.content.getD i 0 = '\n' → 0 < i ∧ f.content.getD (i - 1) 0 = '\r'
  carriage : ∀ i, f.content.getD i 0 = '\r' → f.content.getD (i + 1) 0 = '\n'

namespace Cursor

variable {c : Cursor} {f : File}

/-- The cursor does not stand between the two bytes of a pair. -/
def Apart (c : Cursor) : Prop := c.byteAt c.offset ≠ '\n'

/-- A line ends with the file or with a pair; no byte of its text takes part in a line ending. -/
structure LineEnd (f : File) (c : Cursor) (stop : Nat) : Prop where
  ahead : c.offset ≤ stop
  within : stop ≤ f.size
  plain : ∀ i, c.offset ≤ i → i < stop → isPlain (c.byteAt i)
  pair : stop = f.size ∨ (c.byteAt stop = '\r' ∧ c.byteAt (stop + 1) = '\n' ∧ stop + 2 ≤ f.size)

theorem Apart.of_before (h : c.In f) (hp : f.Paired) {b : UInt8} {i : Nat} (hb : c.byteAt i = b)
    (hne : b ≠ '\r') : Apart { c with offset := i + 1 } := by
  intro hfeed
  have hbyte : ∀ j, c.byteAt j = f.content.getD j 0 := fun j => by rw [byteAt, h.content]
  have := (hp.feed (i + 1) (by rw [← hbyte]; exact hfeed)).2
  rw [Nat.add_sub_cancel, ← hbyte, hb] at this
  exact hne this

/-- A carriage return of the file starts a pair. -/
theorem matchesAt_pair (h : c.In f) (hp : f.Paired) {i : Nat} (hi : c.byteAt i = '\r') :
    c.matchesAt i f.size "\r\n" := by
  have hfeed : c.byteAt (i + 1) = '\n' := by
    rw [byteAt, h.content]
    exact hp.carriage i (by rw [← h.content]; exact hi)
  have hlt : i + 1 < f.size := by
    by_contra hge
    rw [byteAt_eq_zero h (Nat.le_of_not_lt hge)] at hfeed
    cases hfeed
  show (decide (i < f.size) && decide (c.byteAt i = '\r')
    && (decide (i + 1 < f.size) && decide (c.byteAt (i + 1) = '\n') && true)) = true
  simp [hi, hfeed, hlt, Nat.lt_of_succ_lt hlt]

/-- Up to the first carriage return there is no line feed either. -/
theorem plain_of_noReturn (h : c.In f) (hp : f.Paired) (ha : c.Apart) {stop : Nat}
    (hnone : ∀ i, c.offset ≤ i → i < stop → c.byteAt i ≠ '\r') :
    ∀ i, c.offset ≤ i → i < stop → isPlain (c.byteAt i) := by
  intro i hi hlt
  have hreturn := hnone i hi hlt
  have hfeed : c.byteAt i ≠ '\n' := by
    intro hfeed
    rcases Nat.eq_or_lt_of_le hi with rfl | hi
    · exact ha hfeed
    · rw [byteAt, h.content] at hfeed
      refine hnone (i - 1) (by omega) (by omega) ?_
      rw [byteAt, h.content]
      exact (hp.feed i hfeed).2
  simpa [isPlain] using ⟨hreturn, hfeed⟩

/-- A carriage return starts a pair inside the file. -/
theorem pair_of_return (h : c.In f) (hp : f.Paired) {i : Nat} (hi : c.byteAt i = '\r') :
    c.byteAt i = '\r' ∧ c.byteAt (i + 1) = '\n' ∧ i + 2 ≤ f.size := by
  have hm := matchesAt_pair h hp hi
  have hm' : c.matchesAt (i + 1) f.size "\n" := by
    rw [show ("\r\n" : Bytes) = [13, 10] from rfl, matchesAt, Bool.and_eq_true] at hm
    exact hm.2
  exact ⟨hi, byteAt_of_matchesAt (p := []) hm',
    matchesAt_bound (p := "\r\n") (List.cons_ne_nil _ _) hm⟩

/-- Where a line ends that is said to end in a pair. -/
theorem lineEnd_crlf (h : c.In f) (hp : f.Paired) (ha : c.Apart) :
    LineEnd f c (c.lineEnd true) := by
  obtain ⟨ahead, within⟩ := lineEnd_within h true
  have hsearch : c.lineEnd true
      = (c.search "\r\n" f.size (f.size - c.offset) c.offset).getD f.size := by
    rw [lineEnd, positionOf?, Nat.min_self, h.limit]
    rfl
  have hplain : ∀ i, c.offset ≤ i → i < c.lineEnd true → isPlain (c.byteAt i) := by
    refine plain_of_noReturn h hp ha fun i hi hlt hreturn => ?_
    have hmatch := matchesAt_pair h hp hreturn
    rw [hsearch] at hlt
    -- a carriage return inside the line would have ended the search there
    cases hs : c.search "\r\n" f.size (f.size - c.offset) c.offset with
    | none =>
      rw [hs, Option.getD_none] at hlt
      rw [search_none hs i hi (by omega)] at hmatch
      cases hmatch
    | some k =>
      rw [hs, Option.getD_some] at hlt
      rw [search_first hs i hi hlt] at hmatch
      cases hmatch
  refine ⟨ahead, within, hplain, ?_⟩
  rcases lineEnd_byte h true with hend | hbyte
  · exact .inl hend
  · refine .inr (pair_of_return h hp ?_)
    by_contra hreturn
    have hfeed : c.byteAt (c.lineEnd true) = '\n' := by
      simpa [isPlain, hreturn] using hbyte
    -- the carriage return before the line feed would belong to the line
    rcases Nat.eq_or_lt_of_le ahead with heq | hlt
    · rw [← heq] at hfeed
      exact ha hfeed
    · rw [byteAt, h.content] at hfeed
      have hbefore := (hp.feed _ hfeed).2
      have := hplain (c.lineEnd true - 1) (by omega) (by omega)
      rw [byteAt, h.content, hbefore] at this
      cases this

/-- Where the same line ends if it is said to end in a line feed. -/
theorem LineEnd.lineEnd_lf (h : c.In f) {stop : Nat} (hend : LineEnd f c stop) :
    c.lineEnd false = if stop = f.size then f.size else stop + 1 := by
  have hmatches (i : Nat) : c.matchesAt i f.size "\n"
      = (decide (i < f.size) && decide (c.byteAt i = '\n')) := by
    show (decide (i < f.size) && decide (c.byteAt i = '\n') && true) = _
    rw [Bool.and_true]
  have hbefore : ∀ i, c.offset ≤ i → i < stop → c.matchesAt i f.size "\n" = false := by
    intro i hi hlt
    have := hend.plain i hi hlt
    rw [hmatches]
    simp only [isPlain, Bool.and_eq_true, bne_iff_ne] at this
    simp [this.2]
  have hsearch : c.lineEnd false
      = (c.search "\n" f.size (f.size - c.offset) c.offset).getD f.size := by
    rw [lineEnd, positionOf?, Nat.min_self, h.limit]
    rfl
  rw [hsearch]
  rcases hend.pair with rfl | ⟨hreturn, hfeed, hsize⟩
  · rw [if_pos rfl, search_eq_none, Option.getD_none]
    intro i hi
    by_cases hlt : i < f.size
    · exact hbefore i hi hlt
    · simp [hmatches, hlt]
  · have := hend.ahead
    rw [if_neg (by omega), search_eq (i := stop + 1) (by omega) (by omega), Option.getD_some]
    · simp [hmatches, hfeed, Nat.lt_of_succ_le hsize]
    · intro i hi hlt
      rcases Nat.eq_or_lt_of_le (Nat.le_of_lt_succ hlt) with rfl | hlt
      · rw [hmatches, hreturn]
        exact Bool.and_false _
      · exact hbefore i hi hlt

end Cursor

/-! ## Lines in two layouts -/

namespace Markup

namespace Lexer

/-- The lexer in the layout of line feeds, at the same place. -/
def inLf (l : Lexer) : Lexer := { l with layout := { l.layout with lineEnding := .lf } }

@[simp] theorem inLf_cursor (l : Lexer) : l.inLf.cursor = l.cursor := rfl

@[simp] theorem inLf_moveTo (l : Lexer) (n : Nat) : l.inLf.moveTo n = (l.moveTo n).inLf := rfl

@[simp] theorem inLf_indentDepth (l : Lexer) : l.inLf.indentDepth = l.indentDepth := rfl

@[simp] theorem inLf_headerDepth (l : Lexer) : l.inLf.headerDepth = l.headerDepth := rfl

@[simp] theorem inLf_skipIndent (l : Lexer) : l.inLf.skipIndent = l.skipIndent.inLf := rfl

/-- A lexer of pairs in a paired file, not between the two bytes of a pair. -/
structure Clear (f : File) (l : Lexer) : Prop where
  cursor : l.cursor.In f
  paired : f.Paired
  crlf : l.layout.lineEnding = .crlf
  apart : l.cursor.Apart

variable {f : File} {l : Lexer}

theorem Clear.lineEnd (h : l.Clear f) : Cursor.LineEnd f l.cursor l.lineEnd := by
  have : l.lineEnd = l.cursor.lineEnd true := by
    rw [Lexer.lineEnd, Layout.isCrlf, h.crlf]
    rfl
  rw [this]
  exact Cursor.lineEnd_crlf h.cursor h.paired h.apart

theorem Clear.inLf_lineEnd (h : l.Clear f) :
    l.inLf.lineEnd = if l.lineEnd = f.size then f.size else l.lineEnd + 1 :=
  h.lineEnd.lineEnd_lf h.cursor

theorem Clear.textEnd (h : l.Clear f) : l.textEnd = l.lineEnd := by
  rw [Lexer.textEnd, Layout.isCrlf, h.crlf]
  rfl

/-- Both layouts agree on where the text of a line ends. -/
theorem Clear.inLf_textEnd (h : l.Clear f) : l.inLf.textEnd = l.textEnd := by
  have hend := h.lineEnd
  have ahead := hend.ahead
  have hlf := h.inLf_lineEnd
  have hcrlf : l.inLf.layout.isCrlf = false := rfl
  rw [h.textEnd, Lexer.textEnd]
  simp only [hcrlf, Bool.not_false, Bool.true_and, Bool.and_eq_true, decide_eq_true_eq]
  rcases hend.pair with heq | ⟨hreturn, -, hsize⟩
  · rw [if_pos heq] at hlf
    rw [if_neg, hlf, heq]
    rintro ⟨hlt, hreturn⟩
    have := (Cursor.pair_of_return h.cursor h.paired hreturn).2.2
    omega
  · rw [if_neg (by omega)] at hlf
    rw [if_pos, hlf, Nat.add_sub_cancel]
    rw [hlf, Nat.add_sub_cancel]
    exact ⟨Nat.lt_succ_of_le ahead, hreturn⟩

/-- The lexer at the start of the next line, or at the end of the file. -/
def nextLine (l : Lexer) (size : Nat) : Lexer :=
  if l.lineEnd = size then l.moveTo size
  else { l.moveTo (l.lineEnd + 2) with atLineStart := true }

theorem eatLineEnding?_of_atEnd (h : l.cursor.atEnd = true) : l.eatLineEnding? = none := by
  rw [eatLineEnding?, h]
  rfl

theorem eatLineEnding?_of_atLineEnding (hend : l.cursor.atEnd = false)
    (hline : l.atLineEnding = true) : l.eatLineEnding?
      = some { l with cursor := l.cursor.skip l.layout.lineEnding.width, atLineStart := true } := by
  simp [eatLineEnding?, next, hend, hline]

theorem peek_moveTo (h : l.cursor.In f) {n : Nat} (hn : n < f.size) :
    (l.moveTo n).cursor.atEnd = false ∧ (l.moveTo n).cursor.peek = l.cursor.byteAt n := by
  have hend : (l.moveTo n).cursor.atEnd = false := by
    simp [moveTo, Cursor.atEnd, h.limit, hn]
  exact ⟨hend, by rw [Cursor.peek, hend]; rfl⟩

theorem skip_moveTo (h : l.cursor.In f) {n width : Nat} (hn : n + width ≤ f.size) :
    (l.moveTo n).cursor.skip width = { l.cursor with offset := n + width } :=
  Cursor.skip_eq (h.moved (Nat.le_of_add_right_le hn)) hn

/-- At the end of its line a lexer of pairs goes past the pair. -/
theorem Clear.eat_pair (h : l.Clear f) : (l.moveTo l.lineEnd).eatLineEnding?
    = if l.lineEnd = f.size then none else some (l.nextLine f.size) := by
  rcases h.lineEnd.pair with heq | ⟨hreturn, hfeed, hsize⟩
  · rw [if_pos heq, eatLineEnding?_of_atEnd]
    simp [moveTo, Cursor.atEnd, h.cursor.limit, heq]
  · obtain ⟨hend, hpeek⟩ := peek_moveTo h.cursor (show l.lineEnd < f.size by omega)
    have hword : Word.add l.lineEnd 1 = l.lineEnd + 1 :=
      Nat.mod_eq_of_lt (Nat.lt_of_lt_of_le (by omega) (Nat.le_of_lt h.cursor.small))
    have hahead : (l.moveTo l.lineEnd).cursor.peekAt 1 = '\n' := by
      show (if l.cursor.limit ≤ Word.add l.lineEnd 1 then (0 : UInt8)
        else l.cursor.byteAt (Word.add l.lineEnd 1)) = _
      rw [hword, h.cursor.limit, if_neg (by omega), hfeed]
    have hcrlf : (l.moveTo l.lineEnd).layout.lineEnding = .crlf := h.crlf
    have hline : (l.moveTo l.lineEnd).atLineEnding = true := by
      simp [atLineEnding, hcrlf, hpeek, hahead, hreturn]
    have hne : l.lineEnd ≠ f.size := by omega
    rw [eatLineEnding?_of_atLineEnding hend hline, hcrlf, if_neg hne, nextLine, if_neg hne]
    exact congrArg some (by rw [LineEnding.width, skip_moveTo h.cursor hsize]; rfl)

/-- In the layout of line feeds the line ends one byte later, and the next one starts at the same
place. -/
theorem Clear.eat_feed (h : l.Clear f) : (l.inLf.moveTo l.inLf.lineEnd).eatLineEnding?
    = if l.lineEnd = f.size then none else some (l.nextLine f.size).inLf := by
  have hlf := h.inLf_lineEnd
  rcases h.lineEnd.pair with heq | ⟨-, hfeed, hsize⟩
  · rw [if_pos heq] at hlf
    rw [if_pos heq, eatLineEnding?_of_atEnd]
    simp [moveTo, Cursor.atEnd, h.cursor.limit, hlf]
  · have hne : l.lineEnd ≠ f.size := by omega
    rw [if_neg hne] at hlf
    obtain ⟨hend, hpeek⟩ := peek_moveTo (l := l.inLf) h.cursor (show l.lineEnd + 1 < f.size by omega)
    have hline : (l.inLf.moveTo (l.lineEnd + 1)).atLineEnding = true := by
      simp only [inLf_cursor] at hpeek
      rw [show Lexer.atLineEnding _ = decide (_ = _) from rfl, hpeek, hfeed]
      rfl
    rw [hlf, eatLineEnding?_of_atLineEnding hend hline, if_neg hne, nextLine, if_neg hne]
    refine congrArg some ?_
    rw [show (l.inLf.moveTo (l.lineEnd + 1)).layout.lineEnding.width = 1 from rfl,
      skip_moveTo (l := l.inLf) h.cursor (show l.lineEnd + 1 + 1 ≤ f.size from hsize)]
    rfl

/-! ## Moving on the line and to other lines -/

/-- Every place on the line, up to its end, is apart. -/
theorem Clear.moveTo (h : l.Clear f) {n : Nat} (hle : l.cursor.offset ≤ n) (hn : n ≤ l.lineEnd) :
    (l.moveTo n).Clear f := by
  have hend := h.lineEnd
  refine ⟨h.cursor.moved (Nat.le_trans hn hend.within), h.paired, h.crlf, ?_⟩
  rcases Nat.eq_or_lt_of_le hle with rfl | hlt
  · exact h.apart
  · have hplain := hend.plain (n - 1) (by omega) (by omega)
    have hreturn : l.cursor.byteAt (n - 1) ≠ '\r' := by
      intro hreturn
      rw [hreturn] at hplain
      cases hplain
    have := Cursor.Apart.of_before h.cursor h.paired rfl hreturn
    rwa [Nat.sub_add_cancel (by omega)] at this

theorem Clear.nextLine (h : l.Clear f) : (l.nextLine f.size).Clear f := by
  rw [Lexer.nextLine]
  rcases h.lineEnd.pair with heq | ⟨-, hfeed, hsize⟩
  · rw [if_pos heq, ← heq]
    exact h.moveTo h.lineEnd.ahead (Nat.le_refl _)
  · rw [if_neg (by omega)]
    exact ⟨h.cursor.moved hsize, h.paired, h.crlf,
      .of_before h.cursor h.paired hfeed (by decide)⟩

theorem Clear.skipLine_eq (h : l.Clear f) : l.skipLine
    = if l.lineEnd = f.size then { l.moveTo f.size with atLineStart := false }
      else l.nextLine f.size := by
  rw [skipLine, h.eat_pair]
  split
  · next heq => rw [heq]; rfl
  · rfl

theorem Clear.skipLine (h : l.Clear f) : l.skipLine.Clear f := by
  rw [h.skipLine_eq]
  split
  · next heq =>
    have := h.moveTo h.lineEnd.ahead (Nat.le_refl _)
    rw [heq] at this
    exact ⟨this.cursor, this.paired, this.crlf, this.apart⟩
  · exact h.nextLine

/-- Both layouts agree on where the next line starts. -/
theorem Clear.inLf_skipLine (h : l.Clear f) : l.inLf.skipLine = l.skipLine.inLf := by
  have hlf := h.inLf_lineEnd
  rw [h.skipLine_eq, Lexer.skipLine, h.eat_feed]
  split
  · next heq =>
    rw [if_pos heq] at hlf
    rw [hlf]
    rfl
  · rfl

/-- Both layouts agree on which lines are blank. -/
theorem Clear.inLf_isBlankLine (h : l.Clear f) : l.inLf.isBlankLine = l.isBlankLine := by
  have hlf := h.inLf_lineEnd
  have hbound := Cursor.runLength_bound h.cursor fun b => Bytes.isGap b || b = '\r'
  have hstop := Cursor.byteAt_runLength h.cursor fun b => Bytes.isGap b || b = '\r'
  refine decide_eq_decide.mpr ?_
  rw [inLf_cursor]
  generalize l.cursor.runLength _ = n at hbound hstop ⊢
  rcases h.lineEnd.pair with heq | ⟨hreturn, -, hsize⟩
  · rw [hlf, if_pos heq, heq]
  · rw [hlf, if_neg (by omega)]
    refine ⟨fun hle => by omega, fun hle => ?_⟩
    -- the run of blanks does not stop at the carriage return
    by_contra hlt
    have hat : l.cursor.offset + n = l.lineEnd := by omega
    have := hstop (by omega)
    rw [hat, hreturn] at this
    cases this

theorem Clear.skipBlankLines_go (h : l.Clear f) (count : Nat) :
    (skipBlankLines.go count l).Clear f
      ∧ skipBlankLines.go count l.inLf = (skipBlankLines.go count l).inLf := by
  induction count generalizing l with
  | zero => exact ⟨h, rfl⟩
  | succ count ih =>
    rw [skipBlankLines.go, skipBlankLines.go, h.inLf_isBlankLine, h.inLf_skipLine, inLf_cursor]
    split
    · exact ih h.skipLine
    · exact ⟨h, rfl⟩

theorem Clear.skipBlankLines (h : l.Clear f) : l.skipBlankLines.Clear f :=
  (h.skipBlankLines_go _).1

theorem Clear.inLf_skipBlankLines (h : l.Clear f) :
    l.inLf.skipBlankLines = l.skipBlankLines.inLf :=
  (h.skipBlankLines_go _).2

/-- A run of bytes that take part in no line ending stays on the line. -/
theorem Clear.run_le (h : l.Clear f) {p : UInt8 → Bool}
    (hplain : ∀ b, p b = true → Cursor.isPlain b = true) :
    l.cursor.offset + l.cursor.runLength p ≤ l.lineEnd := by
  rw [← h.textEnd]
  refine le_textEnd h.cursor (Cursor.runLength_bound h.cursor p) fun j hj => ?_
  exact hplain _ (Cursor.of_lt_runLength hj)

theorem isPlain_of_isGap {b : UInt8} (h : Bytes.isGap b = true) : Cursor.isPlain b = true := by
  have : b = ' ' ∨ b = '\t' := by simpa [Bytes.isGap] using h
  rcases this with rfl | rfl <;> decide

theorem isPlain_of_isNamePart {b : UInt8} (h : isNamePart b = true) : Cursor.isPlain b = true := by
  have hline : b ≠ '\r' ∧ b ≠ '\n' := by
    constructor <;> rintro rfl <;> exact absurd h (by decide)
  simpa [Cursor.isPlain] using hline

/-- Spaces and tabs stay on the line. -/
theorem Clear.skipSpaces (h : l.Clear f) :
    Clear f { l with cursor := l.cursor.skipWhile Bytes.isGap } :=
  h.moveTo (Nat.le_add_right _ _) (h.run_le fun _ => isPlain_of_isGap)

theorem Clear.skipIndent (h : l.Clear f) : l.skipIndent.Clear f :=
  ⟨h.skipSpaces.cursor, h.skipSpaces.paired, h.skipSpaces.crlf, h.skipSpaces.apart⟩

end Lexer

end Markup

end Storyline
