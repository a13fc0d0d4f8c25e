import Mathlib.Data.List.GetD
import Mathlib.Data.List.Induction
import Storyline.Proofs.Source.Bounds
import Storyline.Proofs.Text.Lists

/-!
# Lines and columns

The line of a place is found by halving the list of line feeds, and the text of a line is cut out
between two of them.  `Bytes.lineFeeds` is that list for a text, read from left to right.  What
stands before a place is a beginning of the text, and the line feeds of the beginning are the first
ones of the whole (`lineFeeds_append`); so the search ends at their number (`searchLine_eq`), and the
last of them is the one behind which the line starts.

`positions_exact` puts this together: positions count the line feeds and the bytes behind the last
of them, tell offsets apart and keep their order, and the two ways to cut out a line agree with
splitting the text at its line feeds.  Line and column are 32-bit words counted from 1, so that at
the very end of the largest file there can be, of 2^32 - 1 bytes, they may not fit.  If it is a
single line, its column comes out as 0 there (`position_after_largest`).
-/

namespace Storyline

theorem Word.sub_of_le {a b : Nat} (hle : b ≤ a) (ha : a < modulus) : sub a b = a - b := by
  simp only [sub, modulus] at ha ⊢
  omega

theorem Word.add_comm (a b : Nat) : add a b = add b a := by rw [add, add, Nat.add_comm]

theorem Word.add_one_inj {a b : Nat} (ha : a < modulus) (hb : b < modulus)
    (h : add a 1 = add b 1) : a = b := by
  simp only [add, modulus] at ha hb h
  omega

/-- A position on an earlier line, or earlier on the same line. -/
def Position.Before (p q : Position) : Prop :=
  p.line < q.line ∨ p.line = q.line ∧ p.column < q.column

/-! ## Line feeds of a text -/

namespace Bytes

/-- The offsets of the line feeds of a text. -/
def lineFeeds (s : Bytes) : List Nat := (List.range s.length).filter fun i => s.getD i 0 = '\n'

/-- The offset behind the last line feed of a text, or 0 if it has none. -/
def lastStart (s : Bytes) : Nat := s.length - (s.reverse.takeWhile (· != ('\n' : UInt8))).length

theorem lineFeeds_cons (b : UInt8) (s : Bytes) :
    lineFeeds (b :: s) = (if b = '\n' then [0] else []) ++ (lineFeeds s).map (· + 1) := by
  rw [lineFeeds, List.length_cons, List.range_succ_eq_map, List.filter_cons, List.filter_map]
  simp only [List.getD_cons_zero, decide_eq_true_eq, Function.comp_def, List.getD_cons_succ]
  split <;> rfl

/-- The line feeds of a text are those of its beginning and, further on, those of the rest. -/
theorem lineFeeds_append (s t : Bytes) :
    lineFeeds (s ++ t) = lineFeeds s ++ (lineFeeds t).map (· + s.length) := by
  induction s with
  | nil => simp [lineFeeds]
  | cons b s ih =>
    rw [List.cons_append, lineFeeds_cons, lineFeeds_cons, ih, List.map_append, List.map_map,
      List.append_assoc]
    simp [Function.comp_def, Nat.add_assoc]

theorem lt_length_of_mem_lineFeeds {s : Bytes} {i : Nat} (h : i ∈ lineFeeds s) : i < s.length :=
  List.mem_range.mp (List.mem_of_mem_filter h)

theorem length_lineFeeds (s : Bytes) : (lineFeeds s).length = s.count ('\n' : UInt8) := by
  induction s with
  | nil => rfl
  | cons b s ih =>
    rw [lineFeeds_cons, List.length_append, List.length_map, ih, List.count_cons, Nat.add_comm]
    by_cases hb : b = '\n' <;> simp [hb]

theorem lineFeeds_eq_nil_iff {s : Bytes} : lineFeeds s = [] ↔ s.count ('\n' : UInt8) = 0 := by
  rw [← length_lineFeeds, List.length_eq_zero_iff]

theorem lastStart_concat (s : Bytes) (b : UInt8) :
    lastStart (s ++ [b]) = if b = '\n' then s.length + 1 else lastStart s := by
  rw [lastStart, lastStart, List.reverse_concat, List.takeWhile_cons]
  by_cases hb : b = '\n' <;> simp [hb]

theorem lastStart_le (s : Bytes) : lastStart s ≤ s.length := Nat.sub_le _ _

/-- The last line starts behind the last line feed. -/
theorem lastStart_eq (s : Bytes) :
    lastStart s = ((lineFeeds s).getLast?.map (· + 1)).getD 0 := by
  induction s using List.reverseRecOn with
  | nil => rfl
  | append_singleton s b ih =>
    rw [lastStart_concat, lineFeeds_append, lineFeeds_cons, ih]
    by_cases hb : b = '\n' <;> simp [hb, lineFeeds]

/-- Text without line feeds does not start another line. -/
theorem lastStart_append_of_count {s t : Bytes} (h : t.count ('\n' : UInt8) = 0) :
    lastStart (s ++ t) = lastStart s := by
  rw [lastStart_eq, lastStart_eq, lineFeeds_append, lineFeeds_eq_nil_iff.mpr h, List.map_nil,
    List.append_nil]

/-- Of two beginnings the longer one has more line feeds, or its last line starts at the same
place. -/
theorem count_take_lt_or (s : Bytes) {i j : Nat} (hle : i ≤ j) :
    (s.take i).count ('\n' : UInt8) < (s.take j).count ('\n' : UInt8)
      ∨ (s.take i).count ('\n' : UInt8) = (s.take j).count ('\n' : UInt8)
        ∧ lastStart (s.take i) = lastStart (s.take j) := by
  obtain ⟨k, rfl⟩ := Nat.exists_eq_add_of_le hle
  rw [List.take_add, List.count_append]
  by_cases hmore : ((s.drop i).take k).count ('\n' : UInt8) = 0
  · exact .inr ⟨by rw [hmore, Nat.add_zero], (lastStart_append_of_count hmore).symm⟩
  · exact .inl (by omega)

/-! ## Lines of a text -/

/-- Where line `n` of a text starts, counted from 0, if there is such a line. -/
def lineStart? (s : Bytes) : Nat → Option Nat
  | 0 => some 0
  | n + 1 => (lineFeeds s)[n]?.map (· + 1)

/-- The lines of a text are cut out from where they start up to the next line feed. -/
theorem getElem?_splitOnByte (s : Bytes) (n : Nat) :
    (splitOnByte '\n' s)[n]? = (lineStart? s n).map fun i =>
      (s.take ((lineFeeds s).getD n s.length)).drop i := by
  induction s generalizing n with
  | nil => cases n <;> rfl
  | cons b s ih =>
    have hstop (n : Nat) : ((lineFeeds s).map (· + 1)).getD n (s.length + 1)
        = (lineFeeds s).getD n s.length + 1 := by
      simp only [List.getD_eq_getElem?_getD, List.getElem?_map]
      cases (lineFeeds s)[n]? <;> rfl
    rw [splitOnByte_cons, lineFeeds_cons, List.length_cons]
    by_cases hb : b = '\n'
    · have hstart (n : Nat) : lineStart? (b :: s) (n + 1) = (lineStart? s n).map (· + 1) := by
        rw [lineStart?, lineFeeds_cons, if_pos hb]
        cases n with
        | zero => rfl
        | succ n => simp [lineStart?]
      rw [if_pos hb, if_pos hb, List.singleton_append]
      cases n with
      | zero => rfl
      | succ n =>
        rw [List.getElem?_cons_succ, ih, hstart, Option.map_map, List.getD_cons_succ, hstop]
        rfl
    · have hstart (n : Nat) : lineStart? (b :: s) (n + 1) = (lineStart? s (n + 1)).map (· + 1) := by
        rw [lineStart?, lineFeeds_cons, if_neg hb]
        simp [lineStart?]
      rw [if_neg hb, if_neg hb, List.nil_append, hstop]
      cases n with
      | zero =>
        have hfirst : (splitOnByte '\n' s).headD [] = s.take ((lineFeeds s).getD 0 s.length) := by
          rw [List.headD_eq_head?_getD, List.head?_eq_getElem?, ih]
          rfl
        rw [hfirst]
        rfl
      | succ n =>
        rw [List.getElem?_cons_succ, List.getElem?_tail, ih, hstart, Option.map_map]
        rfl

theorem dropSuffix_concat (s : Bytes) (b c : UInt8) :
    dropSuffix [b] (s ++ [c]) = if c = b then s else s ++ [c] := by
  have hsuffix : List.isSuffixOf [b] (s ++ [c]) = true ↔ c = b := by
    rw [List.isSuffixOf, List.reverse_concat]
    simp [List.isPrefixOf, eq_comm (a := b)]
  simp only [dropSuffix, hsuffix]
  split
  · simp
  · rfl

end Bytes

theorem Content.slice_eq_concat (c : Content) {start stop : Nat} (h : start < stop)
    (hstop : stop ≤ c.size) :
    c.slice start stop = c.slice start (stop - 1) ++ [c.getD (stop - 1) 0] := by
  have hlast := c.slice_eq_cons (show stop - 1 < stop by omega) hstop
  rw [Nat.sub_add_cancel (by omega), c.slice_self] at hlast
  rw [← c.slice_append (show start ≤ stop - 1 by omega) (Nat.sub_le stop 1), hlast]

/-! ## Halving -/

namespace File

/-- The search ends at the place up to which all line feeds stand before the offset, and from which
on none does. -/
theorem searchLine_eq {feeds : Array Nat} {offset r : Nat}
    (before : ∀ i < r, feeds.getD i 0 < offset)
    (behind : ∀ i, r ≤ i → i < feeds.size → offset ≤ feeds.getD i 0) {fuel lo hi : Nat}
    (hlo : lo ≤ r) (hhi : r ≤ hi) (hsize : hi ≤ feeds.size) (hfuel : hi - lo ≤ fuel) :
    searchLine feeds offset fuel lo hi = r := by
  induction fuel generalizing lo hi with
  | zero =>
    rw [searchLine]
    omega
  | succ fuel ih =>
    rw [searchLine]
    split
    · next hlt =>
      dsimp only
      split
      · next hmid =>
        have hnot : ¬ r ≤ (lo + hi) / 2 := fun hle => by
          have := behind _ hle (by omega)
          omega
        exact ih (by omega) hhi hsize (by omega)
      · next hmid =>
        have hnot : ¬ (lo + hi) / 2 < r := fun hlt => hmid (before _ hlt)
        exact ih hlo (by omega) (by omega) (by omega)
    · exact Nat.le_antisymm hlo (by omega)

/-! ## Positions -/

/-- A file whose list of line feeds is that of its content. -/
def Indexed (f : File) : Prop := f.lineFeeds.toList = f.bytes.lineFeeds

theorem indexed_ofBytes (id : FileId) (path bytes : Bytes) (flags : FileFlags) :
    (ofBytes id path bytes flags).Indexed := by
  simp only [Indexed, ofBytes, Content.lineFeeds, Array.toList_filter, Array.toList_range,
    List.size_toArray, Bytes.lineFeeds, File.bytes]
  congr 1
  funext i
  simp [Array.getD_eq_getD_getElem?]

variable {f : File} {offset : Nat}

theorem length_bytes (f : File) : f.bytes.length = f.size := Array.length_toList

theorem getD_lineFeeds (f : File) (i d : Nat) :
    f.lineFeeds.getD i d = f.lineFeeds.toList.getD i d := by
  simp [Array.getD_eq_getD_getElem?]

namespace Indexed

/-- The line feeds before an offset are the first ones. -/
theorem eq_append (h : f.Indexed) (hoffset : offset ≤ f.size) :
    f.lineFeeds.toList = Bytes.lineFeeds (f.bytes.take offset)
      ++ (Bytes.lineFeeds (f.bytes.drop offset)).map (· + offset) := by
  have happend := Bytes.lineFeeds_append (f.bytes.take offset) (f.bytes.drop offset)
  rwa [List.take_append_drop, ← h, List.length_take_of_le (by rwa [length_bytes])] at happend

theorem linesBefore_eq (h : f.Indexed) (hoffset : offset ≤ f.size) :
    f.linesBefore offset = (f.bytes.take offset).count ('\n' : UInt8) := by
  have happend := h.eq_append hoffset
  have hsize : f.lineFeeds.size = f.lineFeeds.toList.length := Array.length_toList.symm
  rw [happend, List.length_append, List.length_map] at hsize
  rw [← Bytes.length_lineFeeds]
  refine searchLine_eq (fun i hi => ?_) (fun i hle hi => ?_) (Nat.zero_le _) (by omega)
    (Nat.le_refl _) (by omega)
  · rw [getD_lineFeeds, happend, List.getD_append _ _ _ _ hi, List.getD_eq_getElem _ _ hi]
    exact Nat.lt_of_lt_of_le (Bytes.lt_length_of_mem_lineFeeds (List.getElem_mem hi))
      (List.length_take_le _ _)
  · rw [getD_lineFeeds, happend, List.getD_append_right _ _ _ _ hle,
      List.getD_eq_getElem _ _ (by rw [List.length_map]; omega), List.getElem_map]
    exact Nat.le_add_left _ _

/-- The line of an offset starts behind the last line feed before it. -/
theorem lineStart_eq (h : f.Indexed) (hoffset : offset ≤ f.size) :
    f.lineStart (f.linesBefore offset) = Bytes.lastStart (f.bytes.take offset) := by
  have happend := h.eq_append hoffset
  rw [h.linesBefore_eq hoffset, ← Bytes.length_lineFeeds, Bytes.lastStart_eq, lineStart]
  rcases List.eq_nil_or_concat (Bytes.lineFeeds (f.bytes.take offset)) with hnil | ⟨front, last, hlast⟩
  · rw [hnil]
    rfl
  · rw [getD_lineFeeds, happend, hlast, List.concat_eq_append]
    simp

/-- Line and column of an offset, as words. -/
theorem position_eq (h : f.Indexed) (hoffset : offset ≤ f.size) (small : f.size < Word.modulus) :
    f.position offset = ⟨Word.add ((f.bytes.take offset).count ('\n' : UInt8)) 1,
      Word.add (offset - Bytes.lastStart (f.bytes.take offset)) 1⟩ := by
  have hle : Bytes.lastStart (f.bytes.take offset) ≤ offset :=
    Nat.le_trans (Bytes.lastStart_le _) (List.length_take_le _ _)
  rw [position, h.lineStart_eq hoffset, h.linesBefore_eq hoffset,
    Word.sub_of_le hle (Nat.lt_of_le_of_lt hoffset small)]

/-- Different offsets have different positions. -/
theorem position_inj (h : f.Indexed) (small : f.size < Word.modulus) {other : Nat}
    (hoffset : offset ≤ f.size) (hother : other ≤ f.size)
    (heq : f.position offset = f.position other) : offset = other := by
  wlog hle : offset ≤ other generalizing offset other
  · exact (this hother hoffset heq.symm (by omega)).symm
  rw [h.position_eq hoffset small, h.position_eq hother small, Position.mk.injEq] at heq
  obtain ⟨hline, hcolumn⟩ := heq
  have hbelow {n : Nat} (hn : n ≤ f.size) : (f.bytes.take n).count ('\n' : UInt8) < Word.modulus :=
    Nat.lt_of_le_of_lt (Nat.le_trans List.count_le_length (List.length_take_le _ _))
      (Nat.lt_of_le_of_lt hn small)
  have hcount := Word.add_one_inj (hbelow hoffset) (hbelow hother) hline
  obtain ⟨-, hstart⟩ := (Bytes.count_take_lt_or f.bytes hle).resolve_left (by omega)
  have hbehind := Word.add_one_inj (by omega) (by omega) hcolumn
  have hlast : Bytes.lastStart (f.bytes.take offset) ≤ offset :=
    Nat.le_trans (Bytes.lastStart_le _) (List.length_take_le _ _)
  omega

/-- Before the largest word line and column are numbers counted from 1. -/
theorem position_eq_add_one (h : f.Indexed) (hoffset : offset ≤ f.size)
    (small : f.size < Word.modulus) (hword : offset + 1 < Word.modulus) :
    f.position offset = ⟨(f.bytes.take offset).count ('\n' : UInt8) + 1,
      offset - Bytes.lastStart (f.bytes.take offset) + 1⟩ := by
  have hcount : (f.bytes.take offset).count ('\n' : UInt8) ≤ offset :=
    Nat.le_trans List.count_le_length (List.length_take_le _ _)
  rw [h.position_eq hoffset small, Word.add_of_lt (by omega), Word.add_of_lt (by omega)]

/-- Positions are ordered as the offsets are. -/
theorem position_before (h : f.Indexed) (small : f.size < Word.modulus) {other : Nat}
    (hlt : offset < other) (hother : other ≤ f.size) (hword : other + 1 < Word.modulus) :
    (f.position offset).Before (f.position other) := by
  rw [h.position_eq_add_one (by omega) small (by omega),
    h.position_eq_add_one hother small hword]
  have hlast : Bytes.lastStart (f.bytes.take offset) ≤ offset :=
    Nat.le_trans (Bytes.lastStart_le _) (List.length_take_le _ _)
  rcases Bytes.count_take_lt_or f.bytes (Nat.le_of_lt hlt) with hmore | ⟨hsame, hstart⟩
  · exact .inl (Nat.succ_lt_succ hmore)
  · refine .inr ⟨congrArg (· + 1) hsame, ?_⟩
    rw [← hstart]
    show _ - _ + 1 < _ - _ + 1
    omega

end Indexed

/-! ## Lines -/

theorem slice_eq (f : File) (start stop : Nat) :
    f.content.slice start stop = (f.bytes.take stop).drop start := by
  rw [Content.slice, Array.toList_extract, List.extract_eq_take_drop, List.drop_take, bytes]

/-- A missing line is one behind the last line feed. -/
theorem lineStart?_eq_ite (f : File) (n : Nat) :
    f.lineStart? n = if f.lineFeeds.size < n then none else some (f.lineStart n) := by
  cases n with
  | zero => rfl
  | succ n =>
    rw [lineStart?]
    split
    · next hlt => rw [Array.getElem?_eq_none (by omega), Option.map_none]
    · next hlt =>
      have hn : n < f.lineFeeds.size := by omega
      rw [Array.getElem?_eq_getElem hn, Option.map_some, lineStart, if_neg (Nat.succ_ne_zero n),
        Nat.add_sub_cancel, Array.getD, dif_pos hn]
      rfl

/-- What is left of a cut without the carriage return at its end is the text under a span. -/
theorem dropSuffix_slice (start : Nat) {stop : Nat} (hstop : stop ≤ f.size) :
    Bytes.dropSuffix "\r" (f.content.slice start stop)
      = f.text (if start < stop ∧ f.content.getD (stop - 1) 0 = '\r' then ⟨f.id, start, stop - 1⟩
        else ⟨f.id, start, stop⟩) := by
  have hbyte : ("\r" : Bytes) = [('\r' : UInt8)] := rfl
  by_cases hlt : start < stop
  · rw [hbyte, Content.slice_eq_concat f.content hlt hstop, Bytes.dropSuffix_concat]
    split
    · next hreturn =>
      rw [if_pos ⟨hlt, hreturn⟩, text, Nat.min_eq_left (Nat.le_trans (Nat.sub_le stop 1) hstop)]
    · next hreturn =>
      rw [if_neg fun h => hreturn h.2, text, Nat.min_eq_left hstop,
        Content.slice_eq_concat f.content hlt hstop]
  · have hempty : f.content.slice start stop = [] :=
      List.eq_nil_of_length_eq_zero (by rw [Content.length_slice]; omega)
    rw [if_neg fun h => hlt h.1, text, Nat.min_eq_left hstop, hempty]
    rfl

namespace Indexed

theorem lineStart?_eq (h : f.Indexed) (n : Nat) : f.lineStart? n = f.bytes.lineStart? n := by
  cases n with
  | zero => rfl
  | succ n => rw [lineStart?, Bytes.lineStart?, ← h, Array.getElem?_toList]

/-- A line ends at a line feed or with the file. -/
theorem stop_le (h : f.Indexed) (n : Nat) : f.lineFeeds.getD n f.size ≤ f.size := by
  rw [getD_lineFeeds, h, List.getD_eq_getElem?_getD]
  cases hn : (Bytes.lineFeeds f.bytes)[n]? with
  | none => exact Nat.le_refl _
  | some i =>
    exact length_bytes f ▸ Nat.le_of_lt (Bytes.lt_length_of_mem_lineFeeds (List.mem_of_getElem? hn))

/-- The text of a line is what stands between two line feeds, without the carriage return at its
end. -/
theorem line_eq (h : f.Indexed) (n : Nat) : f.line n = if n = 0 then []
    else Bytes.dropSuffix "\r" ((Bytes.splitOnByte '\n' f.bytes).getD (n - 1) []) := by
  rw [line]
  split
  · rfl
  · rw [List.getD_eq_getElem?_getD, Bytes.getElem?_splitOnByte, ← h.lineStart?_eq]
    cases f.lineStart? (n - 1) with
    | none => rfl
    | some start =>
      show Bytes.dropSuffix "\r" (f.content.slice start (f.lineFeeds.getD (n - 1) f.size)) = _
      rw [Option.map_some, Option.getD_some, slice_eq, getD_lineFeeds, h, length_bytes]

/-- The text of a line is the text under its span. -/
theorem line_eq_text (h : f.Indexed) (n : Nat) : f.line n = f.text (f.lineSpan n) := by
  have hstop := h.stop_le (n - 1)
  rw [line, lineSpan]
  simp only [Bool.or_eq_true, Bool.and_eq_true, decide_eq_true_eq]
  by_cases hzero : n = 0
  · rw [if_pos hzero, if_pos (.inl hzero), text_of_empty]
  rw [if_neg hzero, lineStart?_eq_ite]
  by_cases hmissing : f.lineFeeds.size < n - 1
  · rw [if_pos hmissing, if_pos (.inr hmissing), text_of_empty]
  · rw [if_neg hmissing, if_neg (not_or.mpr ⟨hzero, hmissing⟩)]
    exact dropSuffix_slice _ hstop

end Indexed

end File

/-- Positions are exact.  The line of an offset is one more than the number of line feeds before it,
and its column one more than the distance from where the last of them ends, both as words; so no two
offsets have the same position, and positions are ordered as the offsets are.  (No word comes behind
the largest one, which is an offset only at the end of the largest file.)  Every line is the text
under its span: a piece of the text between line feeds without one carriage return at its end, and
nothing where there is no line. -/
theorem positions_exact (id : FileId) (path bytes : Bytes) (flags : FileFlags)
    (small : bytes.length < Word.modulus) :
    let f := File.ofBytes id path bytes flags
    let feeds (offset : Nat) := (bytes.take offset).count ('\n' : UInt8)
    let start (offset : Nat) := Bytes.lastStart (bytes.take offset)
    (∀ offset ≤ bytes.length,
      f.position offset = ⟨Word.add 1 (feeds offset), Word.add (offset - start offset) 1⟩ ∧
      (offset + 1 < Word.modulus →
        f.position offset = ⟨1 + feeds offset, offset - start offset + 1⟩)) ∧
    (∀ offset ≤ bytes.length, ∀ other ≤ bytes.length,
      f.position offset = f.position other → offset = other) ∧
    (∀ offset other, offset < other → other ≤ bytes.length → other + 1 < Word.modulus →
      (f.position offset).Before (f.position other)) ∧
    ∀ n, f.line n = f.text (f.lineSpan n) ∧
      f.line n = if n = 0 then []
        else Bytes.dropSuffix "\r" ((Bytes.splitOnByte '\n' bytes).getD (n - 1) []) := by
  intro f feeds start
  have h : f.Indexed := File.indexed_ofBytes id path bytes flags
  have hbytes : f.bytes = bytes := rfl
  have hsize : f.size = bytes.length := (File.length_bytes f).symm
  rw [← hsize] at small ⊢
  refine ⟨fun offset hoffset => ⟨?_, fun hword => ?_⟩, fun offset hoffset other hother => ?_,
    fun offset other hlt hother hword => ?_, fun n => ⟨h.line_eq_text n, h.line_eq n⟩⟩
  · rw [h.position_eq hoffset small, Word.add_comm]
    rfl
  · rw [h.position_eq_add_one hoffset small hword, Nat.add_comm]
    rfl
  · exact h.position_inj small hoffset hother
  · exact h.position_before small hlt hother hword

/-- The place behind an empty line, in a text of which one line ends with a carriage return. -/
theorem positions_exact_empty_line :
    let bytes : Bytes := "ab\r\ncd\n\nef"
    let f := File.ofBytes 0 "a.story" bytes
    bytes.length < Word.modulus ∧ f.position 8 = ⟨4, 1⟩ ∧ f.line 1 = "ab" ∧ f.line 9 = [] ∧
      f.text (f.lineSpan 1) = "ab" := by
  intro bytes f
  have small : bytes.length < Word.modulus := by decide
  obtain ⟨hposition, -, -, hline⟩ := positions_exact 0 "a.story" bytes {} small
  have hfirst : f.line 1 = "ab" := (hline 1).2.trans (by decide)
  refine ⟨small, ?_, hfirst, (hline 9).2.trans (by decide), (hline 1).1 ▸ hfirst⟩
  exact ((hposition 8 (by decide)).2 (by decide +kernel)).trans (by decide +kernel)

/-- Behind the last byte of the largest file, if it is one line, the column does not fit into a word
and comes out as 0: the last position of the file is before the first one. -/
theorem position_after_largest :
    let bytes : Bytes := List.replicate (Word.modulus - 1) 97
    let f := File.ofBytes 0 "a.story" bytes
    bytes.length < Word.modulus ∧ bytes.length = 4294967295 ∧ f.position 4294967295 = ⟨1, 0⟩ ∧
      f.position 0 = ⟨1, 1⟩ ∧ ¬ (f.position 0).Before (f.position 4294967295) := by
  intro bytes f
  have hlength : bytes.length = 4294967295 := List.length_replicate
  have hsize : f.size = 4294967295 := (File.length_bytes f).symm.trans hlength
  have small : f.size < Word.modulus := by rw [hsize]; decide
  -- no beginning of the text has a line feed, however long it is
  have hfeeds (offset : Nat) : (bytes.take offset).count ('\n' : UInt8) = 0 := by
    rw [List.take_replicate, List.count_replicate]
    exact if_neg (by decide)
  have hstart (offset : Nat) : Bytes.lastStart (bytes.take offset) = 0 := by
    rw [Bytes.lastStart_eq, Bytes.lineFeeds_eq_nil_iff.mpr (hfeeds offset)]
    rfl
  have hposition (offset : Nat) (hoffset : offset ≤ 4294967295) :
      f.position offset = ⟨1, Word.add offset 1⟩ := by
    rw [(File.indexed_ofBytes 0 "a.story" bytes {}).position_eq (hsize ▸ hoffset) small]
    show Position.mk (Word.add ((bytes.take offset).count _) 1)
      (Word.add (offset - Bytes.lastStart (bytes.take offset)) 1) = _
    rw [hfeeds, hstart]
    rfl
  have hlast : f.position 4294967295 = ⟨1, 0⟩ := hposition _ (Nat.le_refl _)
  have hfirst : f.position 0 = ⟨1, 1⟩ := hposition 0 (Nat.zero_le _)
  refine ⟨hlength ▸ by decide, hlength, hlast, hfirst, ?_⟩
  rw [hlast, hfirst]
  rintro (hline | ⟨-, hcolumn⟩)
  · exact Nat.lt_irrefl _ hline
  · exact Nat.not_lt_zero _ hcolumn

end Storyline
