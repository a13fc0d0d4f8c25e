import Mathlib.Data.List.Basic
import Storyline.Command.Serve
import Storyline.Proofs.Text.Ascii

/-!
# Messages come out of a stream as they went in

A frame is a header line, an empty line and the message.  Reading looks at line feeds and at the
length alone, so a message may hold anything, header lines and empty lines included: what counts is
that the header line, which the writer made, holds no line feed and spells a length that is read
back as the number it is.  `readAll` takes messages off a stream until none is left.

A stream that ends inside a frame is noticed with two exceptions.  Behind the header line the reader
stands where one more header line may begin, and behind the empty line where the message begins; in
both places it takes the end of the stream for an end between two messages (`HidesCut`).

A server answers the messages of its stream in their order, until one of them ends it or no more can
be taken off the stream (`serve_eq`).  It takes the end of a stream for the client's leaving, also
where the stream ends inside a frame at one of these two places.
-/

namespace Storyline

/-! ## Cutting at one byte -/

namespace Bytes

variable {c : UInt8} {s : Bytes}

theorem indexFrom_at (h : c ∉ s) (t : Bytes) (i : Nat) :
    indexFrom [c] i (s ++ c :: t) = some (i + s.length) := by
  induction s generalizing i with
  | nil => simp [indexFrom]
  | cons b s ih =>
    obtain ⟨hb, hs⟩ := not_or.mp fun hor => h (List.mem_cons.mpr hor)
    have hnext : ([c] : Bytes).isPrefixOf (b :: (s ++ c :: t)) = false := by
      simpa [List.isPrefixOf] using hb
    rw [List.cons_append, indexFrom, hnext, if_neg Bool.false_ne_true, ih hs, List.length_cons]
    congr 1
    omega

theorem indexFrom_none (h : c ∉ s) (i : Nat) : indexFrom [c] i s = none := by
  induction s generalizing i with
  | nil => rfl
  | cons b s ih =>
    obtain ⟨hb, hs⟩ := not_or.mp fun hor => h (List.mem_cons.mpr hor)
    have hnext : ([c] : Bytes).isPrefixOf (b :: s) = false := by
      simpa [List.isPrefixOf] using hb
    rw [indexFrom, hnext, if_neg Bool.false_ne_true, ih hs]

/-- A text is cut at the first of the bytes that are `c`. -/
theorem cut?_at (h : c ∉ s) (t : Bytes) : cut? [c] (s ++ c :: t) = some (s, t) := by
  rw [cut?, indexOf?, indexFrom_at h]
  simp

theorem cut?_none (h : c ∉ s) : cut? [c] s = none := by
  rw [cut?, indexOf?, indexFrom_none h, Option.map_none]

/-- Trimming stops at the first byte from the end that stays. -/
theorem trimRight_concat {p : UInt8 → Bool} (h : p c = false) :
    trimRight p (s ++ [c]) = s ++ [c] := by
  simp [trimRight, h]

theorem trimRight_concat_of {p : UInt8 → Bool} (h : p c = true) :
    trimRight p (s ++ [c]) = trimRight p s := by
  simp [trimRight, h]

end Bytes

namespace Rpc.Frame

/-! ## Header lines -/

/-- The header line of a message of `n` bytes, without the end of the line. -/
def headerLine (n : Nat) : Bytes := lengthHeader ++ ": " ++ Bytes.ofNat n

/-- What ends a line. -/
def lineBreak : Bytes := "\r\n"

variable {n : Nat} {p rest : Bytes}

theorem write_eq (p : Bytes) :
    write p = headerLine p.length ++ lineBreak ++ (lineBreak ++ p) := by
  have htwo : Bytes.ofString "\r\n\r\n" = lineBreak ++ lineBreak := by decide
  rw [write, htwo, headerLine]
  simp only [List.append_assoc]

theorem length_write (p : Bytes) :
    (write p).length = (headerLine p.length).length + 4 + p.length := by
  have htwo : lineBreak.length = 2 := by decide
  simp only [write_eq, List.length_append, htwo]
  omega

theorem lineFeed_not_mem_headerLine (n : Nat) : (10 : UInt8) ∉ headerLine n := by
  rw [headerLine, List.mem_append, not_or]
  exact ⟨by decide, fun h => absurd (Bytes.isDigit_of_mem_ofNat h) (by decide)⟩

/-- A header line ends in a digit, so that nothing but the end of the line is trimmed off it. -/
theorem trimRight_headerLine (n : Nat) :
    (headerLine n ++ [13]).trimRight (fun b => b = ('\r' : UInt8) || b = '\n') = headerLine n := by
  obtain hnil | ⟨ds, d, hd⟩ := List.eq_nil_or_concat (Bytes.ofNat n)
  · exact absurd hnil (Bytes.ofNat_ne_nil n)
  · rw [List.concat_eq_append] at hd
    have hdigit : Bytes.isDigit d = true := Bytes.isDigit_of_mem_ofNat (n := n) (by simp [hd])
    have hstays : (decide (d = ('\r' : UInt8)) || decide (d = ('\n' : UInt8))) = false := by
      rw [Bool.or_eq_false_iff]
      constructor <;>
        exact decide_eq_false fun h => absurd (h ▸ hdigit) (by decide)
    rw [Bytes.trimRight_concat_of (by decide), headerLine, hd, ← List.append_assoc,
      Bytes.trimRight_concat hstays]

theorem number?_digits {s : Bytes} (h : ∀ d ∈ s, Bytes.isDigit d = true) :
    number? s = (Bytes.toNat? s).filter (· ≤ maxNumber) := by
  unfold number?
  split
  · exact absurd (h _ List.mem_cons_self) (by decide)
  · exact absurd (h _ List.mem_cons_self) (by decide)
  · rfl

theorem number?_ofNat (n : Nat) :
    number? (Bytes.ofNat n) = if n ≤ maxNumber then some n else none := by
  rw [number?_digits fun d => Bytes.isDigit_of_mem_ofNat, Bytes.toNat?_ofNat, Option.filter_some]
  simp only [decide_eq_true_eq]

/-- The length in a header line that was written is read back, unless no number is that large. -/
theorem lengthOf?_headerLine (n : Nat) :
    lengthOf? (headerLine n)
      = some (if n ≤ maxNumber then .ok n else .error (.badLength (Bytes.ofNat n))) := by
  have hcolon : headerLine n = lengthHeader ++ 58 :: ((' ' : UInt8) :: Bytes.ofNat n) := by
    have hspelled : Bytes.ofString ": " = [58, 32] := by decide
    rw [headerLine, hspelled, List.append_assoc]
    rfl
  have hcut : Bytes.cut? ":" (headerLine n)
      = some (lengthHeader, (' ' : UInt8) :: Bytes.ofNat n) := by
    rw [hcolon]
    exact Bytes.cut?_at (by decide) _
  have hname : Bytes.sameLetters lengthHeader lengthHeader.trimBlank = true := by decide
  rw [lengthOf?, hcut]
  simp only [hname, if_true, Bytes.trimBlank_digits fun b => Bytes.isDigit_of_mem_ofNat,
    number?_ofNat]
  by_cases hn : n ≤ maxNumber
  · simp only [hn, if_true]
  · simp only [hn, if_false]

/-! ## The head of a frame -/

theorem readHead_headerLine (fuel : Nat) (length : Option Nat) (n : Nat) (rest : Bytes) :
    readHead (fuel + 1) length (headerLine n ++ lineBreak ++ rest)
      = if n ≤ maxNumber then readHead fuel (some n) rest
        else .failed (.badLength (Bytes.ofNat n)) := by
  have hline : line? (headerLine n ++ lineBreak ++ rest) = some (headerLine n ++ [13], rest) := by
    have hsplit : headerLine n ++ lineBreak ++ rest = (headerLine n ++ [13]) ++ 10 :: rest := by
      have hspelled : lineBreak = [13, 10] := by decide
      rw [hspelled]
      simp
    rw [hsplit]
    refine Bytes.cut?_at ?_ rest
    rw [List.mem_append, not_or]
    exact ⟨lineFeed_not_mem_headerLine n, by decide⟩
  have hfull : (headerLine n).isEmpty = false := by
    rw [List.isEmpty_eq_false_iff, headerLine]
    exact List.append_ne_nil_of_left_ne_nil (by decide) _
  simp only [readHead, hline, trimRight_headerLine, hfull, lengthOf?_headerLine]
  by_cases hn : n ≤ maxNumber
  · simp only [hn, if_true, Bool.false_eq_true, if_false]
  · simp only [hn, if_false, Bool.false_eq_true]

theorem readHead_lineBreak (fuel : Nat) (length : Option Nat) (rest : Bytes) :
    readHead (fuel + 1) length (lineBreak ++ rest) = .ended length rest := by
  have hline : line? (lineBreak ++ rest) = some ([13], rest) :=
    Bytes.cut?_at (s := [13]) (by decide) rest
  simp only [readHead, hline]
  rfl

/-- A line that the stream does not end is cut short, and no line is none. -/
theorem readHead_unended (fuel : Nat) (length : Option Nat) {s : Bytes} (h : (10 : UInt8) ∉ s) :
    readHead (fuel + 1) length s = if s = [] then .finished else .failed .cutShort := by
  have hline : line? s = none := Bytes.cut?_none h
  simp only [readHead, hline, List.isEmpty_iff]

/-! ## A frame -/

/-- What is next on a stream with this head. -/
def Head.next : Head → Next
  | .finished => .finished
  | .failed e => .failed e
  | .ended none _ => .failed .noLength
  | .ended (some n) rest =>
    if maxLength < n then .failed (.tooLong n)
    else if n ≤ rest.length then .message (rest.take n) (rest.drop n)
    else if rest.isEmpty then .finished
    else .failed .cutShort

theorem read_eq (s : Bytes) : read s = (readHead (s.length + 1) none s).next := by
  rw [read]
  cases readHead (s.length + 1) none s with
  | ended length rest => cases length <;> rfl
  | finished => rfl
  | failed e => rfl

theorem read_headerLine (n : Nat) (rest : Bytes) :
    ∃ fuel, read (headerLine n ++ lineBreak ++ rest)
      = if n ≤ maxNumber then (readHead (fuel + 1) (some n) rest).next
        else .failed (.badLength (Bytes.ofNat n)) := by
  have hlength : (headerLine n ++ lineBreak ++ rest).length
      = ((headerLine n).length + rest.length + 1) + 1 := by
    have htwo : lineBreak.length = 2 := by decide
    simp only [List.length_append, htwo]
    omega
  refine ⟨(headerLine n).length + rest.length + 1, ?_⟩
  rw [read_eq, hlength, readHead_headerLine]
  by_cases hn : n ≤ maxNumber
  · simp only [hn, if_true]
  · simp only [hn, if_false, Head.next]

theorem read_head (n : Nat) (rest : Bytes) :
    read (headerLine n ++ lineBreak ++ (lineBreak ++ rest))
      = if n ≤ maxNumber then (Head.ended (some n) rest).next
        else .failed (.badLength (Bytes.ofNat n)) := by
  obtain ⟨fuel, hread⟩ := read_headerLine n (lineBreak ++ rest)
  rw [hread, readHead_lineBreak]

/-- A message that is not too long is taken off the stream whole, and nothing else is. -/
theorem read_write (h : p.length ≤ maxLength) (rest : Bytes) :
    read (write p ++ rest) = .message p rest := by
  have hnumber : p.length ≤ maxNumber := h.trans (by decide)
  have hfits : p.length ≤ (p ++ rest).length := by simp
  rw [write_eq, List.append_assoc, List.append_assoc lineBreak p rest, read_head, if_pos hnumber,
    Head.next, if_neg (Nat.not_lt.mpr h), if_pos hfits, List.take_left, List.drop_left]

/-- A message that is too long is none, even if its frame is whole. -/
theorem read_write_long (h : maxLength < p.length) (rest : Bytes) :
    ∃ e, read (write p ++ rest) = .failed e := by
  rw [write_eq, List.append_assoc, List.append_assoc lineBreak p rest, read_head, Head.next,
    if_pos h]
  split
  · exact ⟨_, rfl⟩
  · exact ⟨_, rfl⟩

/-! ## All messages of a stream -/

theorem length_lt_of_line? {s line : Bytes} (h : line? s = some (line, rest)) :
    rest.length < s.length := by
  cases s with
  | nil => cases h
  | cons b s =>
    obtain ⟨i, -, hcut⟩ := Option.map_eq_some_iff.mp h
    obtain ⟨-, rfl⟩ := Prod.mk.inj hcut
    have hone : (Bytes.ofString "\n").length = 1 := by decide
    rw [List.length_drop, hone, List.length_cons]
    omega

theorem length_lt_of_readHead {fuel : Nat} {length found : Option Nat} {s : Bytes}
    (h : readHead fuel length s = .ended found rest) : rest.length < s.length := by
  induction fuel generalizing length s with
  | zero => cases h
  | succ fuel ih =>
    rw [readHead] at h
    cases hline : line? s with
    | none =>
      simp only [hline] at h
      split at h <;> cases h
    | some cut =>
      obtain ⟨line, after⟩ := cut
      have hless := length_lt_of_line? hline
      simp only [hline] at h
      split at h
      · cases h
        exact hless
      · split at h
        · exact (ih h).trans hless
        · exact (ih h).trans hless
        · cases h

theorem length_lt_of_read {s : Bytes} (h : read s = .message p rest) :
    rest.length < s.length := by
  rw [read_eq] at h
  cases hhead : readHead (s.length + 1) none s with
  | finished => rw [hhead] at h; cases h
  | failed e => rw [hhead] at h; cases h
  | ended length after =>
    have hless := length_lt_of_readHead hhead
    rw [hhead] at h
    cases length with
    | none => cases h
    | some n =>
      simp only [Head.next] at h
      split at h
      · cases h
      · split at h
        · cases h
          rw [List.length_drop]
          omega
        · split at h <;> cases h

/-- All messages of a stream in their order, and what is wrong behind the last of them. -/
def readAll (s : Bytes) : List Bytes × Option Error :=
  match h : read s with
  | .message p rest =>
    have : rest.length < s.length := length_lt_of_read h
    (p :: (readAll rest).1, (readAll rest).2)
  | .finished => ([], none)
  | .failed e => ([], some e)
termination_by s.length

theorem readAll_message {s : Bytes} (h : read s = .message p rest) :
    readAll s = (p :: (readAll rest).1, (readAll rest).2) := by
  rw [readAll]
  split <;> simp_all

theorem readAll_finished {s : Bytes} (h : read s = .finished) : readAll s = ([], none) := by
  rw [readAll]
  split <;> simp_all

theorem readAll_failed {s : Bytes} {e : Error} (h : read s = .failed e) :
    readAll s = ([], some e) := by
  rw [readAll]
  split <;> simp_all

/-- Whatever stands behind frames, their messages come first and the rest is read from there. -/
theorem readAll_writes_append {ps : List Bytes} (h : ∀ p ∈ ps, p.length ≤ maxLength)
    (rest : Bytes) :
    readAll (ps.flatMap write ++ rest) = (ps ++ (readAll rest).1, (readAll rest).2) := by
  induction ps with
  | nil => rfl
  | cons p ps ih =>
    obtain ⟨hp, hps⟩ := List.forall_mem_cons.mp h
    rw [List.flatMap_cons, List.append_assoc, readAll_message (read_write hp _), ih hps]
    rfl

/-- Only messages that are not too long are got past. -/
theorem short_of_readAll_writes {ps : List Bytes}
    (h : (readAll (ps.flatMap write ++ rest)).2 = none) : ∀ p ∈ ps, p.length ≤ maxLength := by
  induction ps with
  | nil => exact fun _ hp => absurd hp List.not_mem_nil
  | cons p ps ih =>
    rw [List.flatMap_cons, List.append_assoc] at h
    have hp : p.length ≤ maxLength := by
      by_contra hlong
      obtain ⟨e, hread⟩ := read_write_long (Nat.lt_of_not_le hlong) (ps.flatMap write ++ rest)
      rw [readAll_failed hread] at h
      cases h
    rw [readAll_message (read_write hp _)] at h
    exact List.forall_mem_cons.mpr ⟨hp, ih h⟩

/-- Messages that are written one after the other are read in this order, each whole, and behind
the last of them the stream ends. -/
theorem readAll_writes {ps : List Bytes} (h : ∀ p ∈ ps, p.length ≤ maxLength) :
    readAll (ps.flatMap write) = (ps, none) := by
  have hend : readAll [] = ([], none) := readAll_finished rfl
  have happend := readAll_writes_append h []
  rwa [List.append_nil, hend, List.append_nil] at happend

/-- Messages may look like headers and ends of lines, and may be empty. -/
theorem readAll_writes_lookalikes :
    let ps : List Bytes := ["Content-Length: 9\r\n\r\n", "", "\r\n"]
    (∀ p ∈ ps, p.length ≤ maxLength) ∧ readAll (ps.flatMap write) = (ps, none) := by
  intro ps
  have hshort : ∀ p ∈ ps, p.length ≤ maxLength := by decide
  exact ⟨hshort, readAll_writes hshort⟩

/-! ## A stream that ends inside a frame -/

/-- The places in the frame of a message where the end of the stream reads as an end behind a frame:
behind the header line, and behind the empty line. -/
def HidesCut (p : Bytes) (k : Nat) : Prop :=
  (k = (headerLine p.length).length + 2 ∧ p.length ≤ maxNumber)
    ∨ (k = (headerLine p.length).length + 4 ∧ p.length ≤ maxLength)

instance (p : Bytes) (k : Nat) : Decidable (HidesCut p k) := by
  unfold HidesCut
  exact inferInstance

theorem read_unended {s : Bytes} (h : (10 : UInt8) ∉ s) (hs : s ≠ []) :
    read s = .failed .cutShort := by
  rw [read_eq, readHead_unended _ _ h, if_neg hs, Head.next]

/-- Behind the header line the end of the stream goes unnoticed. -/
theorem read_cut_headerLine (n : Nat) :
    read (headerLine n ++ lineBreak)
      = if n ≤ maxNumber then .finished else .failed (.badLength (Bytes.ofNat n)) := by
  obtain ⟨fuel, hread⟩ := read_headerLine n []
  rw [List.append_nil] at hread
  rw [hread, readHead_unended _ _ List.not_mem_nil, if_pos rfl, Head.next]

/-- Inside the empty line it is noticed. -/
theorem read_cut_lineBreak (n : Nat) :
    ∃ e, read (headerLine n ++ lineBreak ++ [13]) = .failed e := by
  obtain ⟨fuel, hread⟩ := read_headerLine n [13]
  have hsome : ¬ ([13] : Bytes) = [] := by decide
  rw [hread, readHead_unended _ _ (by decide), if_neg hsome]
  split
  · exact ⟨_, rfl⟩
  · exact ⟨_, rfl⟩

/-- Behind the empty line it is noticed unless nothing of the message was there. -/
theorem read_cut_payload {j : Nat} (hj : j < p.length) :
    (read (headerLine p.length ++ lineBreak ++ (lineBreak ++ p.take j)) = .finished
        ∧ j = 0 ∧ p.length ≤ maxLength)
      ∨ ((∃ e, read (headerLine p.length ++ lineBreak ++ (lineBreak ++ p.take j)) = .failed e)
        ∧ ¬ (j = 0 ∧ p.length ≤ maxLength)) := by
  have hshort : ¬ p.length ≤ (p.take j).length := by
    rw [List.length_take]
    omega
  have hnone : (p.take j).isEmpty = true ↔ j = 0 := by
    rw [List.isEmpty_iff, List.take_eq_nil_iff]
    refine or_iff_left ?_
    rintro rfl
    exact Nat.not_lt_zero j hj
  rw [read_head]
  -- a number too great, a payload too long, and then whether any of it is there
  by_cases hnumber : p.length ≤ maxNumber
  · rw [if_pos hnumber, Head.next]
    by_cases hlong : maxLength < p.length
    · rw [if_pos hlong]
      exact .inr ⟨⟨_, rfl⟩, fun h => absurd h.2 (Nat.not_le.mpr hlong)⟩
    · rw [if_neg hlong, if_neg hshort]
      by_cases hj0 : j = 0
      · rw [if_pos (hnone.mpr hj0)]
        exact .inl ⟨rfl, hj0, Nat.not_lt.mp hlong⟩
      -- with some of the payload the end of the input comes too early
      · rw [if_neg fun h => hj0 (hnone.mp h)]
        exact .inr ⟨⟨_, rfl⟩, fun h => hj0 h.1⟩
  · rw [if_neg hnumber]
    have hmax : maxLength ≤ maxNumber := by decide
    exact .inr ⟨⟨_, rfl⟩, fun h => hnumber (h.2.trans hmax)⟩

/-- The first `k` bytes of a frame, by the part of the frame in which they end. -/
theorem take_write (p : Bytes) {k : Nat} (h : k < (write p).length) :
    (k ≤ (headerLine p.length).length + 1 ∧ (10 : UInt8) ∉ (write p).take k)
      ∨ (k = (headerLine p.length).length + 2
          ∧ (write p).take k = headerLine p.length ++ lineBreak)
      ∨ (k = (headerLine p.length).length + 3
          ∧ (write p).take k = headerLine p.length ++ lineBreak ++ [13])
      ∨ ∃ j < p.length, k = (headerLine p.length).length + 4 + j
          ∧ (write p).take k = headerLine p.length ++ lineBreak ++ (lineBreak ++ p.take j) := by
  have hlength := length_write p
  have hbreak : lineBreak = [13, 10] := by decide
  have hfirst : write p = (headerLine p.length ++ [13]) ++ (10 :: lineBreak ++ p) := by
    rw [write_eq, hbreak]
    simp
  have hsecond : write p = (headerLine p.length ++ lineBreak) ++ (lineBreak ++ p) := write_eq p
  -- the cut is in the header line, behind it, within the empty line, or in the payload
  rcases Nat.lt_or_ge k ((headerLine p.length).length + 2) with hk | hk
  · refine .inl ⟨by omega, fun hmem => ?_⟩
    rw [hfirst, List.take_append_of_le_length (by simp; omega)] at hmem
    rcases List.mem_append.mp (List.mem_of_mem_take hmem) with hline | hreturn
    · exact lineFeed_not_mem_headerLine _ hline
    · exact absurd hreturn (by decide)
  · have htake : (write p).take k = headerLine p.length ++ lineBreak
        ++ (lineBreak ++ p).take (k - ((headerLine p.length).length + 2)) := by
      have htwo : (headerLine p.length ++ lineBreak).length = (headerLine p.length).length + 2 := by
        simp [hbreak]
      rw [hsecond, List.take_append, List.take_of_length_le (by omega), htwo]
    obtain hk2 | hk3 | hk4 : k = (headerLine p.length).length + 2
        ∨ k = (headerLine p.length).length + 3
        ∨ (headerLine p.length).length + 4 ≤ k := by omega
    · refine .inr (.inl ⟨hk2, ?_⟩)
      rw [htake, hk2, Nat.sub_self, List.take_zero, List.append_nil]
    · refine .inr (.inr (.inl ⟨hk3, ?_⟩))
      have hone : k - ((headerLine p.length).length + 2) = 1 := by omega
      rw [htake, hone, hbreak]
      rfl
    · refine .inr (.inr (.inr ⟨k - ((headerLine p.length).length + 4), by omega, by omega, ?_⟩))
      have hmore : k - ((headerLine p.length).length + 2)
          -- of the two bytes of the empty line both are there
          = 2 + (k - ((headerLine p.length).length + 4)) := by omega
      have hpair : lineBreak.length = 2 := by decide
      rw [htake, hmore, ← hpair, List.take_length_add_append]

/-- A frame that is cut short is noticed but for the two places where its cut is hidden. -/
theorem read_take_write {p : Bytes} {k : Nat} (hpos : 0 < k) (h : k < (write p).length) :
    (read ((write p).take k) = .finished ∧ HidesCut p k)
      ∨ ((∃ e, read ((write p).take k) = .failed e) ∧ ¬ HidesCut p k) := by
  -- each place of the cut, with what the reader finds there
  rcases take_write p h with ⟨hk, hline⟩ | ⟨hk, htake⟩ | ⟨hk, htake⟩ | ⟨j, hj, hk, htake⟩
  · have hsome : (write p).take k ≠ [] := by
      rw [Ne, List.take_eq_nil_iff, not_or, ← List.length_eq_zero_iff]
      omega
    refine .inr ⟨⟨_, read_unended hline hsome⟩, ?_⟩
    rintro (⟨rfl, -⟩ | ⟨rfl, -⟩) <;> omega
  · rw [htake, read_cut_headerLine]
    by_cases hn : p.length ≤ maxNumber
    · exact .inl ⟨if_pos hn, .inl ⟨hk, hn⟩⟩
    · refine .inr ⟨⟨_, if_neg hn⟩, ?_⟩
      rintro (⟨-, hn'⟩ | ⟨hk', -⟩)
      · exact hn hn'
      · omega
  · refine .inr ⟨htake ▸ read_cut_lineBreak _, ?_⟩
    rintro (⟨hk', -⟩ | ⟨hk', -⟩) <;> omega
  · rw [htake]
    -- behind the empty line the cut shows as soon as a byte of the payload is there
    have hplace : HidesCut p k ↔ j = 0 ∧ p.length ≤ maxLength := by
      constructor
      · rintro (⟨hk', -⟩ | ⟨hk', hshort⟩)
        · omega
        · exact ⟨by omega, hshort⟩
      · rintro ⟨rfl, hshort⟩
        exact .inr ⟨hk, hshort⟩
    rw [hplace]
    exact read_cut_payload hj

end Rpc.Frame

/-! ## What a server does on a stream -/

namespace Rpc.Server

section

variable [SessionIds] [Outline.Fuzzy]

section

variable {σ : Type} {opener? : Option Opener} {see : σ → Step → σ}

/-- Answers messages until one of them ends the server. -/
def receiveAll (opener? : Option Opener) (see : σ → Step → σ) : List Bytes → Server → σ →
    Server × σ × Option Ending
  | [], s, seen => (s, seen, none)
  | payload :: payloads, s, seen =>
    let step := s.receive opener? payload
    match step.ending with
    | some e => (step.server, see seen step, some e)
    | none => receiveAll opener? see payloads step.server (see seen step)

/-- A server answers the messages of a stream; only if none of them ends it, the end of the stream
does. -/
theorem serve_eq {fuel : Nat} {input : Bytes} (h : input.length < fuel) (s : Server) (seen : σ) :
    serve opener? see fuel s seen input =
      let r := receiveAll opener? see (Frame.readAll input).1 s seen
      (r.1, r.2.1, r.2.2.or ((Frame.readAll input).2.map .stream)) := by
  induction fuel generalizing input s seen with
  | zero => exact absurd h (Nat.not_lt_zero _)
  | succ fuel ih =>
    cases hread : Frame.read input with
    | finished => simp only [serve, hread, Frame.readAll_finished hread, receiveAll]; rfl
    | failed e => simp only [serve, hread, Frame.readAll_failed hread, receiveAll]; rfl
    | message payload rest =>
      have hless := Frame.length_lt_of_read hread
      simp only [serve, hread, Frame.readAll_message hread, receiveAll]
      cases (s.receive opener? payload).ending with
      | some e => rfl
      | none => exact ih (by omega) _ _

end

variable (s : Server) (opener? : Option Opener)

theorem serveAll_ending (input : Bytes) :
    (serveAll s opener? input).2.2
      = (receiveAll opener? Transcript.add (Frame.readAll input).1 s {}).2.2.or
          ((Frame.readAll input).2.map .stream) := by
  rw [serveAll, serve_eq (Nat.lt_succ_self _)]

/-- A frame that is cut short is no message, and is taken for the end of the stream exactly where
its cut is hidden.  A server that gets it behind whole frames ends as if the client had left exactly
if it could take all their messages, none of these ended it, and the cut is hidden. -/
theorem serveAll_cut {p : Bytes} {k : Nat} (ps : List Bytes) (hpos : 0 < k)
    (hk : k < (Frame.write p).length) :
    (Frame.HidesCut p k → Frame.read ((Frame.write p).take k) = .finished)
      ∧ (¬ Frame.HidesCut p k → ∃ e, Frame.read ((Frame.write p).take k) = .failed e)
      ∧ ((serveAll s opener? (ps.flatMap Frame.write ++ (Frame.write p).take k)).2.2 = none
          ↔ (∀ q ∈ ps, q.length ≤ Frame.maxLength)
            ∧ (receiveAll opener? Transcript.add ps s {}).2.2 = none ∧ Frame.HidesCut p k) := by
  have hends : (serveAll s opener? (ps.flatMap Frame.write ++ (Frame.write p).take k)).2.2 = none
      ↔ (∀ q ∈ ps, q.length ≤ Frame.maxLength)
        ∧ (receiveAll opener? Transcript.add (ps ++ (Frame.readAll ((Frame.write p).take k)).1) s
            {}).2.2 = none
        ∧ (Frame.readAll ((Frame.write p).take k)).2 = none := by
    rw [serveAll_ending, Option.or_eq_none_iff, Option.map_eq_none_iff]
    constructor
    -- no frame before the cut is too long, so all of these are read
    · rintro ⟨hreceived, hrest⟩
      have hps := Frame.short_of_readAll_writes hrest
      rw [Frame.readAll_writes_append hps] at hreceived hrest
      exact ⟨hps, hreceived, hrest⟩
    · rintro ⟨hps, hreceived, hrest⟩
      rw [Frame.readAll_writes_append hps]
      exact ⟨hreceived, hrest⟩
  obtain ⟨hread, hhides⟩ | ⟨⟨e, hread⟩, hshows⟩ := Frame.read_take_write hpos hk
  · refine ⟨fun _ => hread, fun h => absurd hhides h, hends.trans ?_⟩
    simp [Frame.readAll_finished hread, hhides]
  · refine ⟨fun h => absurd h hshows, fun _ => ⟨e, hread⟩, hends.trans ?_⟩
    simp [Frame.readAll_failed hread, hshows]

end

/-- A cut in the middle of a message is noticed, behind a message that asks for nothing. -/
theorem serveAll_cut_inside :
    (∃ e, Frame.read ((Frame.write "hello").take 23) = .failed e)
      ∧ (serveAll { storage := default } none
          ([Bytes.ofString "\x7b\x7d"].flatMap Frame.write ++ (Frame.write "hello").take 23)).2.2
        ≠ none := by
  have hshows : ¬ Frame.HidesCut "hello" 23 := by decide
  obtain ⟨-, hfailed, hends⟩ := serveAll_cut { storage := default } none (p := "hello") (k := 23)
    [Bytes.ofString "\x7b\x7d"] (by decide) (by decide)
  exact ⟨hfailed hshows, fun h => hshows (hends.mp h).2.2⟩

/-- A stream of which only the head of a frame arrived, or the header line alone, reads as one that
is at its end, and a server ends on it as on a client that left. -/
theorem cut_frame_reads_finished :
    (0 < 21 ∧ 21 < (Frame.write "hello").length
      ∧ Frame.read ((Frame.write "hello").take 21) = .finished
      ∧ (serveAll { storage := default } none ((Frame.write "hello").take 21)).2.2 = none)
    ∧ Frame.read ((Frame.write "hello").take 19) = .finished
      ∧ (serveAll { storage := default } none ((Frame.write "hello").take 19)).2.2 = none := by
  decide

end Rpc.Server

end Storyline
