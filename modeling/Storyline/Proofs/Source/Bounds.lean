import Mathlib.Data.List.Basic
import Storyline.Markup.Bracket
import Storyline.Source.Cursor

/-!
# Cursors stay inside their file

`Cursor.In` says that a cursor reads a file of fewer than 2^32 bytes and stands inside it.  Every
way to move such a cursor that the readers use keeps it inside and never moves it back, and what is
cut out between two offsets is the text of the file under the span between them.

Skipping and looking ahead add words, and a sum that does not fit into a word goes round.  No move
leaves the file for that, but such a skip leads back, and looking ahead then finds a byte that the
cursor has passed: a cursor keeps its promises exactly as long as the sums fit
(`Cursor.moves_exact`).
-/

namespace Storyline

/-! ## Places in a file -/

/-- A span that belongs to a file and lies inside it. -/
structure Span.In (s : Span) (f : File) : Prop where
  file : s.file = f.id
  ordered : s.start ≤ s.stop
  within : s.stop ≤ f.size

theorem Content.length_slice (c : Content) (start stop : Nat) :
    (c.slice start stop).length = min stop c.size - start := by
  simp only [slice, Array.length_toList, Array.size_extract]

/-- What is cut out starts with the byte at its start. -/
theorem Content.slice_eq_cons (c : Content) {start stop : Nat} (h : start < stop)
    (hstop : stop ≤ c.size) : c.slice start stop = c.getD start 0 :: c.slice (start + 1) stop := by
  have hlt : start < c.toList.length := by simpa using Nat.lt_of_lt_of_le h hstop
  simp only [slice, Array.toList_extract, List.extract_eq_take_drop]
  rw [List.drop_eq_getElem_cons hlt, show stop - start = (stop - (start + 1)) + 1 by omega,
    List.take_succ_cons]
  simp [Array.getD, show start < c.size by simpa using hlt]

theorem Content.slice_self (c : Content) (i : Nat) : c.slice i i = [] :=
  List.eq_nil_of_length_eq_zero (by rw [length_slice]; omega)

/-- What stands between two places is what stands up to one between them, and from there on. -/
theorem Content.slice_append (c : Content) {i j k : Nat} (hij : i ≤ j) (hjk : j ≤ k) :
    c.slice i j ++ c.slice j k = c.slice i k := by
  simp only [slice, Array.toList_extract, List.extract_eq_take_drop]
  rw [show k - i = (j - i) + (k - j) by omega, List.take_add, List.drop_drop,
    Nat.add_sub_cancel' hij]

namespace File

theorem length_text (f : File) (s : Span) : (f.text s).length = min s.stop f.size - s.start := by
  rw [text, Content.length_slice]
  simp only [size]
  omega

/-- The text under a span inside the file is as long as the span. -/
theorem length_text_of_in {f : File} {s : Span} (h : s.In f) :
    (f.text s).length = s.stop - s.start := by
  rw [length_text, Nat.min_eq_left h.within]

theorem text_of_empty (f : File) (id : FileId) (i : Nat) : f.text ⟨id, i, i⟩ = [] :=
  List.eq_nil_of_length_eq_zero (by simp only [length_text]; omega)

/-- The text under a span that reaches up to the end of the file is a suffix of the file. -/
theorem text_isSuffix {f : File} {s : Span} (h : f.size ≤ s.stop) : f.text s <:+ f.bytes := by
  have : f.text s = f.bytes.drop s.start := by
    rw [text, Nat.min_eq_right h, Content.slice, bytes, Array.toList_extract,
      List.extract_eq_take_drop]
    exact List.take_of_length_le (by simp [size])
  rw [this]
  exact List.drop_suffix _ _

end File

/-! ## Words -/

/-- A sum of two words goes round at most once. -/
theorem Word.add_of_lt {a b : Nat} (h : a + b < modulus) : add a b = a + b := Nat.mod_eq_of_lt h

theorem Word.add_add (a b c : Nat) : add (add a b) c = add (a + b) c := Nat.mod_add_mod _ _ _

theorem Word.add_eq {a b : Nat} (ha : a < Word.modulus) (hb : b < Word.modulus) :
    Word.add a b = if a + b < Word.modulus then a + b else a + b - Word.modulus := by
  rw [Word.add]
  split
  · next hlt => exact Nat.mod_eq_of_lt hlt
  · next hge =>
    rw [Nat.mod_eq_sub_mod (Nat.le_of_not_lt hge), Nat.mod_eq_of_lt]
    omega

/-! ## Cursors in a file -/

namespace Cursor

/-- A cursor that stands inside a file of fewer than 2^32 bytes. -/
structure In (c : Cursor) (f : File) : Prop where
  content : c.content = f.content
  file : c.file = f.id
  limit : c.limit = f.size
  within : c.offset ≤ f.size
  small : f.size < Word.modulus

variable {c : Cursor} {f : File}

theorem In.moved (h : c.In f) {n : Nat} (hn : n ≤ f.size) : In { c with offset := n } f :=
  { h with within := hn }

/-- A cursor in the file that stands no earlier than another one. -/
structure Ahead (f : File) (c c' : Cursor) : Prop where
  here : c'.In f
  forward : c.offset ≤ c'.offset

theorem Ahead.refl (h : c.In f) : Ahead f c c := ⟨h, Nat.le_refl _⟩

theorem Ahead.trans {c' c'' : Cursor} (h : Ahead f c c') (h' : Ahead f c' c'') : Ahead f c c'' :=
  ⟨h'.here, Nat.le_trans h.forward h'.forward⟩

theorem In.ahead (h : c.In f) {n : Nat} (hle : c.offset ≤ n) (hn : n ≤ f.size) :
    Ahead f c { c with offset := n } :=
  ⟨h.moved hn, hle⟩

theorem slice_eq_text (h : c.In f) (start stop : Nat) :
    c.slice start stop = f.text (c.spanAt start stop) := by
  rw [slice, File.text, h.content, h.limit]
  rfl

theorem slice_eq_cons (h : c.In f) {start stop : Nat} (hlt : start < stop) (hstop : stop ≤ f.size) :
    c.slice start stop = c.byteAt start :: c.slice (start + 1) stop := by
  have hsize : min stop c.limit = stop := by rw [h.limit, Nat.min_eq_left hstop]
  rw [slice, slice, hsize, byteAt, Content.slice_eq_cons _ hlt (by rw [h.content]; exact hstop)]

theorem spanAt_in (h : c.In f) {start stop : Nat} (ordered : start ≤ stop) (within : stop ≤ f.size) :
    (c.spanAt start stop).In f :=
  ⟨h.file, ordered, within⟩

/-! ## Looking at bytes -/

theorem lt_of_peek (h : c.In f) {b : UInt8} (hb : c.peek = b) (hz : b ≠ 0) : c.offset < f.size := by
  by_contra hlt
  have : c.atEnd := by simpa [atEnd, h.limit] using Nat.le_of_not_lt hlt
  simp [peek, this] at hb
  exact hz hb.symm

theorem byteAt_of_peek (h : c.In f) {b : UInt8} (hb : c.peek = b) (hz : b ≠ 0) :
    c.byteAt c.offset = b := by
  have := lt_of_peek h hb hz
  rwa [peek, if_neg (by simpa [atEnd, h.limit] using this)] at hb

theorem lt_of_peekAt_one (h : c.In f) {b : UInt8} (hlt : c.offset < f.size) (hb : c.peekAt 1 = b)
    (hz : b ≠ 0) : c.offset + 1 < f.size := by
  have hw : Word.add c.offset 1 = c.offset + 1 :=
    Nat.mod_eq_of_lt (Nat.lt_of_le_of_lt hlt h.small)
  by_contra hge
  simp only [peekAt, hw, h.limit, if_pos (Nat.le_of_not_lt hge)] at hb
  exact hz hb.symm

theorem peek_eq_iff {b : UInt8} (hb : b ≠ 0) :
    c.peek = b ↔ c.offset < c.limit ∧ c.byteAt c.offset = b := by
  rw [peek, atEnd]
  by_cases hlt : c.offset < c.limit
  · simp [hlt, Nat.not_le_of_lt hlt]
  · simp [hlt, Nat.le_of_not_lt hlt, hb.symm]

theorem peekAt_one_eq_iff (h : c.In f) (hlt : c.offset < c.limit) {b : UInt8} (hb : b ≠ 0) :
    c.peekAt 1 = b ↔ c.offset + 1 < c.limit ∧ c.byteAt (c.offset + 1) = b := by
  have hword : Word.add c.offset 1 = c.offset + 1 :=
    Nat.mod_eq_of_lt (Nat.lt_of_le_of_lt (h.limit ▸ hlt) h.small)
  rw [peekAt, hword]
  by_cases hlt : c.offset + 1 < c.limit
  · simp [hlt, Nat.not_le_of_lt hlt]
  · simp [hlt, Nat.le_of_not_lt hlt, hb.symm]

theorem matchesAt_bound {i stop : Nat} :
    {p : Bytes} → p ≠ [] → c.matchesAt i stop p → i + p.length ≤ stop
  | [], hp, _ => absurd rfl hp
  | [_], _, h => by
    simp only [matchesAt, Bool.and_eq_true, decide_eq_true_eq] at h
    exact h.1.1
  | _ :: b :: p, _, h => by
    rw [matchesAt, Bool.and_eq_true] at h
    have := matchesAt_bound (List.cons_ne_nil b p) h.2
    simp only [List.length_cons] at this ⊢
    omega

theorem byteAt_of_matchesAt {i stop : Nat} {b : UInt8} {p : Bytes} (h : c.matchesAt i stop (b :: p)) :
    c.byteAt i = b := by
  simp only [matchesAt, Bool.and_eq_true, decide_eq_true_eq] at h
  exact h.1.2

theorem hasPrefix_bound (h : c.In f) {p : Bytes} (hp : c.hasPrefix p) :
    c.offset + p.length ≤ f.size := by
  by_cases he : p = []
  · simpa [he] using h.within
  · have : c.matchesAt c.offset c.limit p := by simpa [hasPrefix, he] using hp
    exact h.limit ▸ matchesAt_bound he this

/-! ## Moving -/

theorem next_eq (h : c.In f) (hlt : c.offset < f.size) :
    c.next = { c with offset := c.offset + 1 } := by
  rw [next, if_neg (by simpa [atEnd, h.limit] using hlt)]

theorem next_offset (h : c.In f) (hlt : c.offset < f.size) : c.next.offset = c.offset + 1 := by
  rw [next_eq h hlt]

theorem next_ahead (h : c.In f) : Ahead f c c.next := by
  rw [next]
  split
  · exact .refl h
  · next hend =>
    have : c.offset < f.size := by simpa [atEnd, h.limit] using hend
    exact h.ahead (Nat.le_succ _) this

theorem skip_offset (h : c.In f) {n : Nat} (hn : c.offset + n ≤ f.size) :
    (c.skip n).offset = c.offset + n := by
  have hw : Word.add c.offset n = c.offset + n := Nat.mod_eq_of_lt (Nat.lt_of_le_of_lt hn h.small)
  simp only [skip, hw, h.limit]
  omega

theorem skip_eq (h : c.In f) {n : Nat} (hn : c.offset + n ≤ f.size) :
    c.skip n = { c with offset := c.offset + n } := by
  have := skip_offset h hn
  rw [skip] at this ⊢
  simp only at this
  rw [this]

theorem skip_ahead (h : c.In f) {n : Nat} (hn : c.offset + n ≤ f.size) : Ahead f c (c.skip n) := by
  rw [skip_eq h hn]
  exact h.ahead (Nat.le_add_right _ _) hn

theorem runFrom_le (p : UInt8 → Bool) : (count i : Nat) → c.runFrom p count i ≤ count
  | 0, _ => Nat.le_refl _
  | count + 1, i => by
    rw [runFrom]
    split
    · exact Nat.succ_le_succ (runFrom_le p count (i + 1))
    · exact Nat.zero_le _

theorem runLength_bound (h : c.In f) (p : UInt8 → Bool) : c.offset + c.runLength p ≤ f.size := by
  have := c.runFrom_le p (c.limit - c.offset) c.offset
  have := h.within
  rw [h.limit] at *
  rw [runLength, h.limit]
  omega

theorem skipWhile_ahead (h : c.In f) (p : UInt8 → Bool) : Ahead f c (c.skipWhile p) :=
  h.ahead (Nat.le_add_right _ _) (runLength_bound h p)

theorem eatByte?_ahead (h : c.In f) {b : UInt8} {c' : Cursor} (he : c.eatByte? b = some c') :
    Ahead f c c' := by
  rw [eatByte?] at he
  split at he
  · next hc =>
    simp only [Option.some.injEq] at he
    subst he
    refine h.ahead (Nat.le_succ _) ?_
    simp only [atEnd, h.limit, Bool.and_eq_true, Bool.not_eq_true', decide_eq_false_iff_not] at hc
    exact Nat.lt_of_not_le hc.1
  · cases he

theorem rest_ahead (h : c.In f) (stop : Nat) : Ahead f c (c.rest stop).2 := by
  rw [rest]
  split
  · exact .refl h
  · next hlt => exact h.ahead (Nat.le_of_not_le hlt) (h.limit ▸ Nat.min_le_right _ _)

/-! ## Searching -/

theorem search_bound {p : Bytes} {stop : Nat} :
    {count start i : Nat} → c.search p stop count start = some i →
      start ≤ i ∧ c.matchesAt i stop p
  | 0, _, _, h => by simp [search] at h
  | count + 1, start, i, h => by
    rw [search] at h
    split at h
    · next hm =>
      cases h
      exact ⟨Nat.le_refl _, hm⟩
    · obtain ⟨hle, hm⟩ := search_bound h
      exact ⟨Nat.le_of_succ_le hle, hm⟩

theorem positionOf?_bound {p : Bytes} {limit i : Nat} (h : c.positionOf? p limit = some i) :
    c.offset ≤ i ∧ c.matchesAt i (min limit c.limit) p ∧ p ≠ [] := by
  rw [positionOf?] at h
  split at h
  · cases h
  · next hp =>
    obtain ⟨hle, hm⟩ := search_bound h
    exact ⟨hle, hm, by simpa using hp⟩

theorem positionOf?_within (h : c.In f) {p : Bytes} {limit i : Nat}
    (hi : c.positionOf? p limit = some i) : c.offset ≤ i ∧ i + p.length ≤ f.size := by
  obtain ⟨hle, hm, hp⟩ := positionOf?_bound hi
  have := matchesAt_bound hp hm
  rw [h.limit] at this
  exact ⟨hle, by omega⟩

theorem closeDistance_go_lt {opening closing : UInt8} {depth : Nat} {quote : Option UInt8}
    {i n : Nat} {text : Bytes}
    (h : Markup.closeDistance.go opening closing depth quote i text = some n) :
    n < i + text.length := by
  fun_induction Markup.closeDistance.go opening closing depth quote i text with
  | case1 | case2 => cases h
  | case7 =>
    cases h
    exact Nat.lt_add_of_pos_right (Nat.succ_pos _)
  | case3 | case4 | case5 | case6 | case8 | case9 =>
    next ih =>
    have := ih h
    simp only [List.length_cons]
    omega

theorem closeOffset?_within (h : c.In f) {opening closing : UInt8} {limit i : Nat}
    (hi : c.closeOffset? opening closing limit = some i) : c.offset ≤ i ∧ i + 1 ≤ f.size := by
  rw [closeOffset?, Option.map_eq_some_iff] at hi
  obtain ⟨n, hn, rfl⟩ := hi
  have hlt := closeDistance_go_lt (by exact hn)
  rw [slice_eq_text h, File.length_text] at hlt
  simp only [spanAt] at hlt
  omega

/-! ## Lines -/

/-- Whether a byte takes part in no line ending. -/
def isPlain (b : UInt8) : Bool := b != '\r' && b != '\n'

theorem lineEnd_within (h : c.In f) (crlf : Bool) :
    c.offset ≤ c.lineEnd crlf ∧ c.lineEnd crlf ≤ f.size := by
  rw [lineEnd]
  cases hp : c.positionOf? (if crlf then "\r\n" else "\n") c.limit with
  | none => exact ⟨h.limit ▸ h.within, by simp [h.limit]⟩
  | some i =>
    obtain ⟨hle, hin⟩ := positionOf?_within h hp
    exact ⟨hle, Nat.le_trans (Nat.le_add_right _ _) hin⟩

/-- Where a line ends before the end of the file stands a line ending. -/
theorem lineEnd_byte (h : c.In f) (crlf : Bool) :
    c.lineEnd crlf = f.size ∨ isPlain (c.byteAt (c.lineEnd crlf)) = false := by
  rw [lineEnd]
  cases hp : c.positionOf? (if crlf then "\r\n" else "\n") c.limit with
  | none => exact .inl (by simp [h.limit])
  | some i =>
    obtain ⟨-, hm, -⟩ := positionOf?_bound hp
    cases crlf with
    | false =>
      have : c.byteAt i = 10 := byteAt_of_matchesAt (p := []) hm
      exact .inr (by simp [this]; rfl)
    | true =>
      have : c.byteAt i = 13 := byteAt_of_matchesAt (p := [10]) hm
      exact .inr (by simp [this]; rfl)

/-- Bytes that take part in no line ending belong to the line. -/
theorem le_of_isPlain {n stop : Nat} (hle : c.offset ≤ stop)
    (hn : ∀ j < n, isPlain (c.byteAt (c.offset + j)))
    (hs : c.offset + n ≤ stop ∨ isPlain (c.byteAt stop) = false) : c.offset + n ≤ stop := by
  rcases hs with hs | hs
  · exact hs
  · by_contra hlt
    have := hn (stop - c.offset) (by omega)
    rw [Nat.add_sub_cancel' hle, hs] at this
    cases this

/-! ## Any moves -/

/-- A way to move a cursor. -/
inductive Move where
  | next
  | skip (n : UInt32)
  | eat (p : Bytes)
  | eatByte (b : UInt8)
  | consumeUntil (p : Bytes)
  | rest (stop : UInt32)

/-- The cursor after a move; where there is nothing to consume it stays. -/
def moved (c : Cursor) : Move → Cursor
  | .next => c.next
  | .skip n => c.skip n.toNat
  | .eat p => (c.eat? p).getD c
  | .eatByte b => (c.eatByte? b).getD c
  | .consumeUntil p => ((c.consumeUntil? p).map (·.2)).getD c
  | .rest stop => (c.rest stop.toNat).2

/-- The cursor after moves, one after the other. -/
def movedAll (c : Cursor) (moves : List Move) : Cursor := moves.foldl moved c

/-- A move that skips so many bytes that adding them to the offset goes round. -/
def Overflows (c : Cursor) : Move → Prop
  | .skip n => Word.modulus ≤ c.offset + n.toNat
  | _ => False

instance (c : Cursor) : (move : Move) → Decidable (c.Overflows move)
  | .skip n => inferInstanceAs (Decidable (Word.modulus ≤ c.offset + n.toNat))
  | .next | .eat _ | .eatByte _ | .consumeUntil _ | .rest _ => inferInstanceAs (Decidable False)

theorem skip_in (h : c.In f) (n : Nat) : (c.skip n).In f :=
  h.moved (h.limit ▸ Nat.min_le_right _ _)

/-- A skip that goes round ends before the place where it started. -/
theorem skip_offset_eq (h : c.In f) {n : Nat} (hn : n < Word.modulus) :
    (c.skip n).offset = if c.offset + n < Word.modulus then min c.limit (c.offset + n)
      else c.offset + n - Word.modulus := by
  have hwithin := h.within
  have hoffset : c.offset < Word.modulus := Nat.lt_of_le_of_lt hwithin h.small
  rw [skip, Word.add_eq hoffset hn, h.limit]
  dsimp only
  split <;> omega

theorem eat?_ahead (h : c.In f) {p : Bytes} {c' : Cursor} (he : c.eat? p = some c') :
    Ahead f c c' := by
  rw [eat?] at he
  split at he
  · next hp =>
    obtain rfl := Option.some.inj he
    exact h.ahead (Nat.le_add_right _ _) (hasPrefix_bound h hp)
  · cases he

theorem consumeUntil?_ahead (h : c.In f) {p : Bytes} {r : Bytes × Cursor}
    (hr : c.consumeUntil? p = some r) : Ahead f c r.2 := by
  obtain ⟨i, hi, rfl⟩ := Option.map_eq_some_iff.mp hr
  obtain ⟨hle, hin⟩ := positionOf?_within h hi
  exact h.ahead (Nat.le_add_right_of_le hle) hin

/-- A move that may find nothing leads forward if it does so where it finds something. -/
theorem In.getD_ahead (h : c.In f) {o : Option Cursor} (ho : ∀ c', o = some c' → Ahead f c c') :
    Ahead f c (o.getD c) := by
  cases o with
  | none => exact .refl h
  | some c' => exact ho c' rfl

/-- A move leads forward unless it overflows. -/
theorem moved_ahead (h : c.In f) {move : Move} (hfits : ¬ c.Overflows move) :
    Ahead f c (c.moved move) := by
  cases move with
  | next => exact next_ahead h
  | skip n =>
    have hlt : c.offset + n.toNat < Word.modulus := Nat.lt_of_not_le hfits
    refine ⟨skip_in h _, ?_⟩
    rw [moved, skip_offset_eq h n.toNat_lt, if_pos hlt, h.limit]
    exact Nat.le_min.mpr ⟨h.within, Nat.le_add_right _ _⟩
  | eat p => exact h.getD_ahead fun _ he => eat?_ahead h he
  | eatByte b => exact h.getD_ahead fun _ he => eatByte?_ahead h he
  | consumeUntil p =>
    refine h.getD_ahead fun c' hc => ?_
    obtain ⟨r, hr, rfl⟩ := Option.map_eq_some_iff.mp hc
    exact consumeUntil?_ahead h hr
  | rest stop => exact rest_ahead h stop.toNat

/-- One that overflows leads back. -/
theorem moved_offset_lt (h : c.In f) {move : Move} (hover : c.Overflows move) :
    (c.moved move).offset < c.offset := by
  cases move with
  | skip n =>
    have hge : Word.modulus ≤ c.offset + n.toNat := hover
    have hn : n.toNat < Word.modulus := n.toNat_lt
    rw [moved, skip_offset_eq h hn, if_neg (Nat.not_lt_of_le hge)]
    omega
  | next | eat p | eatByte b | consumeUntil p | rest stop => exact hover.elim

theorem moved_in (h : c.In f) (move : Move) : (c.moved move).In f := by
  cases move with
  | skip n => exact skip_in h _
  | next | eat p | eatByte b | consumeUntil p | rest stop => exact (moved_ahead h id).here

theorem movedAll_in (h : c.In f) (moves : List Move) : (c.movedAll moves).In f := by
  induction moves generalizing c with
  | nil => exact h
  | cons move moves ih => exact ih (moved_in h move)

/-- Looking ahead reads the byte at the sum, which may have gone round. -/
theorem peekAt_eq (h : c.In f) {n : Nat} (hn : n < Word.modulus) :
    c.peekAt n = if c.offset + n < c.limit then c.byteAt (c.offset + n)
      else if c.offset + n < Word.modulus then 0 else c.byteAt (c.offset + n - Word.modulus) := by
  have hwithin := h.within
  have hsmall := h.small
  have hoffset : c.offset < Word.modulus := Nat.lt_of_le_of_lt hwithin hsmall
  rw [peekAt, Word.add_eq hoffset hn, h.limit]
  by_cases hlt : c.offset + n < Word.modulus
  · by_cases hin : c.offset + n < f.size
    · simp only [if_pos hlt, if_pos hin, if_neg (Nat.not_le_of_lt hin)]
    · simp only [if_pos hlt, if_neg hin, if_pos (Nat.le_of_not_lt hin)]
  · have hout : ¬ c.offset + n < f.size := fun hin => hlt (Nat.lt_trans hin hsmall)
    have hback : ¬ f.size ≤ c.offset + n - Word.modulus := by omega
    simp only [if_neg hlt, if_neg hout, if_neg hback]

/-! ## What moves promise -/

/-- The next move leads forward exactly if it does not overflow. -/
theorem le_moved_iff (h : c.In f) (move : Move) :
    c.offset ≤ (c.moved move).offset ↔ ¬ c.Overflows move :=
  ⟨fun hle hover => Nat.not_lt_of_le hle (moved_offset_lt h hover),
    fun hfits => (moved_ahead h hfits).forward⟩

/-- A skip ends where it says, or at the limit, exactly if it does not overflow. -/
theorem skip_offset_iff (h : c.In f) {n : Nat} (hn : n < Word.modulus) :
    (c.skip n).offset = min c.limit (c.offset + n) ↔ c.offset + n < Word.modulus := by
  have hwithin : c.offset ≤ c.limit := h.limit ▸ h.within
  rw [skip_offset_eq h hn]
  split
  · next hlt => exact iff_of_true rfl hlt
  · next hge =>
    -- behind the end of the words a skip comes out before the cursor, and before the limit
    refine iff_of_false (fun heq => ?_) hge
    have hback : c.offset + n - Word.modulus < min c.limit (c.offset + n) :=
      Nat.lt_min.mpr ⟨by omega, by omega⟩
    exact absurd heq (Nat.ne_of_lt hback)

/-- Looking ahead gives the byte where it says, or 0 from the limit on, exactly if the sum does not
overflow or a 0 stands where it comes out. -/
theorem peekAt_iff (h : c.In f) {n : Nat} (hn : n < Word.modulus) :
    c.peekAt n = (if c.offset + n < c.limit then c.byteAt (c.offset + n) else 0) ↔
      c.offset + n < Word.modulus ∨ c.byteAt (c.offset + n - Word.modulus) = 0 := by
  rw [peekAt_eq h hn]
  by_cases hlt : c.offset + n < Word.modulus
  · rw [if_pos hlt]
    exact iff_of_true rfl (.inl hlt)
  · have hlimit : c.limit < Word.modulus := h.limit ▸ h.small
    have hout : ¬ c.offset + n < c.limit := fun hin => hlt (Nat.lt_trans hin hlimit)
    rw [if_neg hout, if_neg hout, if_neg hlt]
    exact (or_iff_right hlt).symm

/-- A cursor at the start of some bytes stands in a file of these bytes. -/
theorem ofContent_in (content : Content) (file : FileId) (small : content.size < Word.modulus) :
    (ofContent content file).In ⟨file, [], content, content.lineFeeds, {}⟩ :=
  ⟨rfl, rfl, rfl, Nat.zero_le _, small⟩

/-- Wherever moves lead a cursor from the start of some bytes, it stands in them or at their end.
The next move leads forward, a skip ends as many bytes ahead as it says or at the limit, and looking
ahead gives the byte that stands there, or 0 from the limit on: all this exactly if the sum of the
offset and the argument fits into a word.  Where it does not, looking ahead is right by chance if it
finds a 0. -/
theorem moves_exact (content : Content) (file : FileId) (small : content.size < Word.modulus)
    (moves : List Move) :
    let c := (ofContent content file).movedAll moves
    (c.content = content ∧ c.limit = content.size ∧ c.offset ≤ c.limit) ∧
    (∀ move, c.offset ≤ (c.moved move).offset ↔ ¬ c.Overflows move) ∧
    (∀ n : UInt32, (c.skip n.toNat).offset = min c.limit (c.offset + n.toNat) ↔
      c.offset + n.toNat < Word.modulus) ∧
    ∀ n : UInt32, c.peekAt n.toNat =
        (if c.offset + n.toNat < c.limit then c.byteAt (c.offset + n.toNat) else 0) ↔
      c.offset + n.toNat < Word.modulus ∨ c.byteAt (c.offset + n.toNat - Word.modulus) = 0 := by
  intro c
  have h := movedAll_in (ofContent_in content file small) moves
  exact ⟨⟨h.content, h.limit, h.limit ▸ h.within⟩, le_moved_iff h,
    fun n => skip_offset_iff h n.toNat_lt, fun n => peekAt_iff h n.toNat_lt⟩

/-- From behind the first byte of three, a skip of two bytes ends at the limit and looking ahead by
one byte gives the last one. -/
theorem moves_exact_abc : (#[97, 98, 99] : Content).size < Word.modulus ∧
    let c := (ofContent #[97, 98, 99] 0).movedAll [.eat [97]]
    c.offset = 1 ∧ c.offset ≤ (c.moved (.skip 2)).offset ∧ (c.skip 2).offset = 3 ∧
      c.peekAt 1 = 99 := by
  have small : (#[97, 98, 99] : Content).size < Word.modulus := by decide
  obtain ⟨-, hforward, hskip, hpeek⟩ := moves_exact _ 0 small [.eat [97]]
  refine ⟨small, by decide, (hforward (.skip 2)).mpr (by decide), ?_, ?_⟩
  · exact (hskip 2).mpr (by decide)
  · exact (hpeek 1).mpr (.inl (by decide))

/-- A skip by the largest word leads back by one byte, and looking ahead by it gives the byte before
the cursor, where both say that they stop at the end. -/
theorem skip_goes_back :
    let c := (ofContent #[97, 98] 0).movedAll [.next]
    (¬ ∀ move, c.offset ≤ (c.moved move).offset) ∧
    (¬ ∀ n : UInt32, (c.skip n.toNat).offset = min c.limit (c.offset + n.toNat)) ∧
    ¬ ∀ n : UInt32, c.peekAt n.toNat =
      if c.offset + n.toNat < c.limit then c.byteAt (c.offset + n.toNat) else 0 := by
  refine ⟨fun h => absurd (h (.skip 4294967295)) ?_, fun h => absurd (h 4294967295) ?_,
    fun h => absurd (h 4294967295) ?_⟩ <;> decide

end Cursor

end Storyline
