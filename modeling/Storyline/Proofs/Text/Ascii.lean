import Mathlib.Data.List.TakeWhile
import Storyline.Text.Glyph

/-!
# Text in ASCII

A byte below 0x80 is a character of its own, whatever follows it.  So white space is trimmed from a
text in ASCII byte by byte, and the decimal spelling of a number, which is such a text, is read back
as the number.
-/

namespace Storyline.Bytes

/-! ## Glyphs -/

theorem glyphsFrom_append (acc : Array Glyph) (skip : Nat) (s : Bytes) :
    (glyphsFrom acc skip s).toList = acc.toList ++ (glyphsFrom #[] skip s).toList := by
  induction s generalizing acc skip with
  | nil => simp [glyphsFrom]
  | cons b s ih =>
    cases skip with
    | succ n => exact ih acc n
    | zero =>
      simp only [glyphsFrom]
      rw [ih, ih (#[].push _)]
      simp

theorem glyphs_cons_ascii {b : UInt8} (h : b < 0x80) (s : Bytes) :
    glyphs (b :: s) = .char (Char.ofNat b.toNat) :: glyphs s := by
  simp only [glyphs, glyphsFrom, Glyph.head, h, if_true]
  rw [glyphsFrom_append]
  simp

/-- The bytes of a character behind its first one are not in ASCII. -/
theorem head_taken (b : UInt8) (rest : Bytes) :
    ∀ x ∈ rest.take (Glyph.head b rest).2, 0x80 ≤ x := by
  have hcontinues {c : UInt8} (h : Glyph.isContinuation c = true) : 0x80 ≤ c := by
    simp only [Glyph.isContinuation, Bool.and_eq_true, decide_eq_true_eq] at h
    exact h.1
  have hsecond {c : UInt8} (h : Glyph.secondByteOk b c = true) : 0x80 ≤ c := by
    rw [Glyph.secondByteOk] at h
    split_ifs at h
    · simp only [Bool.and_eq_true, decide_eq_true_eq] at h
      exact UInt8.le_trans (by decide) h.1
    · simp only [Bool.and_eq_true, decide_eq_true_eq] at h
      exact h.1
    · simp only [Bool.and_eq_true, decide_eq_true_eq] at h
      exact UInt8.le_trans (by decide) h.1
    · simp only [Bool.and_eq_true, decide_eq_true_eq] at h
      exact h.1
    · exact hcontinues h
  have hnone : ∀ x ∈ rest.take 0, 0x80 ≤ x := by simp
  unfold Glyph.head
  split
  · exact hnone
  split
  · split
    · split
      · next h => simpa using hcontinues h
      · exact hnone
    · exact hnone
  split
  · split
    · split
      · next h =>
        rw [Bool.and_eq_true] at h
        simpa using ⟨hsecond h.1, hcontinues h.2⟩
      · exact hnone
    · exact hnone
  split
  · split
    · split
      · next h =>
        simp only [Bool.and_eq_true] at h
        simpa using ⟨hsecond h.1.1, hcontinues h.1.2, hcontinues h.2⟩
      · exact hnone
    · exact hnone
  · exact hnone

/-- A byte in ASCII is a character of its own wherever it stands. -/
theorem mem_glyphs_of_ascii {a : UInt8} (ha : a < 0x80) {s : Bytes} (h : a ∈ s) :
    .char (Char.ofNat a.toNat) ∈ s.glyphs := by
  suffices hmem : ∀ acc skip, (∀ x ∈ s.take skip, 0x80 ≤ x) →
      .char (Char.ofNat a.toNat) ∈ (glyphsFrom acc skip s).toList from
    hmem #[] 0 (by simp)
  induction s with
  | nil => cases h
  | cons b s ih =>
    intro acc skip hskip
    cases skip with
    | succ skip =>
      obtain ⟨hb, hskip⟩ := List.forall_mem_cons.mp hskip
      have hne : a ≠ b := by
        rintro rfl
        exact UInt8.not_le.mpr ha hb
      exact ih ((List.mem_cons.mp h).resolve_left hne) acc skip hskip
    | zero =>
      simp only [glyphsFrom]
      rcases List.mem_cons.mp h with rfl | h
      · rw [glyphsFrom_append]
        simp [Glyph.head, ha]
      · exact ih h _ _ (head_taken b s)

/-- A text with a byte in ASCII that is no white space is not blank. -/
theorem trimBlank_ne_nil {a : UInt8} (ha : a < 0x80)
    (hdark : Text.isBlank (Char.ofNat a.toNat) = false) {s : Bytes} (h : a ∈ s) :
    s.trimBlank ≠ [] := by
  have hkept {gs : List Glyph} (hg : .char (Char.ofNat a.toNat) ∈ gs) :
      .char (Char.ofNat a.toNat) ∈ gs.dropWhile Text.isBlankGlyph := by
    rw [← List.takeWhile_append_dropWhile (p := Text.isBlankGlyph) (l := gs)] at hg
    refine (List.mem_append.mp hg).resolve_left fun hblank => ?_
    have hblank := List.mem_takeWhile_imp hblank
    rw [Text.isBlankGlyph, hdark] at hblank
    cases hblank
  intro hnil
  have hbytes := List.flatMap_eq_nil_iff.mp hnil _ <| List.mem_reverse.mpr <| hkept <|
    List.mem_reverse.mpr <| hkept <| mem_glyphs_of_ascii ha h
  exact String.utf8EncodeChar_ne_nil hbytes

/-! ## Decimal digits -/

/-- A decimal digit is in ASCII, is spelled by itself, and is no white space. -/
theorem digit_glyph {b : UInt8} (h : isDigit b = true) :
    b < 0x80 ∧ (Glyph.char (Char.ofNat b.toNat)).bytes = [b]
      ∧ Text.isBlankGlyph (.char (Char.ofNat b.toNat)) = false := by
  have hall : ∀ n < 10, (48 + n).toUInt8 < 0x80
      ∧ (Glyph.char (Char.ofNat (48 + n))).bytes = [(48 + n).toUInt8]
      ∧ Text.isBlankGlyph (.char (Char.ofNat (48 + n))) = false := by decide
  simp only [isDigit, UInt8.le_iff_toNat_le, UInt8.reduceToNat, Bool.and_eq_true,
    decide_eq_true_eq] at h
  obtain ⟨n, hn⟩ := Nat.exists_eq_add_of_le h.1
  have hb : b = (48 + n).toUInt8 := by
    rw [← hn]
    simp
  rw [hn, hb]
  exact hall n (by omega)

theorem glyphs_digits {s : Bytes} (h : ∀ b ∈ s, isDigit b = true) :
    s.glyphs = s.map fun b => .char (Char.ofNat b.toNat) := by
  induction s with
  | nil => rfl
  | cons b s ih =>
    obtain ⟨hb, hs⟩ := List.forall_mem_cons.mp h
    rw [glyphs_cons_ascii (digit_glyph hb).1, ih hs, List.map_cons]

/-- Trimming takes nothing but the white space away from digits behind a space. -/
theorem trimBlank_digits {s : Bytes} (h : ∀ b ∈ s, isDigit b = true) :
    trimBlank ((' ' : UInt8) :: s) = s := by
  have hdark : ∀ g ∈ s.glyphs, Text.isBlankGlyph g = false := by
    rw [glyphs_digits h]
    intro g hg
    obtain ⟨b, hb, rfl⟩ := List.mem_map.mp hg
    exact (digit_glyph (h b hb)).2.2
  have hkeep (gs : List Glyph) (hgs : ∀ g ∈ gs, Text.isBlankGlyph g = false) :
      gs.dropWhile Text.isBlankGlyph = gs := by
    cases gs with
    | nil => rfl
    | cons g gs => rw [List.dropWhile_cons_of_neg (by simp [hgs g List.mem_cons_self])]
  have hspace : (glyphs ((' ' : UInt8) :: s)).dropWhile Text.isBlankGlyph = s.glyphs := by
    rw [glyphs_cons_ascii (by decide), List.dropWhile_cons_of_pos (by decide), hkeep _ hdark]
  have hspell : ofGlyphs s.glyphs = s := by
    rw [glyphs_digits h, ofGlyphs, List.flatMap_map, List.flatMap_def,
      List.map_congr_left fun b hb => (digit_glyph (h b hb)).2.1]
    exact List.flatMap_singleton' s
  rw [trimBlank, hspace, hkeep _ fun g hg => hdark g (List.mem_reverse.mp hg), List.reverse_reverse,
    hspell]

/-! ## Decimal numbers -/

theorem ofNat_ne_nil (n : Nat) : ofNat n ≠ [] := by
  rw [ofNat, Ne, List.map_eq_nil_iff]
  exact Nat.toDigits_ne_nil

/-- A decimal digit as a byte has the value that it has as a character. -/
theorem digit_of_isDigit {c : Char} (h : c.isDigit = true) :
    isDigit c.toUInt8 = true ∧ digit? c.toUInt8 = some (c.toNat - '0'.toNat) := by
  have hbounds : 48 ≤ c.toNat ∧ c.toNat ≤ 57 := by
    simp only [Char.isDigit, Bool.and_eq_true, decide_eq_true_eq] at h
    exact h
  have hbyte : c.toUInt8.toNat = c.toNat := by
    have hmod : c.toUInt8.toNat = c.toNat % 256 := UInt32.toNat_toUInt8 c.val
    omega
  have hle : (48 : UInt8) ≤ c.toUInt8 ∧ c.toUInt8 ≤ 57 := by
    simp only [UInt8.le_iff_toNat_le, hbyte]
    exact hbounds
  refine ⟨by simp [isDigit, hle], ?_⟩
  rw [digit?, if_pos hle, hbyte]
  rfl

theorem isDigit_of_mem_ofNat {n : Nat} {b : UInt8} (h : b ∈ ofNat n) : isDigit b = true := by
  obtain ⟨c, hc, rfl⟩ := List.mem_map.mp h
  exact (digit_of_isDigit (Nat.isDigit_of_mem_toDigits (by decide) (by decide) hc)).1

/-- The number that is read is the one that is written. -/
theorem toNat?_ofNat (n : Nat) : toNat? (ofNat n) = some n := by
  have hread (cs : List Char) (hcs : ∀ c ∈ cs, c.isDigit = true) (acc : Nat) :
      (cs.map Char.toUInt8).foldl
        (fun acc b => do return (← acc) * 10 + (← digit? b)) (some acc)
        = some (Nat.ofDigitChars 10 cs acc) := by
    induction cs generalizing acc with
    | nil => rfl
    | cons c cs ih =>
      obtain ⟨hc, hcs⟩ := List.forall_mem_cons.mp hcs
      rw [List.map_cons, List.foldl_cons, (digit_of_isDigit hc).2, Nat.ofDigitChars_cons,
        ← ih hcs, Nat.mul_comm 10 acc]
      rfl
  rw [toNat?, readNat?, if_neg (by simp [ofNat_ne_nil]), ofNat,
    hread _ (fun c => Nat.isDigit_of_mem_toDigits (by decide) (by decide)),
    Nat.ofDigitChars_ten_toDigits]

end Storyline.Bytes
