import Mathlib.Data.List.Basic
import Mathlib.Data.List.TakeWhile
import Storyline.Proofs.Script.Grammar

/-!
# The tokens of a text

A text falls apart into white space and tokens, each at least one byte long; `lexemes_of_blank` and
`lexemes_of_token` unfold this one token at a time.  Where a text stands only decides where its
tokens stand: their kinds, their texts and whether anything is reported about them are the same at
every offset of every file.
-/

namespace Storyline.Script

/-! ## Offsets decide nothing -/

/-- Two counts with reports that agree but for the places of the reports. -/
def Alike (a b : Nat × List Fault) : Prop := a.1 = b.1 ∧ a.2.length = b.2.length

theorem digitRun_alike (p q : Nat) (s : Bytes) : Alike (digitRun p s) (digitRun q s) := by
  induction s generalizing p q with
  | nil => exact ⟨rfl, rfl⟩
  | cons b s ih =>
    obtain ⟨hn, hf⟩ := ih (p + 1) (q + 1)
    unfold Alike
    by_cases hd : Bytes.isDigit b = true
    · simp [digitRun, hd, hn, hf]
    · by_cases hu : b = ('_' : UInt8)
      · by_cases hnext : Bytes.isDigit (front s) = true
        · simp [digitRun, hd, ← hu, hnext, hn, hf]
        · simp [digitRun, hd, ← hu, hnext, hn, hf]
      · simp [digitRun, hd, hu]

theorem morePoints_alike (fuel p q : Nat) (s : Bytes) :
    Alike (morePoints fuel p s) (morePoints fuel q s) := by
  induction fuel generalizing p q s with
  | zero => exact ⟨rfl, rfl⟩
  | succ fuel ih =>
    cases s with
    | nil => exact ⟨rfl, rfl⟩
    | cons b s =>
      obtain ⟨hn, hf⟩ := digitRun_alike (p + 1) (q + 1) s
      unfold Alike morePoints
      split
      · obtain ⟨hm, hg⟩ := ih (p + 1 + (digitRun (p + 1) s).1) (q + 1 + (digitRun (q + 1) s).1)
          (s.drop (digitRun (p + 1) s).1)
        rw [hn] at hm hg
        exact ⟨by simp [hn, hm], by simp [hn, hf, hg]⟩
      · exact ⟨rfl, rfl⟩

theorem fraction_alike (p q : Nat) (s : Bytes) : Alike (fraction p s) (fraction q s) := by
  obtain ⟨hn, hf⟩ := digitRun_alike (p + 1) (q + 1) s.tail
  unfold Alike fraction
  split
  · obtain ⟨hm, hg⟩ := morePoints_alike s.length (p + 1 + (digitRun (p + 1) s.tail).1)
      (q + 1 + (digitRun (q + 1) s.tail).1) (s.drop (1 + (digitRun (p + 1) s.tail).1))
    rw [hn] at hm hg
    exact ⟨by simp [hn, hm], by simp [hn, hf, hg]⟩
  · exact ⟨rfl, rfl⟩

theorem exponent_alike (p q : Nat) (s : Bytes) : Alike (exponent p s) (exponent q s) := by
  cases s with
  | nil => exact ⟨rfl, rfl⟩
  | cons b s =>
    unfold Alike
    simp only [exponent]
    generalize (if (decide (front s = ('+' : UInt8)) || decide (front s = ('-' : UInt8))) = true
      then 1 else 0) = sign
    obtain ⟨hn, hf⟩ := digitRun_alike (p + 1 + sign) (q + 1 + sign) (s.drop sign)
    split
    · split
      · exact ⟨by simp only [hn], hf⟩
      · exact ⟨rfl, rfl⟩
    · exact ⟨rfl, rfl⟩

theorem badSuffix_alike (p q : Nat) (s : Bytes) : Alike (badSuffix p s) (badSuffix q s) := by
  unfold Alike
  simp only [badSuffix]
  split <;> exact ⟨rfl, rfl⟩

theorem decimal_alike (p q : Nat) (s : Bytes) : Alike (decimal p s) (decimal q s) := by
  unfold Alike decimal
  simp only
  obtain ⟨ha, ha'⟩ := digitRun_alike p q s
  rw [ha]
  obtain ⟨hb, hb'⟩ := fraction_alike (p + (digitRun q s).1) (q + (digitRun q s).1)
    (s.drop (digitRun q s).1)
  rw [hb]
  generalize (fraction (q + (digitRun q s).1) (s.drop (digitRun q s).1)).1 = b at *
  obtain ⟨hc, hc'⟩ := exponent_alike (p + (digitRun q s).1 + b) (q + (digitRun q s).1 + b)
    (s.drop ((digitRun q s).1 + b))
  rw [hc]
  generalize (exponent (q + (digitRun q s).1 + b) (s.drop ((digitRun q s).1 + b))).1 = c at *
  obtain ⟨hd, hd'⟩ := badSuffix_alike (p + (digitRun q s).1 + b + c)
    (q + (digitRun q s).1 + b + c) (s.drop ((digitRun q s).1 + b + c))
  exact ⟨by rw [hd], by simp only [List.length_append]; rw [ha', hb', hc', hd']⟩

theorem radixRun_alike (base p q : Nat) (reported : Bool) (s : Bytes) :
    (radixRun base p reported s).1 = (radixRun base q reported s).1
      ∧ (radixRun base p reported s).2.1 = (radixRun base q reported s).2.1
      ∧ (radixRun base p reported s).2.2.length = (radixRun base q reported s).2.2.length := by
  induction s generalizing p q reported with
  | nil => exact ⟨rfl, rfl, rfl⟩
  | cons b s ih =>
    obtain ⟨hn, hd, hf⟩ := ih (p + 1) (q + 1) reported
    obtain ⟨hn', hd', hf'⟩ := ih (p + 1) (q + 1) true
    by_cases hu : b = ('_' : UInt8)
    · by_cases hnext : isAlphanumeric (front s) = true
      · simp [radixRun, ← hu, hnext, hn, hd, hf]
      · simp [radixRun, ← hu, hnext, hn, hd, hf]
    · by_cases ha : isAlphanumeric b = true
      · by_cases hb : (isDigitOf base b || reported) = true
        · simp only [radixRun, hu, ha, hb, if_true, if_false, hn, hd, hf, and_self]
        · simp [radixRun, hu, ha, hb, hn', hd', hf']
      · simp [radixRun, hu, ha]

theorem number_alike (p q : Nat) (s : Bytes) : Alike (number p s) (number q s) := by
  unfold number
  split
  · exact decimal_alike p q s
  · rename_i base _
    obtain ⟨hn, hd, hf⟩ := radixRun_alike base (p + 2) (q + 2) false (s.drop 2)
    unfold Alike
    simp only [hd]
    split
    · exact ⟨by simp [hn], by simp [hf]⟩
    · exact ⟨by simp [hn], by simp [hf]⟩

/-- Two scans that agree but for the places of their reports. -/
structure Scan.Alike (a b : Scan) : Prop where
  kind : a.kind = b.kind
  length : a.length = b.length
  faults : a.faults.length = b.faults.length

theorem scan_alike (p q : Nat) (s : Bytes) : (scan p s).Alike (scan q s) := by
  simp only [scan]
  split
  · simp only [scanName]
    split
    · exact ⟨rfl, rfl, rfl⟩
    · split <;> exact ⟨rfl, rfl, rfl⟩
  · split
    · obtain ⟨hn, hf⟩ := number_alike p q s
      exact ⟨rfl, hn, hf⟩
    · split
      · simp only [scanString]
        split <;> exact ⟨rfl, rfl, rfl⟩
      · split
        · simp only [scanTemplate]
          split <;> exact ⟨rfl, rfl, rfl⟩
        · simp only [scanSymbol]
          split <;> exact ⟨rfl, rfl, rfl⟩

/-! ## Lengths -/

theorem digitRun_le (p : Nat) (s : Bytes) : (digitRun p s).1 ≤ s.length := by
  induction s generalizing p with
  | nil => exact Nat.le_refl 0
  | cons b s ih =>
    have h := ih (p + 1)
    simp only [digitRun, List.length_cons]
    split
    · exact Nat.succ_le_succ h
    · split
      · split <;> exact Nat.succ_le_succ h
      · exact Nat.zero_le _

theorem morePoints_le (fuel p : Nat) (s : Bytes) : (morePoints fuel p s).1 ≤ s.length := by
  induction fuel generalizing p s with
  | zero => exact Nat.zero_le _
  | succ fuel ih =>
    cases s with
    | nil => exact Nat.zero_le _
    | cons b s =>
      have h := digitRun_le (p + 1) s
      have hmore := ih (p + 1 + (digitRun (p + 1) s).1) (s.drop (digitRun (p + 1) s).1)
      rw [List.length_drop] at hmore
      simp only [morePoints, List.length_cons]
      split
      · simp only
        omega
      · exact Nat.zero_le _

theorem fraction_le (p : Nat) (s : Bytes) : (fraction p s).1 ≤ s.length := by
  simp only [fraction]
  split
  · rename_i hs
    have h := digitRun_le (p + 1) s.tail
    have hmore := morePoints_le s.length (p + 1 + (digitRun (p + 1) s.tail).1)
      (s.drop (1 + (digitRun (p + 1) s.tail).1))
    have hne : s ≠ [] := by
      rintro rfl
      simp [startsFraction] at hs
    have hpos := List.length_pos_of_ne_nil hne
    rw [List.length_tail] at h
    rw [List.length_drop] at hmore
    simp only
    omega
  · exact Nat.zero_le _

theorem exponent_le (p : Nat) (s : Bytes) : (exponent p s).1 ≤ s.length := by
  cases s with
  | nil => exact Nat.zero_le _
  | cons b s =>
    simp only [exponent]
    generalize (if (decide (front s = ('+' : UInt8)) || decide (front s = ('-' : UInt8))) = true
      then 1 else 0) = sign
    have h := digitRun_le (p + 1 + sign) (s.drop sign)
    rw [List.length_drop] at h
    split
    · split
      · rename_i hd
        have hlt : sign < s.length := by
          by_contra hge
          rw [List.drop_eq_nil_of_le (by omega)] at hd
          exact absurd hd (by decide)
        simp only [List.length_cons]
        omega
      · exact Nat.zero_le _
    · exact Nat.zero_le _

theorem badSuffix_le (p : Nat) (s : Bytes) : (badSuffix p s).1 ≤ s.length := by
  simp only [badSuffix]
  have h := (s.takeWhile_sublist fun b => isAlphanumeric b || decide (b = ('_' : UInt8))).length_le
  split
  · exact Nat.zero_le _
  · exact h

theorem decimal_le (p : Nat) (s : Bytes) : (decimal p s).1 ≤ s.length := by
  simp only [decimal]
  have ha := digitRun_le p s
  generalize (digitRun p s).1 = a at *
  have hb := fraction_le (p + a) (s.drop a)
  generalize (fraction (p + a) (s.drop a)).1 = b at *
  have hc := exponent_le (p + a + b) (s.drop (a + b))
  generalize (exponent (p + a + b) (s.drop (a + b))).1 = c at *
  have hd := badSuffix_le (p + a + b + c) (s.drop (a + b + c))
  simp only [List.length_drop] at hb hc hd
  omega

theorem radixRun_le (base p : Nat) (reported : Bool) (s : Bytes) :
    (radixRun base p reported s).1 ≤ s.length := by
  induction s generalizing p reported with
  | nil => exact Nat.zero_le _
  | cons b s ih =>
    simp only [radixRun, List.length_cons]
    split
    · split <;> exact Nat.succ_le_succ (ih _ _)
    · split
      · split <;> exact Nat.succ_le_succ (ih _ _)
      · exact Nat.zero_le _

theorem number_le (p : Nat) (s : Bytes) : (number p s).1 ≤ s.length := by
  unfold number
  split
  · exact decimal_le p s
  · rename_i base hbase
    have h := radixRun_le base (p + 2) false (s.drop 2)
    have hs : 2 ≤ s.length := by
      unfold radix? at hbase
      split at hbase
      · simp
      · cases hbase
    rw [List.length_drop] at h
    simp only
    split <;> simp only <;> omega

theorem digitRun_pos (p : Nat) {s : Bytes} (h : Bytes.isDigit (front s) = true) :
    0 < (digitRun p s).1 := by
  cases s with
  | nil => exact absurd h (by decide)
  | cons b s =>
    have hb : Bytes.isDigit b = true := h
    simp [digitRun, hb]

theorem number_pos (p : Nat) {s : Bytes}
    (h : Bytes.isDigit (front s) = true ∨ front s = ('.' : UInt8) ∧ Bytes.isDigit (front s.tail)) :
    0 < (number p s).1 := by
  unfold number
  split
  · simp only [decimal]
    rcases h with h | ⟨hpoint, hdigit⟩
    · have := digitRun_pos p h
      omega
    · cases s with
      | nil => exact absurd hpoint (by decide)
      | cons b s =>
        obtain rfl : b = ('.' : UInt8) := hpoint
        have hrun : (digitRun p (('.' : UInt8) :: s)).1 = 0 := by
          simp [digitRun, show Bytes.isDigit ('.' : UInt8) = false by decide,
            show ('.' : UInt8) ≠ ('_' : UInt8) by decide]
        have hfraction : startsFraction (('.' : UInt8) :: s) = true := by
          simp only [startsFraction, List.tail_cons] at hdigit ⊢
          simp [hdigit]
        simp only [hrun, List.drop_zero, fraction, hfraction, if_true]
        omega
  · simp only
    split <;> simp only <;> omega

theorem Glyph.head_le (b : UInt8) (s : Bytes) : (Glyph.head b s).2 ≤ s.length := by
  unfold Glyph.head
  repeat' split
  all_goals simp

theorem nameLengthFrom_le (length skip : Nat) (s : Bytes) (h : skip ≤ s.length) :
    length ≤ nameLengthFrom length skip s
      ∧ nameLengthFrom length skip s + skip ≤ length + s.length := by
  induction s generalizing length skip with
  | nil =>
    have hskip : skip = 0 := by simpa using h
    simp [nameLengthFrom, hskip]
  | cons b s ih =>
    cases skip with
    | succ n =>
      have := ih length n (by simpa using h)
      simp only [nameLengthFrom, List.length_cons]
      omega
    | zero =>
      have hmore := Glyph.head_le b s
      simp only [nameLengthFrom]
      split
      · rename_i c more hhead
        rw [hhead] at hmore
        split
        · have := ih (length + 1 + more) more hmore
          simp only [List.length_cons]
          omega
        · simp
      · simp

theorem stringLength_le (quote : UInt8) (length : Nat) (escaped : Bool) (s : Bytes) :
    length ≤ (stringLength quote length escaped s).1
      ∧ (stringLength quote length escaped s).1 ≤ length + s.length := by
  induction s generalizing length escaped with
  | nil => simp [stringLength]
  | cons b s ih =>
    have h := fun e => ih (length + 1) e
    simp only [List.length_cons]
    cases escaped with
    | true =>
      have := h false
      simp only [stringLength]
      omega
    | false =>
      have := h (decide (b = ('\\' : UInt8)))
      simp only [stringLength]
      split <;> omega

theorem templateLength_le (length depth : Nat) (state : TemplateState) (s : Bytes) :
    length ≤ (templateLength length depth state s).1
      ∧ (templateLength length depth state s).1 ≤ length + s.length := by
  -- By induction on the text: each state passes one byte, so what the states say of the rest is one
  -- more.
  induction s generalizing length depth state with
  | nil => cases state <;> simp [templateLength]
  | cons b s ih =>
    have h := fun d st => ih (length + 1) d st
    simp only [List.length_cons]
    cases state with
    | skipping =>
      have := h depth .plain
      simp only [templateLength]
      omega
    | quotedSkipping q =>
      have := h depth (.quoted q)
      simp only [templateLength]
      omega
    | quoted q =>
      have h1 := h depth (.quotedSkipping q)
      have h2 := h depth .plain
      have h3 := h depth (.quoted q)
      simp only [templateLength]
      split
      · omega
      · split <;> omega
    | plain =>
      have h1 := h depth .skipping
      have h2 := h (depth + 1) .skipping
      have h3 := h (depth + 1) .plain
      have h4 := h (depth - 1) .plain
      have h5 := h depth (.quoted b)
      have h6 := h depth .plain
      simp only [templateLength]
      repeat' split
      all_goals omega

theorem Symbol.text_length (op : Symbol) : 0 < (op.text : Bytes).length := by
  cases op <;> decide

/-- The token at the front of a text takes at least one byte and not more than there are. -/
theorem scan_bounds (p : Nat) {s : Bytes} (h : s ≠ []) :
    0 < (scan p s).length ∧ (scan p s).length ≤ s.length := by
  have hpos := List.length_pos_of_ne_nil h
  -- In the order in which the scanner asks; each kind has its own bound.
  simp only [scan]
  split
  · simp only [scanName]
    have hname := nameLengthFrom_le 0 0 s (Nat.zero_le _)
    rw [show nameLengthFrom 0 0 s = nameLength s from rfl] at hname
    split
    · have hhead := Glyph.head_le (front s) s.tail
      rw [List.length_tail] at hhead
      simp only [unknownCharacter]
      omega
    · split <;> simp only <;> omega
  · split
    · rename_i hnumber
      exact ⟨number_pos p (by simpa using hnumber), number_le p s⟩
    · split
      · have := stringLength_le (front s) 1 false s.tail
        rw [List.length_tail] at this
        simp only [scanString]
        split <;> simp only <;> omega
      · split
        · have := templateLength_le 1 0 .plain s.tail
          rw [List.length_tail] at this
          simp only [scanTemplate]
          split <;> simp only <;> omega
        · simp only [scanSymbol]
          split
          · rename_i op hop
            -- the operator that was found is a prefix of the text
            have hspelled := List.find?_some hop
            rw [List.isPrefixOf_iff_prefix] at hspelled
            exact ⟨op.text_length, hspelled.length_le⟩
          · simp only [unknownCharacter]
            omega

theorem scan_kind_ne_end (p : Nat) (s : Bytes) : (scan p s).kind ≠ .endOfScript := by
  simp only [scan, scanName, scanString, scanTemplate, scanSymbol, unknownCharacter]
  repeat' split
  all_goals simp

/-! ## One token at a time -/

/-- The token at the front of a text that starts at `pos`. -/
def lexemeAt (file : FileId) (pos : Nat) (s : Bytes) : Lexeme where
  token := ⟨(scan pos s).kind, ⟨file, pos, pos + (scan pos s).length⟩, s.take (scan pos s).length⟩
  notices := (scan pos s).faults.map (Fault.diagnostic · file)

/-- The end of a script that ends at `pos`. -/
def lexemeEnd (file : FileId) (pos : Nat) : Lexeme := ⟨⟨.endOfScript, ⟨file, pos, pos⟩, []⟩, []⟩

theorem lexemesFrom_append (file : FileId) (fuel : Nat) (acc : Array Lexeme) (pos : Nat)
    (s : Bytes) :
    lexemesFrom file fuel acc pos s = acc.toList ++ lexemesFrom file fuel #[] pos s := by
  induction fuel generalizing acc pos s with
  | zero => simp [lexemesFrom]
  | succ fuel ih =>
    simp only [lexemesFrom]
    split
    · simp
    · rw [ih, ih (#[].push _)]
      simp

theorem lexemesFrom_succ (file : FileId) (fuel pos : Nat) (s : Bytes) :
    lexemesFrom file (fuel + 1) #[] pos s =
      let gap := (s.takeWhile isSpace).length
      let body := s.drop gap
      if body = [] then [lexemeEnd file (pos + gap)]
      else lexemeAt file (pos + gap) body
        :: lexemesFrom file fuel #[] (pos + gap + (scan (pos + gap) body).length)
          (body.drop (scan (pos + gap) body).length) := by
  simp only [lexemesFrom]
  split
  · rename_i h
    simp only [List.isEmpty_iff.mp h, if_true]
    rfl
  · rename_i h
    rw [List.isEmpty_iff] at h
    rw [if_neg h, lexemesFrom_append]
    rfl

theorem lexemesFrom_fuel (file : FileId) (fuel more pos : Nat) (s : Bytes) (h : s.length < fuel)
    (hmore : s.length < more) :
    lexemesFrom file fuel #[] pos s = lexemesFrom file more #[] pos s := by
  induction fuel generalizing more pos s with
  | zero => omega
  | succ fuel ih =>
    cases more with
    | zero => omega
    | succ more =>
      simp only [lexemesFrom_succ]
      split
      · rfl
      · rename_i hbody
        have hbounds := scan_bounds (pos + (s.takeWhile isSpace).length) hbody
        rw [ih more]
        all_goals
          simp only [List.length_drop] at hbounds ⊢
          omega

@[simp] theorem lexemes_nil (file : FileId) (pos : Nat) : lexemes file pos [] = [lexemeEnd file pos] :=
  rfl

theorem lexemes_space (file : FileId) (pos : Nat) {b : UInt8} (s : Bytes) (h : isSpace b = true) :
    lexemes file pos (b :: s) = lexemes file (pos + 1) s := by
  unfold lexemes
  rw [List.length_cons, lexemesFrom_fuel file (s.length + 1) (s.length + 1 + 1) (pos + 1) s
    (by omega) (by omega), lexemesFrom_succ, lexemesFrom_succ]
  simp only [List.takeWhile_cons, h, if_true, List.length_cons, List.drop_succ_cons]
  rw [show pos + ((s.takeWhile isSpace).length + 1) = pos + 1 + (s.takeWhile isSpace).length by
    omega]

theorem lexemes_token (file : FileId) (pos : Nat) {s : Bytes} (hs : s ≠ [])
    (h : isSpace (front s) = false) :
    lexemes file pos s = lexemeAt file pos s
      :: lexemes file (pos + (scan pos s).length) (s.drop (scan pos s).length) := by
  have hgap : s.takeWhile isSpace = [] := by
    cases s with
    | nil => rfl
    | cons b s =>
      have hb : isSpace b = false := h
      simp [hb]
  have hbounds := scan_bounds pos hs
  unfold lexemes
  rw [lexemesFrom_succ]
  simp only [hgap, List.length_nil, List.drop_zero, Nat.add_zero, if_neg hs]
  rw [lexemesFrom_fuel]
  all_goals
    simp only [List.length_drop]
    omega

/-- Induction over the tokens of a text. -/
theorem lexemes_induction {motive : Bytes → Prop} (nil : motive [])
    (space : ∀ b s, isSpace b = true → motive s → motive (b :: s))
    (token : ∀ s, s ≠ [] → isSpace (front s) = false →
      motive (s.drop (scan 0 s).length) → motive s) (s : Bytes) : motive s := by
  induction hn : s.length using Nat.strong_induction_on generalizing s with
  | _ n ih =>
    cases s with
    | nil => exact nil
    | cons b s =>
      by_cases hb : isSpace b = true
      · refine space b s hb (ih s.length ?_ s rfl)
        simp only [List.length_cons] at hn
        omega
      · have hne : b :: s ≠ [] := List.cons_ne_nil b s
        have hbounds := scan_bounds 0 hne
        refine token (b :: s) hne (by simpa [front] using hb) (ih _ ?_ _ rfl)
        rw [List.length_drop]
        omega

theorem lexemeAt_form (file : FileId) (pos : Nat) (s : Bytes) :
    (lexemeAt file pos s).token.form = ⟨(scan 0 s).kind, s.take (scan 0 s).length⟩ := by
  have h := scan_alike pos 0 s
  simp [lexemeAt, Token.form, h.kind, h.length]

theorem lexemeAt_notices (file : FileId) (pos : Nat) (s : Bytes) :
    (lexemeAt file pos s).notices = [] ↔ (scan 0 s).faults = [] := by
  have h := (scan_alike pos 0 s).faults
  rw [lexemeAt, List.map_eq_nil_iff, ← List.length_eq_zero_iff, h, List.length_eq_zero_iff]

/-- The tokens of a text do not depend on where it stands. -/
theorem formsIn_lexemes (file : FileId) (pos : Nat) (s : Bytes) :
    formsIn (lexemes file pos s) = formsIn (lexemes 0 0 s) := by
  suffices h : ∀ (file' : FileId) (pos' : Nat),
      formsIn (lexemes file pos s) = formsIn (lexemes file' pos' s) from h 0 0
  intro file' pos'
  induction s using lexemes_induction generalizing pos pos' with
  | nil => rfl
  | space b s hb ih =>
    rw [lexemes_space file pos s hb, lexemes_space file' pos' s hb]
    exact ih (pos + 1) (pos' + 1)
  | token s hs hb ih =>
    rw [lexemes_token file pos hs hb, lexemes_token file' pos' hs hb, formsIn_cons, formsIn_cons,
      lexemeAt_form, lexemeAt_form, (scan_alike pos 0 s).length, (scan_alike pos' 0 s).length]
    rw [ih]

/-- Whether anything is reported about a text does not depend on where it stands. -/
theorem faultless_iff (file : FileId) (pos : Nat) (s : Bytes) :
    (∀ l ∈ lexemes file pos s, l.notices = []) ↔ Faultless s := by
  suffices h : ∀ (file' : FileId) (pos' : Nat), (∀ l ∈ lexemes file pos s, l.notices = [])
      ↔ ∀ l ∈ lexemes file' pos' s, l.notices = [] from h 0 0
  intro file' pos'
  induction s using lexemes_induction generalizing pos pos' with
  | nil => simp [lexemeEnd]
  | space b s hb ih =>
    rw [lexemes_space file pos s hb, lexemes_space file' pos' s hb]
    exact ih (pos + 1) (pos' + 1)
  | token s hs hb ih =>
    rw [lexemes_token file pos hs hb, lexemes_token file' pos' hs hb, List.forall_mem_cons,
      List.forall_mem_cons, lexemeAt_notices, lexemeAt_notices, (scan_alike pos 0 s).length,
      (scan_alike pos' 0 s).length]
    rw [ih]

/-- A text gives tokens and, after them, the end of the script. -/
theorem lexemes_end (file : FileId) (pos : Nat) (s : Bytes) :
    ∃ ls stop, lexemes file pos s = ls ++ [lexemeEnd file stop]
      ∧ ∀ l ∈ ls, l.token.kind ≠ .endOfScript := by
  induction s using lexemes_induction generalizing pos with
  | nil => exact ⟨[], pos, rfl, by simp⟩
  | space b s hb ih =>
    rw [lexemes_space file pos s hb]
    exact ih (pos + 1)
  | token s hs hb ih =>
    rw [lexemes_token file pos hs hb, (scan_alike pos 0 s).length]
    obtain ⟨ls, stop, hls, hkind⟩ := ih (pos + (scan 0 s).length)
    refine ⟨lexemeAt file pos s :: ls, stop, by rw [hls, List.cons_append], ?_⟩
    rw [List.forall_mem_cons]
    exact ⟨scan_kind_ne_end pos s, hkind⟩

/-- The tokens before the end of the script are those that the text stands for. -/
theorem lexemes_eq (file : FileId) (pos : Nat) (s : Bytes) :
    ∃ ls stop, lexemes file pos s = ls ++ [lexemeEnd file stop] ∧ formsIn ls = formsOf s
      ∧ ∀ l ∈ ls, l.token.kind ≠ .endOfScript := by
  obtain ⟨ls, stop, hls, hkind⟩ := lexemes_end file pos s
  refine ⟨ls, stop, hls, ?_, hkind⟩
  rw [formsOf, ← formsIn_lexemes file pos, hls, formsIn_append, List.filter_append]
  have hall : (formsIn ls).filter (fun f => f.kind != .endOfScript) = formsIn ls := by
    rw [List.filter_eq_self]
    intro f hf
    obtain ⟨l, hl, rfl⟩ := List.mem_map.mp hf
    simpa [Token.form] using hkind l hl
  rw [hall]
  simp [lexemeEnd, Token.form]

end Storyline.Script
