import Storyline.Proofs.Script.Standing
import Storyline.Proofs.Script.Tokens

/-!
# The grammar of numbers

A number is a run of decimal digits with a fraction and an exponent where they are wanted, or a base
mark and a run of digits of the base; in every run a single `_` may stand between two digits.
`Numeral` says so as a grammar, and `lexes_as_number_iff` says which texts are read as one number
token without a report: the numerals, and beside them the numbers with a `_` right behind the base
mark, where no digit stands in front of it.
-/

namespace Storyline.Script

/-! ## The grammar -/

/-- Runs of digits: a single separator may stand between two of them. -/
inductive DigitRun (digits : Bytes) : Bytes → Prop where
  | single {b : UInt8} (hb : b ∈ digits) : DigitRun digits [b]
  | next {b : UInt8} {s : Bytes} (hb : b ∈ digits) (hs : DigitRun digits s) :
    DigitRun digits (b :: s)
  | separated {b : UInt8} {s : Bytes} (hb : b ∈ digits) (hs : DigitRun digits s) :
    DigitRun digits (b :: '_' :: s)

/-- The decimal digits. -/
def decimalDigits : Bytes := "0123456789"

/-- The marks of bases, each with the digits of its base. -/
def bases : List (UInt8 × Bytes) :=
  [('b', "01"), ('B', "01"), ('o', "01234567"), ('O', "01234567"),
    ('x', "0123456789abcdefABCDEF"), ('X', "0123456789abcdefABCDEF")]

/-- Exponents, or nothing. -/
inductive Power : Bytes → Prop where
  | none : Power []
  | some {mark : UInt8} {sign run : Bytes} (hmark : mark = 'e' ∨ mark = 'E')
    (hsign : sign = [] ∨ sign = [('+' : UInt8)] ∨ sign = [('-' : UInt8)])
    (hrun : DigitRun decimalDigits run) : Power (mark :: (sign ++ run))

/-- Decimal numbers. -/
inductive Decimal : Bytes → Prop where
  | whole {run power : Bytes} (hrun : DigitRun decimalDigits run) (hpower : Power power) :
    Decimal (run ++ power)
  | fraction {run more power : Bytes} (hrun : DigitRun decimalDigits run)
    (hmore : DigitRun decimalDigits more) (hpower : Power power) :
    Decimal (run ++ ('.' : UInt8) :: (more ++ power))
  | point {run : Bytes} (hrun : DigitRun decimalDigits run) : Decimal (run ++ [('.' : UInt8)])
  | bare {run power : Bytes} (hrun : DigitRun decimalDigits run) (hpower : Power power) :
    Decimal (('.' : UInt8) :: (run ++ power))

/-- Numbers: decimal ones, and digits behind a base mark. -/
inductive Numeral : Bytes → Prop where
  | decimal {s : Bytes} (h : Decimal s) : Numeral s
  | based {mark : UInt8} {digits run : Bytes} (hmark : (mark, digits) ∈ bases)
    (hrun : DigitRun digits run) : Numeral ('0' :: mark :: run)

/-- Whether a text is read as one number token that covers all of it, without a report. -/
def LexesAsNumber (file : FileId) (s : Bytes) : Prop :=
  lexemes file 0 s = [⟨⟨.number, ⟨file, 0, s.length⟩, s⟩, []⟩, lexemeEnd file s.length]

/-! ## The bytes of numbers -/

theorem DigitRun.mem {digits s : Bytes} (h : DigitRun digits s) {b : UInt8} (hb : b ∈ s) :
    b ∈ digits ∨ b = '_' := by
  induction h with
  | single hd =>
    obtain rfl := List.mem_singleton.mp hb
    exact .inl hd
  | next hd _ ih =>
    rcases List.mem_cons.mp hb with rfl | hb
    · exact .inl hd
    · exact ih hb
  | separated hd _ ih =>
    rcases List.mem_cons.mp hb with rfl | hb
    · exact .inl hd
    · rcases List.mem_cons.mp hb with rfl | hb
      · exact .inr rfl
      · exact ih hb

theorem DigitRun.front_mem {digits s : Bytes} (h : DigitRun digits s) : front s ∈ digits := by
  cases h <;> assumption

theorem DigitRun.ne_nil {digits s : Bytes} (h : DigitRun digits s) : s ≠ [] := by
  cases h <;> exact List.cons_ne_nil _ _

/-- The bytes that decimal numbers are made of. -/
def decimalBytes : Bytes := decimalDigits ++ "_.eE+-"

theorem mem_decimalBytes {b : UInt8} (h : b ∈ decimalDigits ∨ b = '_') : b ∈ decimalBytes := by
  rcases h with h | rfl
  · exact List.mem_append_left _ h
  · decide

theorem DigitRun.subset {s : Bytes} (h : DigitRun decimalDigits s) : s ⊆ decimalBytes :=
  fun _ hb => mem_decimalBytes (h.mem hb)

theorem Power.subset {s : Bytes} (h : Power s) : s ⊆ decimalBytes := by
  cases h with
  | none => exact List.nil_subset _
  | some hmark hsign hrun =>
    refine List.cons_subset.mpr ⟨?_, List.append_subset.mpr ⟨?_, hrun.subset⟩⟩
    · rcases hmark with rfl | rfl <;> decide
    · rcases hsign with rfl | rfl | rfl <;> decide

theorem Decimal.subset {s : Bytes} (h : Decimal s) : s ⊆ decimalBytes := by
  have hpoint : ('.' : UInt8) ∈ decimalBytes := by decide
  cases h with
  | whole hrun hpower => exact List.append_subset.mpr ⟨hrun.subset, hpower.subset⟩
  | fraction hrun hmore hpower =>
    exact List.append_subset.mpr ⟨hrun.subset, List.cons_subset.mpr ⟨hpoint,
      List.append_subset.mpr ⟨hmore.subset, hpower.subset⟩⟩⟩
  | point hrun => exact List.append_subset.mpr ⟨hrun.subset, List.cons_subset.mpr ⟨hpoint, by simp⟩⟩
  | bare hrun hpower =>
    exact List.cons_subset.mpr ⟨hpoint, List.append_subset.mpr ⟨hrun.subset, hpower.subset⟩⟩

/-! ## Digits -/

/-- The bytes that are written for a digit. -/
def spellings (n : Nat) : Bytes :=
  if n < 10 then [(48 + n).toUInt8] else [(87 + n).toUInt8, (55 + n).toUInt8]

theorem eq_toUInt8 {b : UInt8} {low n : Nat} (h : b.toNat = low + n) : b = (low + n).toUInt8 := by
  rw [← h]
  simp

theorem mem_spellings {b : UInt8} {n : Nat} (h : Bytes.hexDigit? b = some n) :
    n < 16 ∧ b ∈ spellings n := by
  simp only [Bytes.hexDigit?, UInt8.le_iff_toNat_le, UInt8.reduceToNat] at h
  unfold spellings
  split_ifs at h with hdigit hsmall hlarge
  · obtain rfl := Option.some.inj h
    rw [if_pos (by omega)]
    exact ⟨by omega, List.mem_singleton.mpr (eq_toUInt8 (by omega))⟩
  · obtain rfl := Option.some.inj h
    rw [if_neg (by omega)]
    exact ⟨by omega, List.mem_pair.mpr (.inl (eq_toUInt8 (by omega)))⟩
  · obtain rfl := Option.some.inj h
    rw [if_neg (by omega)]
    exact ⟨by omega, List.mem_pair.mpr (.inr (eq_toUInt8 (by omega)))⟩

/-- Whether the digits of a base are what is written for the numbers below it. -/
def listsDigits (base : Nat) (digits : Bytes) : Bool :=
  digits.all (isDigitOf base)
    && (List.range 16).all fun n => decide (base ≤ n) || (spellings n).all digits.contains

theorem isDigitOf_iff {base : Nat} {digits : Bytes} (h : listsDigits base digits = true)
    (b : UInt8) : isDigitOf base b = true ↔ b ∈ digits := by
  obtain ⟨hin, hall⟩ := Bool.and_eq_true_iff.mp h
  constructor
  · intro hb
    unfold isDigitOf at hb
    split at hb
    · next n hn =>
      obtain ⟨hlt, hmem⟩ := mem_spellings hn
      have hbase : ¬base ≤ n := Nat.not_le.mpr (of_decide_eq_true hb)
      have hwritten := List.all_eq_true.mp hall n (List.mem_range.mpr hlt)
      rw [decide_eq_false hbase, Bool.false_or] at hwritten
      exact List.contains_iff_mem.mp (List.all_eq_true.mp hwritten b hmem)
    · cases hb
  · exact List.all_eq_true.mp hin b

theorem isDigitOf_ten (b : UInt8) : isDigitOf 10 b = Bytes.isDigit b := by
  simp only [isDigitOf, Bytes.hexDigit?, Bytes.isDigit, UInt8.le_iff_toNat_le, UInt8.reduceToNat]
  split
  · next n hn =>
    rw [Bool.eq_iff_iff]
    simp only [decide_eq_true_eq, Bool.and_eq_true]
    split_ifs at hn <;> cases hn <;> omega
  · next hn =>
    split_ifs at hn with hdigit
    rw [← Bool.decide_and, decide_eq_false hdigit]

theorem isDigit_iff (b : UInt8) : Bytes.isDigit b = true ↔ b ∈ decimalDigits := by
  rw [← isDigitOf_ten]
  exact isDigitOf_iff (by decide) b

theorem isAlphanumeric_of_isDigitOf {base : Nat} {b : UInt8} (h : isDigitOf base b = true) :
    isAlphanumeric b = true := by
  have hwritten : ((List.range 16).all fun n => (spellings n).all isAlphanumeric) = true := by
    decide
  unfold isDigitOf at h
  split at h
  · next n hn =>
    obtain ⟨hlt, hmem⟩ := mem_spellings hn
    exact List.all_eq_true.mp (List.all_eq_true.mp hwritten n (List.mem_range.mpr hlt)) b hmem
  · cases h

/-- A letter or digit at the front of digits of a base is one of them. -/
theorem isDigitOf_front {base : Nat} {s : Bytes} (h : radixOk base s = true)
    (ha : isAlphanumeric (front s) = true) : isDigitOf base (front s) = true := by
  cases s with
  | nil => exact absurd ha (by decide)
  | cons b s =>
    have hb : b ≠ '_' := by
      rintro rfl
      exact absurd (show isAlphanumeric '_' = true from ha) (by decide)
    rw [radixOk, if_neg hb, Bool.and_eq_true, Bool.and_eq_true] at h
    exact h.1.2

/-- Decimal digits are digits of base ten. -/
theorem digitsOk_eq_radixOk (s : Bytes) : digitsOk s = radixOk 10 s := by
  induction s with
  | nil => rfl
  | cons b s ih =>
    rw [digitsOk, radixOk, ih]
    by_cases hb : b = '_'
    · subst hb
      cases hok : radixOk 10 s with
      | false => simp
      | true =>
        have hfront : Bytes.isDigit (front s) = isAlphanumeric (front s) := by
          rw [Bool.eq_iff_iff, ← isDigitOf_ten]
          exact ⟨isAlphanumeric_of_isDigitOf, isDigitOf_front hok⟩
        rw [hfront]
        rfl
    · have halnum : Bytes.isDigit b = (isAlphanumeric b && isDigitOf 10 b) := by
        rw [isDigitOf_ten]
        cases hd : Bytes.isDigit b with
        | false => simp
        | true => simp [isAlphanumeric, hd]
      rw [halnum]
      simp [hb]

section Runs

variable {base : Nat} {digits : Bytes} (hdigits : ∀ b, isDigitOf base b = true ↔ b ∈ digits)
include hdigits

theorem radixOk_of_run {s : Bytes} (h : DigitRun digits s) : radixOk base s = true := by
  have digit {b : UInt8} (hb : b ∈ digits) :
      b ≠ '_' ∧ isAlphanumeric b = true ∧ isDigitOf base b = true := by
    have hd := (hdigits b).mpr hb
    have ha := isAlphanumeric_of_isDigitOf hd
    refine ⟨?_, ha, hd⟩
    rintro rfl
    exact absurd ha (by decide)
  induction h with
  | single hb => simp [radixOk, digit hb]
  | next hb _ ih => simp [radixOk, digit hb, ih]
  | separated hb hs ih =>
    have hfront : isAlphanumeric (front _) = true := (digit hs.front_mem).2.1
    simp [radixOk, digit hb, ih, hfront]

theorem run_of_radixOk : {s : Bytes} → radixOk base s = true → isAlphanumeric (front s) = true →
    DigitRun digits s
  | [], _, ha => absurd ha (by decide)
  | [b], h, ha => .single ((hdigits b).mp (isDigitOf_front h ha))
  | b :: c :: s, h, ha => by
    have hb := (hdigits b).mp (isDigitOf_front h ha)
    have hrest : radixOk base (c :: s) = true := by
      rw [radixOk, Bool.and_eq_true] at h
      exact h.2
    by_cases hc : c = '_'
    · subst hc
      rw [radixOk, if_pos rfl, Bool.and_eq_true] at hrest
      exact .separated hb (run_of_radixOk hrest.2 hrest.1)
    · refine .next hb (run_of_radixOk hrest ?_)
      rw [radixOk, if_neg hc, Bool.and_eq_true, Bool.and_eq_true] at hrest
      exact hrest.1.1

end Runs

theorem decimalRun_iff {s : Bytes} :
    DigitRun decimalDigits s ↔ digitsOk s = true ∧ Bytes.isDigit (front s) = true := by
  have hdigits : ∀ b, isDigitOf 10 b = true ↔ b ∈ decimalDigits := fun b => by
    rw [isDigitOf_ten, isDigit_iff]
  rw [digitsOk_eq_radixOk]
  constructor
  · intro h
    exact ⟨radixOk_of_run hdigits h, (isDigit_iff _).mpr h.front_mem⟩
  · rintro ⟨hok, hd⟩
    exact run_of_radixOk hdigits hok (isAlphanumeric_of_isDigitOf ((isDigitOf_ten _).trans hd))

/-! ## Decimal numbers -/

theorem power_iff {s : Bytes} : Power s ↔ ExponentText s := by
  constructor
  · intro h
    cases h with
    | none => exact .inl rfl
    | some hmark hsign hrun =>
      obtain ⟨hok, hd⟩ := decimalRun_iff.mp hrun
      exact .inr ⟨_, _, _, rfl, hmark, hsign, hd, hok⟩
  · rintro (rfl | ⟨mark, sign, run, rfl, hmark, hsign, hd, hok⟩)
    · exact .none
    · exact .some hmark hsign (decimalRun_iff.mpr ⟨hok, hd⟩)

theorem front_power {s : Bytes} (h : ExponentText s) (hs : StartsNumber s) : False := by
  rcases h with rfl | ⟨mark, sign, run, rfl, hmark, -⟩
  · rcases hs with hs | ⟨hs, -⟩ <;> exact absurd hs (by decide)
  · have hfront : Bytes.isDigit mark = true ∨ mark = '.' := hs.imp id And.left
    rcases hmark with rfl | rfl <;> exact absurd hfront (by decide)

/-- Decimal numbers are digits, a fraction and an exponent that start like a number. -/
theorem decimal_iff {s : Bytes} : Decimal s ↔ StartsNumber s ∧ DecimalText s := by
  constructor
  · intro h
    -- each way to write a number is digits, a fraction and a power, some of them empty
    cases h with
    | whole hrun hpower =>
      obtain ⟨hok, hd⟩ := decimalRun_iff.mp hrun
      refine ⟨.inl ?_, _, [], _, by rw [List.append_nil], hok, .inl rfl, power_iff.mp hpower⟩
      rwa [front_append hrun.ne_nil]
    | fraction hrun hmore hpower =>
      obtain ⟨hok, hd⟩ := decimalRun_iff.mp hrun
      obtain ⟨hok', hd'⟩ := decimalRun_iff.mp hmore
      refine ⟨.inl ?_, _, ('.' : UInt8) :: _, _, ?_, hok, .inr ⟨_, rfl, hok', .inl hd'⟩,
        power_iff.mp hpower⟩
      · rwa [front_append hrun.ne_nil]
      · simp
    | point hrun =>
      obtain ⟨hok, hd⟩ := decimalRun_iff.mp hrun
      refine ⟨.inl ?_, _, [('.' : UInt8)], [], by simp, hok, .inr ⟨[], rfl, rfl, .inr ⟨rfl, rfl⟩⟩,
        .inl rfl⟩
      rwa [front_append hrun.ne_nil]
    | bare hrun hpower =>
      obtain ⟨hok, hd⟩ := decimalRun_iff.mp hrun
      refine ⟨.inr ⟨rfl, ?_⟩, [], ('.' : UInt8) :: _, _, rfl, rfl, .inr ⟨_, rfl, hok, .inl hd⟩,
        power_iff.mp hpower⟩
      rwa [List.tail_cons, front_append hrun.ne_nil]
  · rintro ⟨hstart, whole, point, power, rfl, hwhole, hpoint, hpower⟩
    by_cases hnil : whole = []
    · subst hnil
      rw [List.nil_append] at hstart ⊢
      -- without digits in front there is a point, and then digits behind it
      rcases hpoint with rfl | ⟨digits, rfl, hok, hnext⟩
      · exact (front_power hpower hstart).elim
      · rcases hnext with hd | ⟨rfl, rfl⟩
        · exact .bare (decimalRun_iff.mpr ⟨hok, hd⟩) (power_iff.mpr hpower)
        · rcases hstart with hd | ⟨-, hd⟩ <;> exact absurd hd (by decide)
    · -- the first byte is a digit, since a separator starts no number
      have hd : Bytes.isDigit (front whole) = true := by
        rw [StartsNumber, List.append_assoc, front_append hnil] at hstart
        rcases hstart with hd | ⟨hp, -⟩
        · exact hd
        · have := mem_digitsOk hwhole (b := front whole) (by
            cases whole with
            | nil => exact absurd rfl hnil
            | cons b s => exact List.mem_cons_self)
          rw [hp] at this
          exact absurd this (by decide)
      have hrun : DigitRun decimalDigits whole := decimalRun_iff.mpr ⟨hwhole, hd⟩
      -- digits in front, and then no point, a point with digits, or a bare point
      rcases hpoint with rfl | ⟨digits, rfl, hok, hnext⟩
      · rw [List.append_nil]
        exact .whole hrun (power_iff.mpr hpower)
      · rcases hnext with hd' | ⟨rfl, rfl⟩
        · rw [List.append_assoc, List.cons_append]
          exact .fraction hrun (decimalRun_iff.mpr ⟨hok, hd'⟩) (power_iff.mpr hpower)
        · rw [List.append_nil]
          exact .point hrun

/-! ## Bases -/

/-- Every mark of the table is read as one, with its digits. -/
theorem radix?_of_mem {mark : UInt8} {digits : Bytes} (h : (mark, digits) ∈ bases) :
    ∃ base, (∀ s : Bytes, radix? ('0' :: mark :: s) = some base)
      ∧ ∀ b, isDigitOf base b = true ↔ b ∈ digits := by
  simp only [bases, List.mem_cons, List.not_mem_nil, or_false, Prod.mk.injEq] at h
  rcases h with ⟨rfl, rfl⟩ | ⟨rfl, rfl⟩ | ⟨rfl, rfl⟩ | ⟨rfl, rfl⟩ | ⟨rfl, rfl⟩ | ⟨rfl, rfl⟩
  · exact ⟨2, fun _ => rfl, isDigitOf_iff (by decide)⟩
  · exact ⟨2, fun _ => rfl, isDigitOf_iff (by decide)⟩
  · exact ⟨8, fun _ => rfl, isDigitOf_iff (by decide)⟩
  · exact ⟨8, fun _ => rfl, isDigitOf_iff (by decide)⟩
  · exact ⟨16, fun _ => rfl, isDigitOf_iff (by decide)⟩
  · exact ⟨16, fun _ => rfl, isDigitOf_iff (by decide)⟩

/-- Whatever is read as a mark stands in the table. -/
theorem mem_of_radix? {a mark : UInt8} {s : Bytes} {base : Nat}
    (h : radix? (a :: mark :: s) = some base) : a = '0' ∧ ∃ digits, (mark, digits) ∈ bases := by
  simp only [radix?] at h
  split at h
  · next ha =>
    refine ⟨ha, ?_⟩
    split at h
    · next hmark =>
      refine ⟨"01", ?_⟩
      simp only [Bool.or_eq_true, decide_eq_true_eq] at hmark
      rcases hmark with rfl | rfl <;> decide
    · split at h
      · next hmark =>
        refine ⟨"01234567", ?_⟩
        simp only [Bool.or_eq_true, decide_eq_true_eq] at hmark
        rcases hmark with rfl | rfl <;> decide
      · split at h
        · next hmark =>
          refine ⟨"0123456789abcdefABCDEF", ?_⟩
          simp only [Bool.or_eq_true, decide_eq_true_eq] at hmark
          rcases hmark with rfl | rfl <;> decide
        · cases h
  · cases h

theorem Decimal.radix? {s : Bytes} (h : Decimal s) : radix? s = none := by
  cases hradix : Script.radix? s with
  | none => rfl
  | some base =>
    match s, hradix with
    | a :: mark :: s, hradix =>
      obtain ⟨-, digits, hmark⟩ := mem_of_radix? hradix
      have hmem : mark ∈ decimalBytes := h.subset (by simp)
      have hnone : ∀ p ∈ bases, p.1 ∉ decimalBytes := by decide
      exact absurd hmem (hnone _ hmark)

/-! ## Numbers -/

/-- The numbers that are read without a report: numerals, and those with a separator right behind
the base mark. -/
theorem numberText_iff {s : Bytes} : NumberText s ↔ Numeral s
    ∨ ∃ mark digits run, (mark, digits) ∈ bases ∧ DigitRun digits run
      ∧ s = ('0' : UInt8) :: mark :: ('_' : UInt8) :: run := by
  constructor
  · rintro ⟨hstart, ⟨-, hdecimal⟩ | ⟨base, a, mark, run, rfl, hradix, hne, hok⟩⟩
    · exact .inl (.decimal (decimal_iff.mpr ⟨hstart, hdecimal⟩))
    · obtain ⟨rfl, digits, hmark⟩ := mem_of_radix? hradix
      obtain ⟨base', hbase, hdigits⟩ := radix?_of_mem hmark
      obtain rfl : base = base' := Option.some.inj (hradix.symm.trans (hbase run))
      cases run with
      | nil => exact absurd rfl hne
      | cons b run =>
        have hfirst := hok
        rw [radixOk, Bool.and_eq_true] at hfirst
        -- the separator behind the mark of the base is what the grammar does not have
        by_cases hb : b = '_'
        · subst hb
          rw [if_pos rfl] at hfirst
          exact .inr ⟨mark, digits, run, hmark, run_of_radixOk hdigits hfirst.2 hfirst.1, rfl⟩
        · rw [if_neg hb, Bool.and_eq_true] at hfirst
          exact .inl (.based hmark (run_of_radixOk hdigits hok hfirst.1.1))
  · rintro (h | ⟨mark, digits, run, hmark, hrun, rfl⟩)
    · cases h with
      | decimal h =>
        obtain ⟨hstart, hdecimal⟩ := decimal_iff.mp h
        exact ⟨hstart, .inl ⟨h.radix?, hdecimal⟩⟩
      | based hmark hrun =>
        obtain ⟨base, hbase, hdigits⟩ := radix?_of_mem hmark
        exact ⟨.inl rfl, .inr ⟨base, _, _, _, rfl, hbase _, hrun.ne_nil,
          radixOk_of_run hdigits hrun⟩⟩
    -- the scanner takes that separator as well, if a digit follows
    · obtain ⟨base, hbase, hdigits⟩ := radix?_of_mem hmark
      have hfront : isAlphanumeric (front run) = true :=
        isAlphanumeric_of_isDigitOf ((hdigits _).mpr hrun.front_mem)
      refine ⟨.inl rfl, .inr ⟨base, _, _, _, rfl, hbase _, List.cons_ne_nil _ _, ?_⟩⟩
      simp [radixOk, hfront, radixOk_of_run hdigits hrun]

theorem NumberText.starts {s : Bytes} (h : NumberText s) : s ≠ [] ∧ isSpace (front s) = false := by
  have hstart : Bytes.isDigit (front s) = true ∨ front s = '.' := h.1.imp id And.left
  refine ⟨?_, ?_⟩
  · rintro rfl
    exact absurd hstart (by decide)
  · rw [← Bool.not_eq_true]
    intro hspace
    simp only [isSpace, Bool.or_eq_true, decide_eq_true_eq] at hspace
    rcases hspace with ((h | h) | h) | h <;> exact absurd (h ▸ hstart) (by decide)

theorem lexesAsNumber_iff_numberText {file : FileId} {s : Bytes} :
    LexesAsNumber file s ↔ NumberText s := by
  constructor
  · intro h
    have hne : s ≠ [] := by
      rintro rfl
      rw [LexesAsNumber, lexemes_nil] at h
      cases h
    have hspace : isSpace (front s) = false := by
      -- behind white space the token would not start at the front
      cases s with
      | nil => exact absurd rfl hne
      | cons b s =>
        rw [← Bool.not_eq_true]
        intro hb
        have htext : s <+: (Window.whole (b :: s) file).source.toList.drop 1 := by
          simp [Window.whole]
        have htokens := Window.tokens_lexemes htext (by simp [Window.whole, Nat.add_comm])
        have hsame : lexemes file 1 s = lexemes file 0 (b :: s) := (lexemes_space file 0 s hb).symm
        rw [show (Window.whole (b :: s) file).file = file from rfl, hsame, h] at htokens
        simp [Window.Tokens] at htokens
    rw [LexesAsNumber, lexemes_token file 0 hne hspace] at h
    obtain ⟨hhead, -⟩ := List.cons.inj h
    have hkind : (scan 0 s).kind = .number := congrArg (·.token.kind) hhead
    have hlength : (scan 0 s).length = s.length := by
      simpa [lexemeAt] using congrArg (·.token.span.stop) hhead
    have hfaults : (scan 0 s).faults = [] := by
      simpa [lexemeAt] using congrArg (·.notices) hhead
    have hstart := (scan_kind 0 s).2.1 hkind
    rw [scan_eq_number 0 hstart] at hlength hfaults
    have htext := numberText_of_number hstart (Prod.ext hlength hfaults)
    rwa [List.take_length] at htext
  -- nothing stands behind the number here, so it ends where the text does
  · intro h
    obtain ⟨hne, hspace⟩ := h.starts
    have hafter : AfterNumber s [] :=
      ⟨by decide, by decide, by decide, fun hpoint => absurd hpoint (by decide)⟩
    have hnumber := number_of_text h 0 hafter
    rw [List.append_nil] at hnumber
    have hscan : scan 0 s = ⟨.number, s.length, []⟩ := by
      rw [scan_eq_number 0 h.1, hnumber]
    rw [LexesAsNumber, lexemes_token file 0 hne hspace, lexemeAt, hscan, List.take_length,
      List.drop_length, lexemes_nil, Nat.zero_add]
    rfl

/-- A text is one number token, all of it and without a report, exactly if it is a numeral, or has a
separator between a base mark and the digits of its base. -/
theorem lexes_as_number_iff (file : FileId) (s : Bytes) :
    LexesAsNumber file s ↔ Numeral s
      ∨ ∃ mark digits run, (mark, digits) ∈ bases ∧ DigitRun digits run
        ∧ s = ('0' : UInt8) :: mark :: ('_' : UInt8) :: run :=
  lexesAsNumber_iff_numberText.trans numberText_iff

/-- No digit stands in front of the separator of `0x_F`, so it is no numeral, but it is read as a
number and nothing is reported. -/
theorem separator_behind_mark :
    LexesAsNumber 0 "0x_F" ∧ ¬ Numeral "0x_F" := by
  refine ⟨by unfold LexesAsNumber; decide, fun h => ?_⟩
  generalize hs : ("0x_F" : Bytes) = s at h
  cases h with
  | decimal h =>
    have hx : ('x' : UInt8) ∈ decimalBytes := h.subset (by rw [← hs]; decide)
    exact absurd hx (by decide)
  | @based mark digits run hmark hrun =>
    have hfront : front run = '_' := (congrArg (fun t : Bytes => front (t.drop 2)) hs).symm
    have hnone : ∀ p ∈ bases, ('_' : UInt8) ∉ p.2 := by decide
    exact hnone _ hmark (hfront ▸ hrun.front_mem)

end Storyline.Script
