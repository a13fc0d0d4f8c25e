import Mathlib.Data.List.Basic
import Storyline.Proofs.Script.Lexing

/-!
# Well-formed numbers

What a number is that the lexer reads without a fault, as a property of its text alone: digits with
single separators between them, then a fraction and an exponent; or a base mark and digits of the
base.  Such a number is read whole before every text that does not go on with letters, digits or a
point.
-/

namespace Storyline.Script

theorem front_append {s : Bytes} (h : s ≠ []) (t : Bytes) : front (s ++ t) = front s := by
  cases s with
  | nil => exact absurd rfl h
  | cons b s => rfl

/-! ## Digits -/

/-- Decimal digits and separators, each of these before a digit. -/
def digitsOk : Bytes → Bool
  | [] => true
  | b :: s => (Bytes.isDigit b || (b = '_' && Bytes.isDigit (front s))) && digitsOk s

/-- Whether a byte goes on with a run of decimal digits. -/
def goesOn (b : UInt8) : Bool := Bytes.isDigit b || b = '_'

theorem digitsOk_of_digitRun {p n : Nat} {s : Bytes} (h : digitRun p s = (n, [])) :
    digitsOk (s.take n) = true ∧ goesOn (front (s.drop n)) = false := by
  -- By induction on the text: a digit goes on, a separator needs a digit behind it, anything else
  -- ends the run.
  induction s generalizing p n with
  | nil =>
    obtain ⟨rfl, _⟩ := h
    exact ⟨rfl, by decide⟩
  | cons b s ih =>
    rcases hrec : digitRun (p + 1) s with ⟨m, faults⟩
    simp only [digitRun, hrec] at h
    split at h
    · rename_i hd
      obtain ⟨rfl, rfl⟩ := h
      obtain ⟨hok, hfront⟩ := ih hrec
      exact ⟨by simp [digitsOk, hd, hok], hfront⟩
    · rename_i hd
      split at h
      · rename_i hu
        split at h
        · rename_i hnext
          obtain ⟨rfl, rfl⟩ := h
          obtain ⟨hok, hfront⟩ := ih hrec
          -- behind the separator at least one digit was read
          have hpos : 0 < m := by
            have := digitRun_pos (p + 1) hnext
            rwa [hrec] at this
          have hhead : front (s.take m) = front s := by
            cases s with
            | nil => simp
            | cons c s =>
              obtain ⟨m, rfl⟩ : ∃ k, m = k + 1 := ⟨m - 1, by omega⟩
              rfl
          exact ⟨by simp [digitsOk, hu, hhead, hnext, hok], hfront⟩
        · cases h
      · rename_i hu
        obtain ⟨rfl, _⟩ := h
        exact ⟨rfl, by simp [goesOn, front, hd, hu]⟩

theorem digitRun_of_digitsOk {s : Bytes} (h : digitsOk s = true) (p : Nat) {k : Bytes}
    (hk : goesOn (front k) = false) : digitRun p (s ++ k) = (s.length, []) := by
  induction s generalizing p with
  | nil =>
    cases k with
    | nil => rfl
    | cons b k =>
      have hb : Bytes.isDigit b = false ∧ b ≠ '_' := by simpa [goesOn, front] using hk
      simp [digitRun, hb.1, hb.2]
  | cons b s ih =>
    simp only [digitsOk, Bool.and_eq_true, Bool.or_eq_true, decide_eq_true_eq] at h
    obtain ⟨hb, hs⟩ := h
    rw [List.cons_append, digitRun, ih hs (p + 1)]
    rcases hb with hb | ⟨rfl, hnext⟩
    · simp [hb]
    · have hne : s ≠ [] := by
        rintro rfl
        exact absurd hnext (by decide)
      have hd : Bytes.isDigit ('_' : UInt8) = false := by decide
      simp [hd, front_append hne, hnext]

/-! ## Decimal numbers -/

/-- Whether a text is an exponent, or empty. -/
def ExponentText (s : Bytes) : Prop :=
  s = [] ∨ ∃ mark sign digits, s = mark :: (sign ++ digits) ∧ (mark = 'e' ∨ mark = 'E')
    ∧ (sign = [] ∨ sign = [('+' : UInt8)] ∨ sign = [('-' : UInt8)])
    ∧ Bytes.isDigit (front digits) = true ∧ digitsOk digits = true

/-- Whether a text is a fraction, or empty; one without digits ends the number. -/
def FractionText (s after : Bytes) : Prop :=
  s = [] ∨ ∃ digits, s = ('.' : UInt8) :: digits ∧ digitsOk digits = true
    ∧ (Bytes.isDigit (front digits) = true ∨ digits = [] ∧ after = [])

/-- Whether a text is a decimal number: digits, a fraction and an exponent. -/
def DecimalText (s : Bytes) : Prop :=
  ∃ whole point power, s = whole ++ point ++ power ∧ digitsOk whole = true
    ∧ FractionText point power ∧ ExponentText power

/-- Whether a text after a number does not become a part of it. -/
structure AfterNumber (s k : Bytes) : Prop where
  letter : isAlphanumeric (front k) = false
  name : isNameStart (front k) = false
  wide : front k < 0x80
  point : front k = '.' → startsFraction k = false ∧ s.getLast? ≠ some ('.' : UInt8)

theorem AfterNumber.goesOn {s k : Bytes} (h : AfterNumber s k) : goesOn (front k) = false := by
  have hl := h.letter
  have hn := h.name
  simp only [isAlphanumeric, Bool.or_eq_false_iff] at hl
  simp only [isNameStart, Bool.or_eq_false_iff] at hn
  simp [Script.goesOn, hl.1, hn.1.1]

theorem startsFraction_of_ne {s : Bytes} (h : front s ≠ '.') : startsFraction s = false := by
  cases s with
  | nil => rfl
  | cons b s =>
    have hb : b ≠ '.' := h
    simp [startsFraction, hb]

theorem fraction_eq_zero (p : Nat) {s : Bytes} (h : startsFraction s = false) :
    fraction p s = (0, []) := by
  simp [fraction, h]

theorem morePoints_eq_zero (fuel p : Nat) {s : Bytes}
    (h : front s ≠ '.' ∨ Bytes.isDigit (front s.tail) = false) :
    morePoints fuel p s = (0, []) := by
  cases fuel with
  | zero => rfl
  | succ fuel =>
    cases s with
    | nil => rfl
    | cons b s =>
      have hb : (decide (b = ('.' : UInt8)) && Bytes.isDigit (front s)) = false := by
        rcases h with h | h
        · simp [show b ≠ '.' from h]
        · simp [show Bytes.isDigit (front s) = false from h]
      simp [morePoints, hb]

theorem exponent_eq_zero (p : Nat) {s : Bytes} (h : front s ≠ 'e' ∧ front s ≠ 'E') :
    exponent p s = (0, []) := by
  cases s with
  | nil => rfl
  | cons b s =>
    have hb : b ≠ 'e' ∧ b ≠ 'E' := h
    simp [exponent, hb.1, hb.2]

theorem badSuffix_eq_zero (p : Nat) {s : Bytes} (h : isAlphanumeric (front s) = false)
    (h' : front s ≠ '_') : badSuffix p s = (0, []) := by
  cases s with
  | nil => rfl
  | cons b s =>
    have hb : isAlphanumeric b = false := h
    have hb' : b ≠ '_' := h'
    simp [badSuffix, hb, hb']

theorem fractionText_of_fraction {p n : Nat} {s : Bytes} (h : fraction p s = (n, [])) :
    n = 0 ∨ ∃ digits, s.take n = ('.' : UInt8) :: digits ∧ digitsOk digits = true
      ∧ (Bytes.isDigit (front digits) = true
        ∨ digits = [] ∧ isNameStart (front (s.drop n)) = false) := by
  -- a fraction starts with a point, and has digits or stands before what is no name
  cases hstart : startsFraction s with
  | false =>
    rw [fraction_eq_zero p hstart] at h
    obtain ⟨rfl, _⟩ := h
    exact .inl rfl
  | true =>
    right
    cases s with
    | nil => cases hstart
    | cons b s =>
      simp only [startsFraction, Bool.and_eq_true, decide_eq_true_eq] at hstart
      obtain ⟨rfl, hnext⟩ := hstart
      rcases hrun : digitRun (p + 1) s with ⟨m, faults⟩
      rcases hmore : morePoints (s.length + 1) (p + 1 + m) (s.drop m) with ⟨k, more⟩
      have hstart : startsFraction (('.' : UInt8) :: s) = true := by
        simp only [startsFraction, hnext]
        decide
      have hdrop : (('.' : UInt8) :: s).drop (1 + m) = s.drop m := by
        rw [Nat.add_comm, List.drop_succ_cons]
      simp only [fraction, hstart, if_true, List.tail_cons, hrun, List.length_cons, hdrop, hmore,
        Prod.mk.injEq, List.append_eq_nil_iff] at h
      obtain ⟨rfl, rfl, rfl⟩ := h
      -- A further point would be a fault.
      have hk : k = 0 := by
        cases hs : s.drop m with
        | nil =>
          rw [hs] at hmore
          exact (Prod.mk.inj hmore).1.symm
        | cons c t =>
          rw [hs, morePoints] at hmore
          split at hmore
          · cases hmore
          · exact (Prod.mk.inj hmore).1.symm
      subst hk
      obtain ⟨hok, _⟩ := digitsOk_of_digitRun hrun
      rw [Nat.add_zero, Nat.add_comm 1 m, List.take_succ_cons, List.drop_succ_cons]
      refine ⟨s.take m, rfl, hok, ?_⟩
      -- digits behind the point, or none, and then the run is empty
      by_cases hdigit : Bytes.isDigit (front s) = true
      · left
        have hpos := digitRun_pos (p + 1) hdigit
        rw [hrun] at hpos
        cases s with
        | nil => exact absurd hdigit (by decide)
        | cons c s =>
          obtain ⟨m, rfl⟩ : ∃ k, m = k + 1 := ⟨m - 1, by simp only at hpos; omega⟩
          exact hdigit
      · right
        simp only [hdigit, Bool.false_or, Bool.and_eq_true, bne_iff_ne, Bool.not_eq_true']
          at hnext
        have hm : m = 0 := by
          cases s with
          | nil => exact (Prod.mk.inj hrun).1.symm
          | cons c s =>
            have hc : Bytes.isDigit c = false := by simpa [front] using hdigit
            have hname : isNameStart c = false := hnext.1.2
            have hu : c ≠ '_' := by
              rintro rfl
              exact absurd hname (by decide)
            simp only [digitRun, hc, Bool.false_eq_true, if_false, hu] at hrun
            exact (Prod.mk.inj hrun).1.symm
        subst hm
        exact ⟨rfl, hnext.1.2⟩

theorem exponentText_of_exponent {p n : Nat} {s : Bytes} (h : exponent p s = (n, [])) :
    ExponentText (s.take n) := by
  cases s with
  | nil =>
    obtain ⟨rfl, _⟩ := h
    exact .inl rfl
  | cons b s =>
    simp only [exponent] at h
    split at h
    · rename_i hmark
      -- the sign is optional; its length is what is dropped before the digits
      generalize hsign : (if (decide (front s = ('+' : UInt8)) || decide (front s = ('-' : UInt8)))
        = true then 1 else 0) = sign at h
      split at h
      · rename_i hdigit
        rcases hrun : digitRun (p + 1 + sign) (s.drop sign) with ⟨m, faults⟩
        rw [hrun] at h
        obtain ⟨rfl, rfl⟩ := h
        obtain ⟨hok, _⟩ := digitsOk_of_digitRun hrun
        have hpos := digitRun_pos (p + 1 + sign) hdigit
        rw [hrun] at hpos
        right
        refine ⟨b, s.take sign, (s.drop sign).take m, ?_, by simpa using hmark, ?_, ?_, hok⟩
        · rw [show 1 + sign + m = (sign + m) + 1 by omega, List.take_succ_cons, List.take_add]
        · split at hsign
          · rename_i hs
            subst hsign
            cases s with
            | nil => exact absurd hdigit (by decide)
            | cons c s =>
              right
              simpa [front] using hs
          · subst hsign
            exact .inl rfl
        -- the run starts with the digit that was asked for
        · cases hs : s.drop sign with
          | nil =>
            rw [hs] at hdigit
            exact absurd hdigit (by decide)
          | cons c t =>
            obtain ⟨m, rfl⟩ : ∃ k, m = k + 1 := ⟨m - 1, by simp only at hpos; omega⟩
            rw [hs] at hdigit
            exact hdigit
      · obtain ⟨rfl, _⟩ := h
        exact .inl rfl
    · obtain ⟨rfl, _⟩ := h
      exact .inl rfl

theorem badSuffix_quiet {p n : Nat} {s : Bytes} (h : badSuffix p s = (n, [])) : n = 0 := by
  simp only [badSuffix] at h
  split at h
  · exact (Prod.mk.inj h).1.symm
  · cases h

theorem decimalText_of_decimal {p n : Nat} {s : Bytes} (h : decimal p s = (n, [])) :
    DecimalText (s.take n) := by
  rcases ha : digitRun p s with ⟨a, faultsA⟩
  rcases hb : fraction (p + a) (s.drop a) with ⟨b, faultsB⟩
  rcases hc : exponent (p + a + b) (s.drop (a + b)) with ⟨c, faultsC⟩
  rcases hd : badSuffix (p + a + b + c) (s.drop (a + b + c)) with ⟨d, faultsD⟩
  simp only [decimal, ha, hb, hc, hd, Prod.mk.injEq, List.append_eq_nil_iff] at h
  obtain ⟨rfl, ⟨⟨rfl, rfl⟩, rfl⟩, rfl⟩ := h
  obtain rfl := badSuffix_quiet hd
  obtain ⟨hok, _⟩ := digitsOk_of_digitRun ha
  refine ⟨s.take a, (s.drop a).take b, (s.drop (a + b)).take c, ?_, hok, ?_,
    exponentText_of_exponent hc⟩
  · rw [Nat.add_zero, List.take_add, List.take_add]
  · rcases fractionText_of_fraction hb with rfl | ⟨digits, htake, hdigits, hnext⟩
    · exact .inl rfl
    · refine .inr ⟨digits, htake, hdigits, ?_⟩
      rcases hnext with hnext | ⟨rfl, hnext⟩
      · exact .inl hnext
      · -- Without digits no letter follows, so there is no exponent either.
        refine .inr ⟨rfl, ?_⟩
        rw [List.drop_drop] at hnext
        have hzero := exponent_eq_zero (p + a + b) (s := s.drop (a + b)) (by
          constructor <;> intro he <;> rw [he] at hnext <;> exact absurd hnext (by decide))
        rw [hzero] at hc
        obtain ⟨rfl, _⟩ := hc
        rfl

theorem ExponentText.goesOn {s k : Bytes} (h : ExponentText s) (hk : goesOn (front k) = false) :
    Script.goesOn (front (s ++ k)) = false := by
  rcases h with rfl | ⟨mark, sign, digits, rfl, hmark, _⟩
  · exact hk
  · rcases hmark with rfl | rfl <;> rfl

theorem exponent_of_text {s k : Bytes} (h : ExponentText s) (p : Nat)
    (hk : goesOn (front k) = false) (hletter : isAlphanumeric (front k) = false) :
    exponent p (s ++ k) = (s.length, []) := by
  rcases h with rfl | ⟨mark, sign, digits, rfl, hmark, hsign, hdigit, hok⟩
  · refine exponent_eq_zero p ⟨?_, ?_⟩ <;> intro he <;> rw [List.nil_append] at he <;>
      rw [he] at hletter <;> exact absurd hletter (by decide)
  · have hne : digits ≠ [] := by
      rintro rfl
      exact absurd hdigit (by decide)
    have hfront : front (digits ++ k) = front digits := front_append hne k
    have hrun := fun q => digitRun_of_digitsOk hok q hk
    have hmark' : (decide (mark = ('e' : UInt8)) || decide (mark = ('E' : UInt8))) = true := by
      simpa using hmark
    have hplus : front digits ≠ '+' ∧ front digits ≠ '-' := by
      constructor <;> intro he <;> rw [he] at hdigit <;> exact absurd hdigit (by decide)
    rw [List.cons_append, List.append_assoc]
    rcases hsign with rfl | rfl | rfl
    · simp only [List.nil_append, exponent, hmark', if_true, hfront, hplus, decide_false,
        Bool.or_false, Bool.false_eq_true, if_false, List.drop_zero, hdigit, hrun,
        List.length_cons, Nat.add_zero]
      rw [Nat.add_comm]
    all_goals
      simp only [List.singleton_append, exponent, hmark', if_true, front, List.headD_cons,
        decide_true, Bool.true_or, Bool.or_true, List.drop_succ_cons, List.drop_zero]
      rw [show (digits ++ k).headD 0 = front digits from hfront]
      simp only [hdigit, if_true, hrun, List.length_cons]
      exact Prod.ext (by simp only; omega) rfl

theorem decimal_of_text {s k : Bytes} (h : DecimalText s) (p : Nat) (hk : AfterNumber s k) :
    decimal p (s ++ k) = (s.length, []) := by
  obtain ⟨whole, point, power, rfl, hwhole, hpoint, hpower⟩ := h
  have hgo := hk.goesOn
  -- a number that goes on with a separator would not end here
  have hu : front k ≠ '_' := by
    intro he
    have := hk.name
    rw [he] at this
    exact absurd this (by decide)
  have hpowerRun := fun q => exponent_of_text hpower q hgo hk.letter
  have hdrop : ∀ (u v w : Bytes), (u ++ v ++ w).drop (u.length + v.length) = w := by
    intro u v w
    rw [← List.length_append, List.drop_left]
  -- What the fraction is read as.
  have hfraction : ∀ q, fraction q (point ++ (power ++ k)) = (point.length, []) := by
    intro q
    rcases hpoint with rfl | ⟨digits, rfl, hok, hnext⟩
    · refine fraction_eq_zero q ?_
      -- without a fraction the exponent or the rest is met at once, and neither starts with a point
      -- that counts
      rcases hpower with rfl | ⟨mark, sign, ds, rfl, hmark, _⟩
      · by_cases hp : front k = '.'
        · exact (hk.point hp).1
        · exact startsFraction_of_ne hp
      · rcases hmark with rfl | rfl <;> rfl
    · have hrun := digitRun_of_digitsOk hok (q + 1) (hpower.goesOn hgo)
      have hstart : startsFraction (('.' : UInt8) :: (digits ++ (power ++ k))) = true := by
        rcases hnext with hdigit | ⟨rfl, rfl⟩
        · have hne : digits ≠ [] := by
            rintro rfl
            exact absurd hdigit (by decide)
          simp [startsFraction, front_append hne, hdigit]
        · have hp : front k ≠ '.' := fun hp => (hk.point hp).2 (by simp)
          have hname := hk.name
          have hwide := hk.wide
          simp [startsFraction, hp, hname, hwide]
      -- behind the digits no further point is read
      have hmore : ∀ fuel r, morePoints fuel r (power ++ k) = (0, []) := by
        intro fuel r
        refine morePoints_eq_zero fuel r ?_
        rcases hpower with rfl | ⟨mark, sign, ds, rfl, hmark, _⟩
        · by_cases hp : front k = '.'
          · right
            have := (hk.point hp).1
            cases k with
            | nil => exact absurd hp (by decide)
            | cons b k =>
              obtain rfl : b = '.' := hp
              simp only [startsFraction, decide_true, Bool.true_and, Bool.or_eq_false_iff] at this
              exact this.1
          · exact .inl hp
        · left
          rcases hmark with rfl | rfl
          · exact (by decide : ('e' : UInt8) ≠ '.')
          · exact (by decide : ('E' : UInt8) ≠ '.')
      simp only [fraction, List.cons_append, hstart, if_true, List.tail_cons, hrun,
        Nat.add_comm 1, List.drop_succ_cons, List.drop_left, hmore, List.append_nil,
        List.length_cons, Nat.add_zero]
  have hsuffix := fun q => badSuffix_eq_zero q hk.letter hu
  have hrunWhole := digitRun_of_digitsOk hwhole p (k := point ++ (power ++ k)) (by
    rcases hpoint with rfl | ⟨digits, rfl, _⟩
    · exact hpower.goesOn hgo
    · rfl)
  -- the whole part, the fraction, the power and then no suffix
  simp only [decimal, List.append_assoc, hrunWhole, List.drop_left, hfraction]
  rw [show whole ++ (point ++ (power ++ k)) = whole ++ point ++ (power ++ k) by simp, hdrop,
    hpowerRun]
  simp only
  rw [show whole ++ point ++ (power ++ k) = (whole ++ point ++ power) ++ k by simp,
    show whole.length + point.length + power.length = (whole ++ point ++ power).length by
      simp [Nat.add_assoc],
    List.drop_left, hsuffix]
  simp

/-! ## Numbers with a base mark -/

/-- Digits of a base and separators, each of these before a letter or digit. -/
def radixOk (base : Nat) : Bytes → Bool
  | [] => true
  | b :: s => (if b = '_' then isAlphanumeric (front s) else isAlphanumeric b && isDigitOf base b)
    && radixOk base s

theorem radixOk_of_radixRun {base p n digits : Nat} {s : Bytes}
    (h : radixRun base p false s = (n, digits, [])) :
    radixOk base (s.take n) = true ∧ (digits ≠ 0 → n ≠ 0) := by
  induction s generalizing p n digits with
  | nil =>
    obtain ⟨rfl, rfl, _⟩ := h
    exact ⟨rfl, by simp⟩
  | cons b s ih =>
    rcases hrec : radixRun base (p + 1) false s with ⟨m, ds, faults⟩
    -- a separator, a digit of the base, another letter or digit, which is a fault, or the end of
    -- the run
    by_cases hu : b = '_'
    · simp only [radixRun, hu, if_true, hrec] at h
      split at h
      · rename_i hnext
        obtain ⟨rfl, rfl, rfl⟩ := h
        obtain ⟨hok, _⟩ := ih hrec
        refine ⟨?_, by simp⟩
        -- The run goes on after the separator, so what follows it belongs to the run.
        have hpos : 0 < m := by
          cases s with
          | nil => exact absurd hnext (by decide)
          | cons c s =>
            have hc : isAlphanumeric c = true := hnext
            have hcu : c ≠ '_' := by
              rintro rfl
              exact absurd hc (by decide)
            simp only [radixRun, hcu, if_false, hc, if_true] at hrec
            have hm := congrArg Prod.fst hrec
            split at hm <;> simp only at hm <;> omega
        have hhead : front (s.take m) = front s := by
          cases s with
          | nil => simp
          | cons c s =>
            obtain ⟨m, rfl⟩ : ∃ k, m = k + 1 := ⟨m - 1, by omega⟩
            rfl
        simp [radixOk, hu, hhead, hnext, hok]
      · cases h
    · by_cases ha : isAlphanumeric b = true
      · by_cases hd : isDigitOf base b = true
        · simp only [radixRun, hu, if_false, ha, if_true, hd, Bool.or_false, hrec] at h
          obtain ⟨rfl, rfl, rfl⟩ := h
          obtain ⟨hok, _⟩ := ih hrec
          exact ⟨by simp [radixOk, hu, ha, hd, hok], by simp⟩
        · simp [radixRun, hu, ha, hd] at h
      · simp only [radixRun, hu, if_false, ha, Bool.false_eq_true] at h
        obtain ⟨rfl, rfl, _⟩ := h
        exact ⟨rfl, by simp⟩

theorem radixRun_of_radixOk {base : Nat} {s : Bytes} (h : radixOk base s = true) (p : Nat)
    {k : Bytes} (hk : isAlphanumeric (front k) = false) (hu : front k ≠ '_') :
    ∃ digits, radixRun base p false (s ++ k) = (s.length, digits, []) ∧ (s ≠ [] → digits ≠ 0) := by
  induction s generalizing p with
  | nil =>
    cases k with
    | nil => exact ⟨0, rfl, by simp⟩
    | cons b k =>
      have hb : isAlphanumeric b = false := hk
      have hbu : b ≠ '_' := hu
      exact ⟨0, by simp [radixRun, hb, hbu], by simp⟩
  | cons b s ih =>
    rw [radixOk, Bool.and_eq_true] at h
    obtain ⟨hb, hs⟩ := h
    obtain ⟨digits, hrun, hdigits⟩ := ih hs (p + 1)
    by_cases hbu : b = '_'
    · rw [if_pos hbu] at hb
      have hne : s ≠ [] := by
        rintro rfl
        exact absurd hb (by decide)
      refine ⟨digits, ?_, fun _ => hdigits hne⟩
      simp [radixRun, hbu, hrun, front_append hne, hb]
    · rw [if_neg hbu, Bool.and_eq_true] at hb
      refine ⟨digits + 1, ?_, by simp⟩
      simp [radixRun, hbu, hrun, hb.1, hb.2]

/-! ## Numbers -/

/-- Whether a text starts like a number. -/
def StartsNumber (s : Bytes) : Prop :=
  Bytes.isDigit (front s) = true ∨ front s = '.' ∧ Bytes.isDigit (front s.tail) = true

/-- Whether a text is a number without a fault. -/
def NumberText (s : Bytes) : Prop :=
  StartsNumber s ∧ (radix? s = none ∧ DecimalText s
    ∨ ∃ base a b digits, s = a :: b :: digits ∧ radix? s = some base ∧ digits ≠ []
      ∧ radixOk base digits = true)

theorem radix?_take {s : Bytes} {n : Nat} (h : 2 ≤ n) : radix? (s.take n) = radix? s := by
  obtain ⟨n, rfl⟩ : ∃ m, n = m + 2 := ⟨n - 2, by omega⟩
  match s with
  | [] => rfl
  | [a] => rfl
  | a :: b :: s => rfl

theorem number_ge_two (p : Nat) {s : Bytes} (hpoint : front s = '.')
    (hdigit : Bytes.isDigit (front s.tail) = true) : 2 ≤ (number p s).1 := by
  cases s with
  | nil => exact absurd hpoint (by decide)
  | cons b s =>
    obtain rfl : b = '.' := hpoint
    have hradix : radix? (('.' : UInt8) :: s) = none := by
      cases s <;> rfl
    have hrun : (digitRun p (('.' : UInt8) :: s)).1 = 0 := by
      simp [digitRun, show Bytes.isDigit ('.' : UInt8) = false by decide,
        show ('.' : UInt8) ≠ ('_' : UInt8) by decide]
    have hfraction : startsFraction (('.' : UInt8) :: s) = true := by
      simp only [List.tail_cons] at hdigit
      simp [startsFraction, hdigit]
    have hpos := digitRun_pos (p + 0 + 1) hdigit
    simp only [number, hradix, decimal, hrun, List.drop_zero, fraction, hfraction, if_true]
    simp only [List.tail_cons] at hpos ⊢
    omega

theorem numberText_of_number {p n : Nat} {s : Bytes} (hstart : StartsNumber s)
    (h : number p s = (n, [])) : NumberText (s.take n) := by
  have hpos := number_pos p hstart
  rw [h] at hpos
  -- the token starts with what the text starts with
  have hfront : front (s.take n) = front s := by
    cases s with
    | nil => simp
    | cons b s =>
      obtain ⟨n, rfl⟩ : ∃ k, n = k + 1 := ⟨n - 1, by simp only at hpos; omega⟩
      rfl
  refine ⟨?_, ?_⟩
  · rcases hstart with hdigit | ⟨hpoint, hdigit⟩
    · exact .inl (by rwa [hfront])
    · have htwo := number_ge_two p hpoint hdigit
      rw [h] at htwo
      refine .inr ⟨by rwa [hfront], ?_⟩
      obtain ⟨n, rfl⟩ : ∃ k, n = k + 2 := ⟨n - 2, by simp only at htwo; omega⟩
      match s with
      | [] => exact hdigit
      | [a] => exact hdigit
      | a :: b :: s => exact hdigit
  -- with the mark of a base or without, as the scanner decides
  · cases hradix : radix? s with
    | none =>
      left
      simp only [number, hradix] at h
      refine ⟨?_, decimalText_of_decimal h⟩
      by_cases htwo : 2 ≤ n
      · rw [radix?_take htwo, hradix]
      · obtain rfl : n = 1 := by simp only at hpos; omega
        cases s <;> rfl
    | some base =>
      right
      rcases hrun : radixRun base (p + 2) false (s.drop 2) with ⟨m, digits, faults⟩
      simp only [number, hradix, hrun] at h
      -- a base without digits is a fault
      by_cases hd : digits = 0
      · simp [hd] at h
      · rw [if_neg hd] at h
        obtain ⟨rfl, rfl⟩ := h
        obtain ⟨hok, hm⟩ := radixOk_of_radixRun hrun
        match s with
        | [] => cases hradix
        | [a] => cases hradix
        | a :: b :: s =>
          rw [List.drop_succ_cons, List.drop_succ_cons, List.drop_zero] at hok hrun
          have hle := radixRun_le base (p + 2) false s
          rw [hrun] at hle
          refine ⟨base, a, b, s.take m, by rw [Nat.add_comm]; rfl, ?_, ?_, hok⟩
          · rw [radix?_take (by omega), hradix]
          · have hm := hm hd
            intro hnil
            have := congrArg List.length hnil
            rw [List.length_take, List.length_nil] at this
            simp only at hle
            omega

theorem number_of_text {s k : Bytes} (h : NumberText s) (p : Nat) (hk : AfterNumber s k) :
    number p (s ++ k) = (s.length, []) := by
  obtain ⟨hstart, ⟨hradix, hdecimal⟩ | ⟨base, a, b, digits, rfl, hradix, hne, hok⟩⟩ := h
  -- without a mark of a base in the number there is none in the text either
  · have hnone : radix? (s ++ k) = none := by
      match s with
      | [] =>
        rcases hstart with h | ⟨h, _⟩ <;> exact absurd h (by decide)
      | [a] =>
        cases k with
        | nil => rfl
        | cons b k =>
          -- a single digit ends before what is no letter, so no mark can follow
          have hb : isAlphanumeric b = false := hk.letter
          simp only [List.singleton_append, radix?]
          split
          · have : ∀ c : UInt8, isAlphanumeric c = true → b ≠ c := by
              rintro c hc rfl
              rw [hc] at hb
              cases hb
            simp [this _ (by decide : isAlphanumeric ('b' : UInt8) = true),
              this _ (by decide : isAlphanumeric ('B' : UInt8) = true),
              this _ (by decide : isAlphanumeric ('o' : UInt8) = true),
              this _ (by decide : isAlphanumeric ('O' : UInt8) = true),
              this _ (by decide : isAlphanumeric ('x' : UInt8) = true),
              this _ (by decide : isAlphanumeric ('X' : UInt8) = true)]
          · rfl
      | a :: b :: s => exact hradix
    simp only [number, hnone]
    exact decimal_of_text hdecimal p hk
  · have hu : front k ≠ '_' := by
      intro he
      have := hk.name
      rw [he] at this
      exact absurd this (by decide)
    obtain ⟨count, hrun, hcount⟩ := radixRun_of_radixOk hok (p + 2) hk.letter hu
    have hsome : radix? (a :: b :: (digits ++ k)) = some base := hradix
    rw [List.cons_append, List.cons_append]
    simp only [number, hsome, List.drop_succ_cons, List.drop_zero, hrun, if_neg (hcount hne),
      List.length_cons]
    rw [Nat.add_comm]

/-! ## The bytes of a number -/

theorem mem_digitsOk {s : Bytes} (h : digitsOk s = true) {b : UInt8} (hb : b ∈ s) :
    goesOn b = true := by
  induction s with
  | nil => cases hb
  | cons c s ih =>
    simp only [digitsOk, Bool.and_eq_true, Bool.or_eq_true, decide_eq_true_eq] at h
    rcases List.mem_cons.mp hb with rfl | hb
    · rcases h.1 with h | ⟨rfl, _⟩
      · simp [goesOn, h]
      · decide
    · exact ih h.2 hb

theorem mem_radixOk {base : Nat} {s : Bytes} (h : radixOk base s = true) {b : UInt8}
    (hb : b ∈ s) : isAlphanumeric b = true ∨ b = '_' := by
  induction s with
  | nil => cases hb
  | cons c s ih =>
    rw [radixOk, Bool.and_eq_true] at h
    rcases List.mem_cons.mp hb with rfl | hb
    · by_cases hu : b = '_'
      · exact .inr hu
      · have h1 := h.1
        rw [if_neg hu, Bool.and_eq_true] at h1
        exact .inl h1.1
    · exact ih h.2 hb

/-- The bytes that numbers are made of. -/
def isNumberByte (b : UInt8) : Bool :=
  isAlphanumeric b || b = '_' || b = '.' || b = '+' || b = '-'

theorem isNumberByte_of_goesOn {b : UInt8} (h : goesOn b = true) : isNumberByte b = true := by
  simp only [goesOn, Bool.or_eq_true, decide_eq_true_eq] at h
  rcases h with h | rfl
  · simp [isNumberByte, isAlphanumeric, h]
  · decide

theorem NumberText.mem {s : Bytes} (h : NumberText s) {b : UInt8} (hb : b ∈ s) :
    isNumberByte b = true := by
  obtain ⟨_, ⟨_, whole, point, power, rfl, hwhole, hpoint, hpower⟩ |
    ⟨base, a, c, digits, rfl, hradix, _, hok⟩⟩ := h
  -- in each part of a number: digits and separators, the point, the mark of the power and its sign
  · rcases List.mem_append.mp hb with hb | hb
    · rcases List.mem_append.mp hb with hb | hb
      · exact isNumberByte_of_goesOn (mem_digitsOk hwhole hb)
      · rcases hpoint with rfl | ⟨digits, rfl, hok, _⟩
        · cases hb
        · rcases List.mem_cons.mp hb with rfl | hb
          · decide
          · exact isNumberByte_of_goesOn (mem_digitsOk hok hb)
    · rcases hpower with rfl | ⟨mark, sign, digits, rfl, hmark, hsign, _, hok⟩
      · cases hb
      · rcases List.mem_cons.mp hb with rfl | hb
        · rcases hmark with rfl | rfl <;> decide
        · rcases List.mem_append.mp hb with hb | hb
          · rcases hsign with rfl | rfl | rfl
            · cases hb
            all_goals
              obtain rfl := List.mem_singleton.mp hb
              decide
          -- behind the zero stands a mark, and then digits of its base
          · exact isNumberByte_of_goesOn (mem_digitsOk hok hb)
  · simp only [radix?] at hradix
    split at hradix
    · rename_i ha
      rcases List.mem_cons.mp hb with rfl | hb
      · subst ha
        decide
      rcases List.mem_cons.mp hb with rfl | hb
      · split at hradix
        · rename_i hc
          simp only [Bool.or_eq_true, decide_eq_true_eq] at hc
          rcases hc with rfl | rfl <;> decide
        · split at hradix
          · rename_i hc
            simp only [Bool.or_eq_true, decide_eq_true_eq] at hc
            rcases hc with rfl | rfl <;> decide
          · split at hradix
            · rename_i hc
              simp only [Bool.or_eq_true, decide_eq_true_eq] at hc
              rcases hc with rfl | rfl <;> decide
            · cases hradix
      · rcases mem_radixOk hok hb with h | rfl
        · simp [isNumberByte, h]
        · decide
    · cases hradix

/-- A number that ends in a point is digits and the point. -/
theorem NumberText.of_point {s : Bytes} (h : NumberText s)
    (hlast : s.getLast? = some ('.' : UInt8)) :
    ∃ whole, s = whole ++ [('.' : UInt8)] ∧ digitsOk whole = true ∧ radix? s = none := by
  have hpoint : goesOn ('.' : UInt8) = false := by decide
  obtain ⟨_, ⟨hradix, whole, point, power, rfl, hwhole, hp, hpower⟩ |
    ⟨base, a, c, digits, rfl, hradix, hne, hok⟩⟩ := h
  · rcases hpower with rfl | ⟨mark, sign, digits, rfl, _, _, hdigit, hok⟩
    · rw [List.append_nil] at hlast hradix ⊢
      rcases hp with rfl | ⟨digits, rfl, hok, hnext⟩
      · rw [List.append_nil] at hlast
        have := mem_digitsOk hwhole (List.mem_of_getLast? hlast)
        rw [hpoint] at this
        cases this
      · rcases hnext with hdigit | ⟨rfl, _⟩
        · have hne : digits ≠ [] := by
            rintro rfl
            exact absurd hdigit (by decide)
          rw [List.getLast?_append_of_ne_nil _ (by simp), List.getLast?_cons_of_ne_nil hne] at hlast
          have := mem_digitsOk hok (List.mem_of_getLast? hlast)
          rw [hpoint] at this
          cases this
        · exact ⟨whole, rfl, hwhole, hradix⟩
    · have hne : digits ≠ [] := by
        rintro rfl
        exact absurd hdigit (by decide)
      rw [List.getLast?_append_of_ne_nil _ (by simp), ← List.cons_append,
        List.getLast?_append_of_ne_nil _ hne] at hlast
      have := mem_digitsOk hok (List.mem_of_getLast? hlast)
      rw [hpoint] at this
      cases this
  · rw [List.getLast?_cons_cons, List.getLast?_cons_of_ne_nil hne] at hlast
    rcases mem_radixOk hok (List.mem_of_getLast? hlast) with h | h
    · exact absurd h (by decide)
    · exact absurd h (by decide)

/-- Before another point the point at the end of a number is not a part of it. -/
theorem number_before_point {s k : Bytes} (h : NumberText s)
    (hlast : s.getLast? = some ('.' : UInt8)) (p : Nat) :
    number p (s ++ ('.' : UInt8) :: k) = (s.length - 1, []) := by
  obtain ⟨whole, rfl, hwhole, hradix⟩ := h.of_point hlast
  have hnone : radix? (whole ++ [('.' : UInt8)] ++ ('.' : UInt8) :: k) = none := by
    match whole with
    | [] => rfl
    | [a] => exact hradix
    | a :: b :: whole => exact hradix
  have hrun := digitRun_of_digitsOk hwhole p (k := ('.' : UInt8) :: ('.' : UInt8) :: k) rfl
  have hfraction := fun q => fraction_eq_zero q
    (s := ('.' : UInt8) :: ('.' : UInt8) :: k) (by rfl)
  have hexponent := fun q => exponent_eq_zero q (s := ('.' : UInt8) :: ('.' : UInt8) :: k)
    ⟨(by decide : ('.' : UInt8) ≠ 'e'), (by decide : ('.' : UInt8) ≠ 'E')⟩
  have hsuffix := fun q => badSuffix_eq_zero q (s := ('.' : UInt8) :: ('.' : UInt8) :: k) (by rfl)
    (by decide : ('.' : UInt8) ≠ '_')
  simp only [number, hnone, decimal]
  rw [List.append_assoc, List.singleton_append, hrun]
  simp only [List.drop_left, hfraction, Nat.add_zero, hexponent, hsuffix, List.append_nil,
    List.length_append, List.length_singleton, Nat.add_sub_cancel]

end Storyline.Script
