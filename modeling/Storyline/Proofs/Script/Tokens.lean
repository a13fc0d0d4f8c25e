import Mathlib.Data.List.Basic
import Mathlib.Data.List.Find
import Storyline.Proofs.Script.Numbers
import Storyline.Proofs.Script.Places

/-!
# Tokens before a text

A token stands `Before` a text if the two together are read as the token, whole and without a
fault, and then the text.  Every token of a text without faults stands before what follows it
there.  Which other texts it may stand before is decided by its kind: a word before every text that
does not go on with letters or digits, a number before one that does not go on with a point either,
a string before every text, and a symbol before every text with which it makes no longer symbol.
-/

namespace Storyline.Script

/-! ## The first token of a text -/

theorem formsOf_nil : formsOf [] = [] := rfl

theorem formsOf_space {b : UInt8} (h : isSpace b = true) (s : Bytes) :
    formsOf (b :: s) = formsOf s := by
  rw [formsOf, lexemes_space 0 0 s h, formsIn_lexemes, formsOf]

theorem formsOf_token {s : Bytes} (hs : s ≠ []) (h : isSpace (front s) = false) :
    formsOf s = ⟨(scan 0 s).kind, s.take (scan 0 s).length⟩
      :: formsOf (s.drop (scan 0 s).length) := by
  rw [formsOf, lexemes_token 0 0 hs h, formsIn_cons, formsIn_lexemes, lexemeAt_form,
    List.filter_cons_of_pos (by simpa using scan_kind_ne_end 0 s), formsOf]

theorem faultless_nil : Faultless [] := by
  intro l hl
  obtain rfl : l = lexemeEnd 0 0 := by simpa using hl
  rfl

theorem faultless_space {b : UInt8} (h : isSpace b = true) (s : Bytes) :
    Faultless (b :: s) ↔ Faultless s := by
  rw [Faultless, lexemes_space 0 0 s h, faultless_iff]

theorem faultless_token {s : Bytes} (hs : s ≠ []) (h : isSpace (front s) = false) :
    Faultless s ↔ (scan 0 s).faults = [] ∧ Faultless (s.drop (scan 0 s).length) := by
  rw [Faultless, lexemes_token 0 0 hs h, List.forall_mem_cons, lexemeAt_notices, faultless_iff]

/-- Whether a token followed by a text is read as the token, whole and without a fault. -/
structure Form.Before (f : Form) (k : Bytes) : Prop where
  ne_nil : f.text ≠ []
  start : isSpace (front f.text) = false
  scan : Script.scan 0 (f.text ++ k) = ⟨f.kind, f.text.length, []⟩

theorem Form.Before.formsOf {f : Form} {k : Bytes} (h : f.Before k) :
    formsOf (f.text ++ k) = f :: Script.formsOf k := by
  have hne : f.text ++ k ≠ [] := List.append_ne_nil_of_left_ne_nil h.ne_nil k
  rw [formsOf_token hne (by rw [front_append h.ne_nil]; exact h.start), h.scan, List.take_left,
    List.drop_left]

theorem Form.Before.faultless {f : Form} {k : Bytes} (h : f.Before k) :
    Faultless (f.text ++ k) ↔ Faultless k := by
  have hne : f.text ++ k ≠ [] := List.append_ne_nil_of_left_ne_nil h.ne_nil k
  rw [faultless_token hne (by rw [front_append h.ne_nil]; exact h.start), h.scan, List.drop_left]
  exact and_iff_right rfl

/-- The first token of a text without faults stands before what follows it. -/
theorem before_of_faultless {s : Bytes} (hs : s ≠ []) (h : isSpace (front s) = false)
    (hf : Faultless s) :
    ∃ f k, s = f.text ++ k ∧ f.Before k ∧ formsOf s = f :: formsOf k ∧ Faultless k := by
  obtain ⟨hfaults, hrest⟩ := (faultless_token hs h).mp hf
  obtain ⟨hpos, hle⟩ := scan_bounds 0 hs
  have hne : s.take (scan 0 s).length ≠ [] := by
    intro hnil
    have := congrArg List.length hnil
    rw [List.length_take, List.length_nil] at this
    omega
  have hcat := List.take_append_drop (scan 0 s).length s
  refine ⟨⟨(scan 0 s).kind, s.take (scan 0 s).length⟩, s.drop (scan 0 s).length, hcat.symm,
    ⟨hne, ?_, ?_⟩, formsOf_token hs h, hrest⟩
  · rwa [← front_append hne (s.drop (scan 0 s).length), hcat]
  · simp only [hcat, List.length_take]
    rw [Nat.min_eq_left hle, ← hfaults]

/-- Whether a token is one that the lexer delivers somewhere without a fault. -/
def Form.Delivered (f : Form) : Prop := ∃ k, f.Before k

theorem delivered_of_faultless {s : Bytes} (h : Faultless s) : ∀ f ∈ formsOf s, f.Delivered := by
  induction s using lexemes_induction with
  | nil => exact nofun
  | space b s hb ih =>
    rw [formsOf_space hb]
    exact ih ((faultless_space hb s).mp h)
  | token s hs hb ih =>
    obtain ⟨f, k, rfl, hbefore, hforms, hk⟩ := before_of_faultless hs hb h
    rw [hbefore.scan, List.drop_left] at ih
    rw [hforms, List.forall_mem_cons]
    exact ⟨⟨k, hbefore⟩, ih hk⟩

/-! ## Words -/

/-- Whether a text does not go on with a word. -/
structure EndsWord (k : Bytes) : Prop where
  name : isNameStart (front k) = false
  digit : Bytes.isDigit (front k) = false
  wide : front k < 0x80

theorem EndsWord.nil : EndsWord [] := ⟨by decide, by decide, by decide⟩

theorem EndsWord.cons {b : UInt8} (k : Bytes)
    (h : (!isNameStart b && !Bytes.isDigit b && decide (b < 0x80)) = true) : EndsWord (b :: k) := by
  simp only [Bool.and_eq_true, Bool.not_eq_true', decide_eq_true_eq] at h
  exact ⟨h.1.1, h.1.2, h.2⟩

/-- A character that is taken from bytes that stand before a text is there before every text. -/
theorem Glyph.head_append {b : UInt8} {s k : Bytes} {c : Char} {n : Nat}
    (h : Glyph.head b (s ++ k) = (.char c, n)) (hn : n ≤ s.length) (k' : Bytes) :
    Glyph.head b (s ++ k') = (.char c, n) := by
  -- By how many bytes the first one announces; none of these lies behind `s`, for `n` counts them
  -- all.
  unfold Glyph.head at h ⊢
  split
  · rename_i hb
    rwa [if_pos hb] at h
  · rename_i hb
    rw [if_neg hb] at h
    split
    · rename_i htwo
      rw [if_pos htwo] at h
      match s with
      | [] =>
        rw [List.nil_append] at h
        split at h
        · split at h
          · cases h
            simp at hn
          · cases h
        · cases h
      | d :: s => exact h
    · rename_i htwo
      rw [if_neg htwo] at h
      split
      · rename_i hthree
        rw [if_pos hthree] at h
        split at h
        · split at h
          · rename_i heq hok
            cases h
            match s with
            | [] => simp at hn
            | [_] => simp at hn
            | d :: e :: s =>
              obtain ⟨rfl, rfl, _⟩ : d = _ ∧ e = _ ∧ _ := by simpa using heq
              simp [hok]
          · cases h
        · cases h
      · rename_i hthree
        rw [if_neg hthree] at h
        split
        · rename_i hfour
          rw [if_pos hfour] at h
          split at h
          · split at h
            · rename_i heq hok
              cases h
              match s with
              | [] => simp at hn
              | [_] => simp at hn
              | [_, _] => simp at hn
              | d :: e :: g :: s =>
                obtain ⟨rfl, rfl, rfl, _⟩ : d = _ ∧ e = _ ∧ g = _ ∧ _ := by simpa using heq
                simp [hok]
            · cases h
          · cases h
        · rename_i hfour
          rw [if_neg hfour] at h
          cases h

theorem isNameChar_ascii (n : Fin 128) :
    isNameChar (Char.ofNat n) = (isNameStart n.val.toUInt8 || Bytes.isDigit n.val.toUInt8) := by
  revert n
  decide +kernel

theorem nameLengthFrom_of_endsWord (length : Nat) {k : Bytes} (h : EndsWord k) :
    nameLengthFrom length 0 k = length := by
  cases k with
  | nil => rfl
  | cons b k =>
    have hb : b < 0x80 := h.wide
    have hlt : b.toNat < 128 := hb
    have hname := isNameChar_ascii ⟨b.toNat, hlt⟩
    have hback : b.toNat.toUInt8 = b := by simp
    simp only [hback] at hname
    have hstart : isNameStart b = false := h.name
    have hdigit : Bytes.isDigit b = false := h.digit
    simp [nameLengthFrom, Glyph.head, hb, hname, hstart, hdigit]

theorem nameLengthFrom_append (length skip : Nat) {s k : Bytes} (hskip : skip ≤ s.length)
    (h : nameLengthFrom length skip (s ++ k) + skip = length + s.length) {k' : Bytes}
    (hk : EndsWord k') : nameLengthFrom length skip (s ++ k') + skip = length + s.length := by
  induction s generalizing length skip with
  | nil =>
    obtain rfl : skip = 0 := by simpa using hskip
    simp [nameLengthFrom_of_endsWord length hk]
  | cons b s ih =>
    cases skip with
    | succ n =>
      simp only [List.cons_append, nameLengthFrom, List.length_cons] at h hskip ⊢
      have := ih length n (by omega) (by omega)
      omega
    | zero =>
      simp only [List.cons_append, nameLengthFrom, List.length_cons, Nat.add_zero] at h ⊢
      split at h
      · rename_i c more hhead
        split at h
        · rename_i hc
          have hle := Glyph.head_le b (s ++ k)
          rw [hhead] at hle
          have hbounds := nameLengthFrom_le (length + 1 + more) more (s ++ k) hle
          have hmore : more ≤ s.length := by omega
          rw [Glyph.head_append hhead hmore k']
          have := ih (length + 1 + more) more hmore (by omega)
          simp only [hc, if_true]
          omega
        · omega
      · omega

/-- The bytes that words are made of. -/
def isWordByte (b : UInt8) : Bool := isNameStart b || Bytes.isDigit b || 0x80 ≤ b

theorem Glyph.head_wide {b : UInt8} {s : Bytes} {g : Glyph} {n : Nat}
    (h : Glyph.head b s = (g, n)) : ∀ c ∈ s.take n, 0x80 ≤ c := by
  have hcont : ∀ c, Glyph.isContinuation c = true → 0x80 ≤ c := by
    intro c hc
    simp only [Glyph.isContinuation, Bool.and_eq_true, decide_eq_true_eq] at hc
    exact hc.1
  have hsecond : ∀ c, Glyph.secondByteOk b c = true → 0x80 ≤ c := by
    intro c hc
    simp only [Glyph.secondByteOk] at hc
    rw [UInt8.le_iff_toNat_le]
    repeat' split at hc
    all_goals
      simp only [Glyph.isContinuation, Bool.and_eq_true, decide_eq_true_eq,
        UInt8.le_iff_toNat_le] at hc
      simp at hc ⊢
      omega
  unfold Glyph.head at h
  repeat' split at h
  all_goals cases h
  all_goals try exact List.forall_mem_nil _
  · rename_i hc
    simpa using hcont _ hc
  · rename_i hc
    simp only [Bool.and_eq_true] at hc
    simpa using ⟨hsecond _ hc.1, hcont _ hc.2⟩
  · rename_i hc
    simp only [Bool.and_eq_true] at hc
    simpa using ⟨hsecond _ hc.1.1, hcont _ hc.1.2, hcont _ hc.2⟩

theorem nameLengthFrom_mem (length skip : Nat) {s k : Bytes} (hskip : skip ≤ s.length)
    (hwide : ∀ b ∈ s.take skip, 0x80 ≤ b)
    (h : nameLengthFrom length skip (s ++ k) + skip = length + s.length) :
    ∀ b ∈ s, isWordByte b = true := by
  -- By induction on the text.  `skip` counts the bytes that belong to the character before, all of
  -- them beyond the ASCII range.
  induction s generalizing length skip with
  | nil => exact nofun
  | cons b s ih =>
    rw [List.forall_mem_cons]
    cases skip with
    | succ n =>
      simp only [List.cons_append, nameLengthFrom, List.length_cons] at h hskip
      rw [List.take_succ_cons, List.forall_mem_cons] at hwide
      refine ⟨by simp [isWordByte, hwide.1], ih length n ?_ hwide.2 ?_⟩
      · omega
      · omega
    | zero =>
      simp only [List.cons_append, nameLengthFrom, List.length_cons, Nat.add_zero] at h
      split at h
      · rename_i c more hhead
        split at h
        · rename_i hc
          have hle := Glyph.head_le b (s ++ k)
          rw [hhead] at hle
          have hbounds := nameLengthFrom_le (length + 1 + more) more (s ++ k) hle
          have hmore : more ≤ s.length := by omega
          have hrest := Glyph.head_wide hhead
          rw [List.take_append_of_le_length hmore] at hrest
          refine ⟨?_, ih (length + 1 + more) more hmore hrest (by omega)⟩
          -- a character of one byte is one the table knows, any other starts with a wide byte
          by_cases hb : b < 0x80
          · have hlt : b.toNat < 128 := hb
            have hname := isNameChar_ascii ⟨b.toNat, hlt⟩
            have hback : b.toNat.toUInt8 = b := by simp
            simp only [Glyph.head, hb, if_true, Prod.mk.injEq, Glyph.char.injEq] at hhead
            simp only [hback, hhead.1, hc] at hname
            simp [isWordByte, ← hname]
          · have hwide : 0x80 ≤ b := by
              rw [UInt8.le_iff_toNat_le]
              rw [UInt8.lt_iff_toNat_lt] at hb
              omega
            simp [isWordByte, hwide]
        -- where the name stops before the end of the text, the count cannot come out
        · omega
      · omega

/-! ## Kinds of tokens -/

theorem scan_eq_name (pos : Nat) {s : Bytes} (h : isNameStart (front s) = true ∨ 0x80 ≤ front s) :
    scan pos s = scanName pos s := by
  have hb : (isNameStart (front s) || decide (0x80 ≤ front s)) = true := by simpa using h
  simp only [scan, hb, if_true]

theorem isNameStart_of_isDigit {b : UInt8} (h : Bytes.isDigit b = true) :
    isNameStart b = false ∧ ¬ (0x80 ≤ b) := by
  simp only [Bytes.isDigit, Bool.and_eq_true, decide_eq_true_eq, UInt8.le_iff_toNat_le] at h
  have hne : ∀ c : UInt8, c.toNat < 48 ∨ 57 < c.toNat → b ≠ c := by
    rintro c hc rfl
    simp at h
    omega
  have hlow : b ≠ '_' := hne _ (by decide)
  have hdollar : b ≠ '$' := hne _ (by decide)
  simp [isNameStart, Bytes.isLetter, hlow, hdollar, UInt8.le_iff_toNat_le] at h ⊢
  omega

theorem scan_eq_number (pos : Nat) {s : Bytes} (h : StartsNumber s) :
    scan pos s = ⟨.number, (number pos s).1, (number pos s).2⟩ := by
  have hname : (isNameStart (front s) || decide (0x80 ≤ front s)) = false := by
    rcases h with h | ⟨h, _⟩
    · simpa using isNameStart_of_isDigit h
    · rw [h]
      decide
  have hnumber : (Bytes.isDigit (front s)
      || (decide (front s = '.') && Bytes.isDigit (front s.tail))) = true := by
    simpa [StartsNumber] using h
  simp only [scan, hname, hnumber, Bool.false_eq_true, if_false, if_true]

/-- What a token's kind says about how it was read. -/
theorem scan_kind (pos : Nat) (s : Bytes) :
    ((scan pos s).kind = .identifier ∨ (∃ w, (scan pos s).kind = .keyword w) →
      (isNameStart (front s) = true ∨ 0x80 ≤ front s) ∧ scan pos s = scanName pos s)
    ∧ ((scan pos s).kind = .number → StartsNumber s)
    ∧ ((scan pos s).kind = .string →
      (front s = '"' ∨ front s = '\'') ∧ scan pos s = scanString pos s)
    ∧ ((scan pos s).kind = .template → front s = 0x60 ∧ scan pos s = scanTemplate pos s) := by
  -- In the order in which the scanner asks: a name, a number, the two quotes, the template, and
  -- then an operator.
  simp only [scan]
  split
  · rename_i hname
    refine ⟨fun _ => ⟨by simpa using hname, rfl⟩, ?_⟩
    simp only [scanName, unknownCharacter]
    split
    · simp
    · split <;> simp
  · split
    · rename_i hnumber
      refine ⟨?_, fun _ => by simpa [StartsNumber] using hnumber, by simp, by simp⟩
      rintro (h | ⟨w, h⟩) <;> cases h
    · split
      · rename_i hquote
        have hkind : (scanString pos s).kind = .string := by
          simp only [scanString]
          split <;> rfl
        rw [hkind]
        refine ⟨?_, by simp, fun _ => ⟨by simpa using hquote, rfl⟩, by simp⟩
        rintro (h | ⟨w, h⟩) <;> cases h
      · split
        · rename_i hquote
          have hkind : (scanTemplate pos s).kind = .template := by
            simp only [scanTemplate]
            split <;> rfl
          rw [hkind]
          refine ⟨?_, by simp, by simp, fun _ => ⟨by simpa using hquote, rfl⟩⟩
          rintro (h | ⟨w, h⟩) <;> cases h
        · simp only [scanSymbol]
          split
          · simp
          · simp [unknownCharacter]

namespace Form.Before

variable {f : Form} {k k' : Bytes}

theorem length_pos (h : f.Before k) : 0 < f.text.length := List.length_pos_of_ne_nil h.ne_nil

theorem nameLength (h : f.Before k) (hkind : f.kind = .identifier ∨ ∃ w, f.kind = .keyword w) :
    Script.nameLength (f.text ++ k) = f.text.length := by
  have hscan := h.scan
  obtain ⟨_, hname⟩ := (scan_kind 0 (f.text ++ k)).1 (by rwa [hscan])
  rw [hname, scanName] at hscan
  split at hscan
  · simp [unknownCharacter] at hscan
  · split at hscan <;> exact congrArg Scan.length hscan

theorem wordBytes (h : f.Before k) (hkind : f.kind = .identifier ∨ ∃ w, f.kind = .keyword w) :
    ∀ b ∈ f.text, isWordByte b = true :=
  nameLengthFrom_mem 0 0 (Nat.zero_le _) (by simp)
    (by simpa [Script.nameLength] using h.nameLength hkind)

/-- A word stands before every text that does not go on with one. -/
theorem word (h : f.Before k) (hkind : f.kind = .identifier ∨ ∃ w, f.kind = .keyword w)
    (hk : EndsWord k') : f.Before k' := by
  have hscan := h.scan
  obtain ⟨hfront, hname⟩ := (scan_kind 0 (f.text ++ k)).1 (by rwa [hscan])
  rw [front_append h.ne_nil] at hfront
  have hpos := h.length_pos
  have hlength := h.nameLength hkind
  rw [hname, scanName] at hscan
  have hlength' : Script.nameLength (f.text ++ k') = f.text.length := by
    have := nameLengthFrom_append 0 0 (Nat.zero_le _)
      (by simpa [Script.nameLength] using hlength) hk
    simpa [Script.nameLength] using this
  refine ⟨h.ne_nil, h.start, ?_⟩
  rw [scan_eq_name 0 (by rwa [front_append h.ne_nil]), scanName]
  simp only [hlength, hlength', List.take_left, if_neg (Nat.pos_iff_ne_zero.mp hpos)] at hscan ⊢
  exact hscan

theorem numberText (h : f.Before k) (hkind : f.kind = .number) : NumberText f.text := by
  have hscan := h.scan
  have hstart := (scan_kind 0 (f.text ++ k)).2.1 (by rw [hscan, hkind])
  rw [scan_eq_number 0 hstart] at hscan
  obtain ⟨_, hlength, hfaults⟩ := Scan.mk.inj hscan
  have hnumber : number 0 (f.text ++ k) = (f.text.length, []) := Prod.ext hlength hfaults
  have := numberText_of_number hstart hnumber
  rwa [List.take_left] at this

/-- A number stands before every text that does not go on with it. -/
theorem number (h : f.Before k) (hkind : f.kind = .number) (hk : AfterNumber f.text k') :
    f.Before k' := by
  have htext := h.numberText hkind
  refine ⟨h.ne_nil, h.start, ?_⟩
  rw [scan_eq_number 0 ?_, number_of_text htext 0 hk, hkind]
  rcases htext.1 with hd | ⟨hp, hd⟩
  · exact .inl (by rwa [front_append h.ne_nil])
  · have htail : f.text.tail ≠ [] := by
      intro hnil
      rw [hnil] at hd
      exact absurd hd (by decide)
    refine .inr ⟨by rwa [front_append h.ne_nil], ?_⟩
    rwa [List.tail_append_of_ne_nil h.ne_nil, front_append htail]

end Form.Before

theorem stringLength_append {quote : UInt8} {length : Nat} {escaped : Bool} {s k : Bytes}
    (h : stringLength quote length escaped (s ++ k) = (length + s.length, true)) (k' : Bytes) :
    stringLength quote length escaped (s ++ k') = (length + s.length, true) := by
  induction s generalizing length escaped with
  | nil =>
    -- A closed string has its closing quote.
    have hlt : length < (stringLength quote length escaped k).1 := by
      rw [List.nil_append] at h
      cases k with
      | nil =>
        rw [stringLength] at h
        cases h
      | cons b k =>
        cases escaped with
        | true =>
          have := (stringLength_le quote (length + 1) false k).1
          simp only [stringLength]
          omega
        | false =>
          have := (stringLength_le quote (length + 1) (decide (b = ('\\' : UInt8))) k).1
          simp only [stringLength]
          split
          · exact Nat.lt_succ_self length
          · omega
    rw [List.nil_append] at h
    rw [h] at hlt
    simp at hlt
  | cons b s ih =>
    have hlength : length + (b :: s).length = length + 1 + s.length := by
      rw [List.length_cons]
      omega
    rw [hlength, List.cons_append] at h ⊢
    -- an escaped byte closes nothing
    cases escaped with
    | true => exact ih h
    | false =>
      simp only [stringLength] at h ⊢
      by_cases hb : b = quote
      · rwa [if_pos hb] at h ⊢
      · rw [if_neg hb] at h ⊢
        exact ih h

theorem stringLength_getLast? {quote : UInt8} {length : Nat} {escaped : Bool} {s k : Bytes}
    (h : stringLength quote length escaped (s ++ k) = (length + s.length, true)) (hs : s ≠ []) :
    s.getLast? = some quote := by
  induction s generalizing length escaped with
  | nil => exact absurd rfl hs
  | cons b s ih =>
    have hlength : length + (b :: s).length = length + 1 + s.length := by
      rw [List.length_cons]
      omega
    rw [hlength, List.cons_append] at h
    by_cases hnil : s = []
    -- the last byte: it is the one that closed the string, for none follows it
    · subst hnil
      have hnext : ∀ e, stringLength quote (length + 1) e k ≠ (length + 1, true) := by
        intro e he
        have hempty := stringLength_append (s := []) (k := k) (by simpa using he) []
        simp [stringLength] at hempty
      cases escaped with
      | true => exact absurd h (hnext false)
      | false =>
        simp only [stringLength] at h
        split at h
        · rename_i hb
          simp [hb]
        · exact absurd h (hnext _)
    · rw [List.getLast?_cons_of_ne_nil hnil]
      cases escaped with
      | true => exact ih h hnil
      | false =>
        simp only [stringLength] at h
        -- a quote before the end would have closed the string too early
        split at h
        · exact absurd (congrArg Prod.fst h) (by
            have := List.length_pos_of_ne_nil hnil
            simp only
            omega)
        · exact ih h hnil

namespace Form.Before

variable {f : Form} {k k' : Bytes}

/-- A string is closed by the quote that opens it. -/
theorem stringText (h : f.Before k) (hkind : f.kind = .string) :
    ∃ quote body, f.text = quote :: body ∧ (quote = '"' ∨ quote = '\'')
      ∧ body.getLast? = some quote
      ∧ ∀ k', stringLength quote 1 false (body ++ k') = (1 + body.length, true) := by
  have hscan := h.scan
  obtain ⟨hquote, hstring⟩ := (scan_kind 0 (f.text ++ k)).2.2.1 (by rw [hscan, hkind])
  cases htext : f.text with
  | nil => exact absurd htext h.ne_nil
  | cons quote body =>
    rw [htext, List.cons_append] at hquote hstring hscan
    have hfront : front (quote :: (body ++ k)) = quote := rfl
    rw [hfront] at hquote
    rw [hstring] at hscan
    simp only [scanString, hfront, List.tail_cons] at hscan
    have hlength : stringLength quote 1 false (body ++ k) = (1 + body.length, true) := by
      split at hscan
      · rename_i hclosed
        have := congrArg Scan.length hscan
        simp only [List.length_cons] at this
        exact Prod.ext (by simp only; omega) hclosed
      · exact absurd (congrArg Scan.faults hscan) (by simp)
    refine ⟨quote, body, rfl, hquote, stringLength_getLast? hlength ?_,
      fun k' => stringLength_append hlength k'⟩
    rintro rfl
    have := stringLength_append (s := []) hlength []
    simp [stringLength] at this

/-- A string stands before every text. -/
theorem string (h : f.Before k) (hkind : f.kind = .string) (k' : Bytes) : f.Before k' := by
  obtain ⟨quote, body, htext, hquote, _, hlength⟩ := h.stringText hkind
  refine ⟨h.ne_nil, h.start, ?_⟩
  have hscan : Script.scan 0 (quote :: (body ++ k')) = scanString 0 (quote :: (body ++ k')) := by
    rcases hquote with rfl | rfl <;> rfl
  rw [htext, List.cons_append, hscan]
  simp only [scanString, front, List.headD_cons, List.tail_cons, hlength k', hkind,
    List.length_cons, if_true]
  rw [Nat.add_comm]

end Form.Before

/-! ## Symbols and reserved words -/

/-- Whether a symbol and the byte after it start no longer symbol. -/
def Symbol.clear (op : Symbol) (b : UInt8) : Bool :=
  Symbol.longestFirst.all fun t => !((op.text : Bytes) ++ [b]).isPrefixOf (t.text : Bytes)

/-- The bytes that make a longer symbol of one that they stand behind. -/
def Symbol.longer (op : Symbol) : List UInt8 :=
  Symbol.longestFirst.filterMap fun t =>
    if (op.text : Bytes).isPrefixOf (t.text : Bytes) then
      (t.text : Bytes)[(op.text : Bytes).length]?
    else none

theorem Symbol.clear_of_not_mem {op : Symbol} {b : UInt8} (h : b ∉ op.longer) :
    op.clear b = true := by
  refine List.all_eq_true.mpr fun t ht => ?_
  rw [Bool.not_eq_true', ← Bool.not_eq_true, List.isPrefixOf_iff_prefix]
  rintro ⟨rest, heq⟩
  refine h (List.mem_filterMap.mpr ⟨t, ht, ?_⟩)
  have hp : (op.text : Bytes) <+: (t.text : Bytes) := ⟨b :: rest, by simpa using heq⟩
  rw [if_pos (List.isPrefixOf_iff_prefix.mpr hp), ← heq]
  simp

/-- Every symbol is looked for, so that what holds of the symbols looked for holds of all. -/
theorem Symbol.mem_longestFirst (op : Symbol) : op ∈ Symbol.longestFirst := by
  cases op <;> decide

theorem Symbol.find_text (op : Symbol) :
    Symbol.longestFirst.find? (fun t => (t.text : Bytes).isPrefixOf (op.text : Bytes)) = some op := by
  have h : ∀ op ∈ Symbol.longestFirst, Symbol.longestFirst.find?
      (fun t => (t.text : Bytes).isPrefixOf (op.text : Bytes)) = some op := by decide
  exact h op op.mem_longestFirst

theorem Symbol.isPrefixOf_of_clear {op t : Symbol} {k : Bytes} (ht : t ∈ Symbol.longestFirst)
    (h : op.clear (front k) = true) :
    (t.text : Bytes).isPrefixOf ((op.text : Bytes) ++ k)
      = (t.text : Bytes).isPrefixOf (op.text : Bytes) := by
  rw [Bool.eq_iff_iff, List.isPrefixOf_iff_prefix, List.isPrefixOf_iff_prefix]
  constructor
  · intro hp
    by_cases hle : (t.text : Bytes).length ≤ (op.text : Bytes).length
    · exact List.prefix_of_prefix_length_le hp (List.prefix_append _ _) hle
    · -- A longer symbol would start with this one and the next byte.
      exfalso
      cases k with
      | nil =>
        have := hp.length_le
        simp only [List.append_nil] at this
        omega
      | cons b k =>
        have hlong : (op.text : Bytes) ++ [b] <+: (t.text : Bytes) := by
          refine List.prefix_of_prefix_length_le ⟨k, ?_⟩ hp ?_
          · simp
          · simp only [List.length_append, List.length_singleton]
            omega
        have hclear := List.all_eq_true.mp h t ht
        rw [Bool.not_eq_true', ← Bool.not_eq_true, List.isPrefixOf_iff_prefix] at hclear
        exact hclear hlong
  · intro hp
    exact hp.trans (List.prefix_append _ _)

theorem scan_eq_symbol (op : Symbol) {k : Bytes}
    (hdigit : op = .dot → Bytes.isDigit (front k) = false) :
    scan 0 ((op.text : Bytes) ++ k) = scanSymbol 0 ((op.text : Bytes) ++ k) := by
  by_cases hdot : op = .dot
  · subst hdot
    have hk := hdigit rfl
    have hfront : front ((('.' : UInt8) :: k).tail) = front k := rfl
    have htext : ((Symbol.dot.text : Bytes) ++ k) = ('.' : UInt8) :: k := rfl
    have hstart : (isNameStart ('.' : UInt8) || decide (0x80 ≤ ('.' : UInt8))) = false := by decide
    have hnumber : (Bytes.isDigit ('.' : UInt8) || (decide True && Bytes.isDigit (front k)))
        = false := by
      rw [hk]
      decide
    have hquotes : (decide (('.' : UInt8) = '"') || decide (('.' : UInt8) = '\'')) = false := by
      decide
    have hfence : (('.' : UInt8) = 0x60) = False := by decide
    rw [htext]
    simp only [scan, show front (('.' : UInt8) :: k) = '.' from rfl, hfront, hstart, hnumber,
      hquotes, hfence, Bool.false_eq_true, if_false]
  · cases op <;> first | exact absurd rfl hdot | rfl

/-- A symbol stands before every text with which it makes no longer symbol. -/
theorem Symbol.before (op : Symbol) {k : Bytes} (hclear : op.clear (front k) = true)
    (hdigit : op = .dot → Bytes.isDigit (front k) = false) : (Form.symbol op).Before k := by
  have hscan : scanSymbol 0 ((op.text : Bytes) ++ k)
      = ⟨.symbol op, (op.text : Bytes).length, []⟩ := by
    have hfind : Symbol.longestFirst.find?
        (fun t => (t.text : Bytes).isPrefixOf ((op.text : Bytes) ++ k)) = some op := by
      rw [← op.find_text]
      exact List.find?_congr fun t ht => Symbol.isPrefixOf_of_clear ht hclear
    rw [scanSymbol, hfind]
  refine ⟨List.ne_nil_of_length_pos op.text_length, ?_, ?_⟩
  · cases op <;> decide
  · exact (scan_eq_symbol op hdigit).trans hscan

/-- A symbol stands before white space. -/
theorem Symbol.before_space (op : Symbol) (k : Bytes) : (Form.symbol op).Before (' ' :: k) := by
  have hclear : ∀ op ∈ Symbol.longestFirst, op.clear ' ' = true := by decide
  exact op.before (hclear op op.mem_longestFirst) fun _ => rfl

/-- Brackets, commas and doubled signs stand before every text. -/
theorem Symbol.before_any {op : Symbol} (h : op ∈ [Symbol.leftParen, .rightParen, .leftBracket,
    .rightBracket, .comma, .semicolon, .tilde, .plusPlus, .minusMinus]) (k : Bytes) :
    (Form.symbol op).Before k := by
  refine op.before ?_ ?_
  · simp only [List.mem_cons, List.not_mem_nil, or_false] at h
    rcases h with rfl | rfl | rfl | rfl | rfl | rfl | rfl | rfl | rfl <;> rfl
  · rintro rfl
    simp at h

/-- A sign stands before every text that starts with neither the sign nor an equals sign. -/
theorem Symbol.before_sign {op : Symbol} (sign : UInt8) {k : Bytes}
    (h : op = .minus ∧ sign = '-' ∨ op = .plus ∧ sign = '+') (hsign : front k ≠ sign)
    (hequal : front k ≠ '=') : (Form.symbol op).Before k := by
  rcases h with ⟨rfl, rfl⟩ | ⟨rfl, rfl⟩
  · have hlonger : Symbol.minus.longer = ['-', '='] := rfl
    have hclear : Symbol.minus.clear (front k) = true :=
      Symbol.clear_of_not_mem (by simp [hlonger, hsign, hequal])
    exact Symbol.minus.before hclear nofun
  · have hlonger : Symbol.plus.longer = ['+', '='] := rfl
    have hclear : Symbol.plus.clear (front k) = true :=
      Symbol.clear_of_not_mem (by simp [hlonger, hsign, hequal])
    exact Symbol.plus.before hclear nofun

theorem Symbol.before_bang {k : Bytes} (hequal : front k ≠ '=') :
    (Form.symbol .bang).Before k := by
  have hlonger : Symbol.bang.longer = ['=', '='] := rfl
  have hclear : Symbol.bang.clear (front k) = true :=
    Symbol.clear_of_not_mem (by simp [hlonger, hequal])
  exact Symbol.bang.before hclear nofun

theorem Keyword.before (w : Keyword) {k : Bytes} (hk : EndsWord k) :
    (Form.of (.keyword w)).Before k := by
  have hnil : (Form.of (.keyword w)).Before [] := by
    refine ⟨?_, ?_, ?_⟩
    · cases w <;> decide
    · cases w <;> decide
    · have hscan : ∀ w ∈ Keyword.all, scan 0 (w.text : Bytes)
          = ⟨.keyword w, (w.text : Bytes).length, []⟩ := by decide
      rw [List.append_nil]
      exact hscan w (by cases w <;> decide)
  exact hnil.word (.inr ⟨w, rfl⟩) hk

theorem Form.word_kind (n : Bytes) :
    (Form.word n).kind = .identifier ∨ ∃ w, (Form.word n).kind = .keyword w := by
  unfold Form.word
  cases Keyword.ofBytes? n with
  | none => exact .inl rfl
  | some w => exact .inr ⟨w, rfl⟩

end Storyline.Script
