import Mathlib.Data.List.Basic
import Storyline.Proofs.Script.Printing

/-!
# The tokens of a printed tree

The text of a tree is read as the tokens of the tree, unless two tokens that the printer puts side
by side grow together.  That happens in two ways: a sign whose operand starts with the same sign,
and a property of a number that ends in a point.  `Expr.Separable` excludes both, in a tree and in
all substitutions of its templates.

Where tokens do grow together, the tokens read are not those of the tree (`Diverges`), and no
spelling of the tree starts like that.
-/

namespace Storyline.Script

/-! ## Separable trees -/

namespace Expr

/-- Whether a sign grows together with the first sign of its operand. -/
def sticks : TokenKind → Expr → Bool
  | .symbol .minus, unary _ op _ => op = .symbol .minus || op = .symbol .minusMinus
  | .symbol .plus, unary _ op _ => op = .symbol .plus || op = .symbol .plusPlus
  | _, _ => false

/-- Whether a tree is a number that ends in a point. -/
def endsInPoint : Expr → Bool
  | literal _ .number raw _ => raw.getLast? = some ('.' : UInt8)
  | _ => false

mutual

/-- Whether the tokens of a tree stay apart when it is printed; a template is a single token. -/
@[simp] def apart : Expr → Bool
  | literal .. | identifier .. | template .. | missing => true
  | binary _ _ l r => l.apart && r.apart
  | unary _ op x => !sticks op x && x.apart
  | trailing _ _ x | group _ x => x.apart
  | member _ b _ _ => !b.endsInPoint && b.apart
  | index _ b i => b.apart && i.apart
  | call _ c args | construct _ c args _ => c.apart && apartAll args
  | array _ xs => apartAll xs
  | ternary _ c a b => c.apart && a.apart && b.apart

/-- Whether the tokens of each of some trees stay apart. -/
@[simp] def apartAll : List Expr → Bool
  | [] => true
  | x :: xs => x.apart && apartAll xs

end

mutual

/-- Whether the tokens of all substitutions of a tree's templates stay apart, at any depth. -/
def apartInside : Expr → Bool
  | literal .. | identifier .. | missing => true
  | binary _ _ l r => l.apartInside && r.apartInside
  | unary _ _ x | trailing _ _ x | group _ x => x.apartInside
  | member _ b _ _ => b.apartInside
  | index _ b i => b.apartInside && i.apartInside
  | call _ c args | construct _ c args _ => c.apartInside && apartInsideAll args
  | array _ xs => apartInsideAll xs
  | ternary _ c a b => c.apartInside && a.apartInside && b.apartInside
  | template _ parts _ => apartInsideParts parts

/-- Whether the tokens of all substitutions in some trees stay apart. -/
def apartInsideAll : List Expr → Bool
  | [] => true
  | x :: xs => x.apartInside && apartInsideAll xs

/-- Whether the tokens of substitutions, and of all substitutions in them, stay apart. -/
def apartInsideParts : List (Bytes × Expr) → Bool
  | [] => true
  | (_, x) :: rest => x.apart && x.apartInside && apartInsideParts rest

end

/-- Whether no two tokens of a tree or of a substitution in it grow together when printed. -/
def Separable (e : Expr) : Prop := e.apart = true ∧ e.apartInside = true

instance (e : Expr) : Decidable e.Separable :=
  inferInstanceAs (Decidable (e.apart = true ∧ e.apartInside = true))

end Expr

/-! ## Reading printed tokens -/

/-- Whether a text before another is read as some tokens without a fault. -/
structure LexesAs (u : Bytes) (fs : List Form) (k : Bytes) : Prop where
  forms : formsOf (u ++ k) = fs ++ formsOf k
  faultless : Faultless (u ++ k) ↔ Faultless k

/-- Whether a text is read as other tokens than expected, from some place on: there stands a token
that is neither a separator nor a template, in place of another such. -/
def Diverges (s : Bytes) (fs : List Form) : Prop :=
  ∃ same f g rest rest', fs = same ++ f :: rest ∧ formsOf s = same ++ g :: rest'
    ∧ f.blank ≠ g.blank ∧ f.Stays ∧ g.Stays

/-- A text before another is read as the expected tokens if a condition holds, and as others if it
does not. -/
def ReadBack (p : Prop) (u : Bytes) (fs : List Form) (k : Bytes) : Prop :=
  p ∧ LexesAs u fs k ∨ ¬ p ∧ Diverges (u ++ k) fs

namespace ReadBack

variable {p q : Prop} {u v k : Bytes} {fs gs : List Form}

theorem congr (h : ReadBack p u fs k) (hpq : p ↔ q) : ReadBack q u fs k := by
  rwa [← propext hpq]

theorem nil (k : Bytes) : ReadBack True [] [] k := .inl ⟨trivial, rfl, Iff.rfl⟩

theorem token {f : Form} (h : f.Before k) : ReadBack True f.text [f] k :=
  .inl ⟨trivial, h.formsOf, h.faultless⟩

theorem space (h : ReadBack p u fs k) : ReadBack p (blank ++ u) fs k := by
  have hforms : formsOf (blank ++ u ++ k) = formsOf (u ++ k) := formsOf_space rfl _
  have hfaultless : Faultless (blank ++ u ++ k) ↔ Faultless (u ++ k) := faultless_space rfl _
  rcases h with ⟨hp, hread⟩ | ⟨hp, hdiverges⟩
  · exact .inl ⟨hp, hforms.trans hread.forms, hfaultless.trans hread.faultless⟩
  · refine .inr ⟨hp, ?_⟩
    unfold Diverges at hdiverges ⊢
    rwa [hforms]

/-- Texts side by side are read back if both are. -/
theorem append (hu : ReadBack p u fs (v ++ k)) (hv : ReadBack q v gs k) :
    ReadBack (p ∧ q) (u ++ v) (fs ++ gs) k := by
  unfold ReadBack
  rw [List.append_assoc]
  rcases hu with ⟨hp, hread⟩ | ⟨hp, hdiverges⟩
  · rcases hv with ⟨hq, hread'⟩ | ⟨hq, hdiverges⟩
    · refine .inl ⟨⟨hp, hq⟩, ?_, ?_⟩
      · rw [List.append_assoc, hread.forms, hread'.forms, List.append_assoc]
      · rw [List.append_assoc, hread.faultless, hread'.faultless]
    · refine .inr ⟨fun h => hq h.2, ?_⟩
      obtain ⟨same, f, g, rest, rest', rfl, hforms, hfg⟩ := hdiverges
      refine ⟨fs ++ same, f, g, rest, rest', by simp, ?_, hfg⟩
      rw [hread.forms, hforms, List.append_assoc]
  · refine .inr ⟨fun h => hp h.1, ?_⟩
    obtain ⟨same, f, g, rest, rest', rfl, hforms, hfg⟩ := hdiverges
    exact ⟨same, f, g, rest ++ gs, rest', by simp, hforms, hfg⟩

end ReadBack

/-! ## What a tree starts with -/

/-- Whether a byte is neither a sign nor an equals sign. -/
def Unsigned (b : UInt8) : Prop := b ≠ '-' ∧ b ≠ '+' ∧ b ≠ '='

theorem unsigned_of_isWordByte {b : UInt8} (h : isWordByte b = true) : Unsigned b := by
  refine ⟨?_, ?_, ?_⟩ <;> rintro rfl <;> exact absurd h (by decide)

theorem unsigned_word {f : Form} (h : f.Delivered)
    (hkind : f.kind = .identifier ∨ ∃ w, f.kind = .keyword w) :
    f.text ≠ [] ∧ Unsigned (front f.text) := by
  obtain ⟨k, hk⟩ := h
  refine ⟨hk.ne_nil, unsigned_of_isWordByte (hk.wordBytes hkind _ ?_)⟩
  cases htext : f.text with
  | nil => exact absurd htext hk.ne_nil
  | cons b s => exact List.mem_cons_self

theorem unsigned_number {f : Form} (h : f.Delivered) (hkind : f.kind = .number) :
    f.text ≠ [] ∧ Unsigned (front f.text) := by
  obtain ⟨k, hk⟩ := h
  refine ⟨hk.ne_nil, ?_⟩
  rcases (hk.numberText hkind).1 with hdigit | ⟨hpoint, _⟩
  · refine ⟨?_, ?_, ?_⟩ <;> intro hb <;> rw [hb] at hdigit <;> exact absurd hdigit (by decide)
  · rw [hpoint]
    unfold Unsigned
    decide

theorem unsigned_string {f : Form} (h : f.Delivered) (hkind : f.kind = .string) :
    f.text ≠ [] ∧ Unsigned (front f.text) := by
  obtain ⟨k, hk⟩ := h
  obtain ⟨quote, body, htext, hquote, _⟩ := hk.stringText hkind
  refine ⟨hk.ne_nil, ?_⟩
  rw [htext]
  show Unsigned quote
  unfold Unsigned
  rcases hquote with rfl | rfl <;> decide

theorem unsigned_append {u v : Bytes} (h : u ≠ [] ∧ Unsigned (front u)) :
    u ++ v ≠ [] ∧ Unsigned (front (u ++ v)) := by
  rw [front_append h.1]
  exact ⟨List.append_ne_nil_of_left_ne_nil h.1 v, h.2⟩

namespace Expr

/-- A tree without an operator before it starts with no sign. -/
-- By induction down the left side: an expression that binds as tightly as this starts with a word,
-- a number, a quote or a bracket, and no operator stands before it.
theorem unsigned_format : ∀ (e : Expr) {ts : List Form}, Spells ts e → e.Respects →
    (∀ f ∈ ts, f.Delivered) → trailingStrength ≤ e.strength →
    e.format ≠ [] ∧ Unsigned (front e.format)
  | .literal _ .number _ _, _, rfl, _, h, _ => unsigned_number (h _ (List.mem_singleton_self _)) rfl
  | .literal _ .string _ _, _, rfl, _, h, _ => unsigned_string (h _ (List.mem_singleton_self _)) rfl
  | .literal _ .bool raw _, _, rfl, _, h, _ | .literal _ .null raw _, _, rfl, _, h, _
  | .literal _ .undefined raw _, _, rfl, _, h, _ =>
    unsigned_word (h _ (List.mem_singleton_self _)) (Form.word_kind raw)
  | .identifier _ _, _, rfl, _, h, _ => unsigned_word (h _ (List.mem_singleton_self _)) (.inl rfl)
  | .trailing _ _ x, _, ⟨us, rfl, hus⟩, ⟨_, hstrength, hx⟩, h, _ => by
    rw [List.forall_mem_append] at h
    rw [format_trailing]
    exact unsigned_append (x.unsigned_format hus hx h.1 (by rw [hstrength]; decide))
  | .member _ b _ _, _, ⟨us, rfl, hus⟩, ⟨hstrength, _, hb⟩, h, _ => by
    rw [List.forall_mem_append] at h
    rw [format_member]
    exact unsigned_append (b.unsigned_format hus hb h.1 (by rw [hstrength]; decide))
  | .index _ b _, _, ⟨us, vs, rfl, hus, _⟩, ⟨hstrength, hb, _⟩, h, _ => by
    rw [List.append_assoc, List.forall_mem_append] at h
    rw [format_index]
    exact unsigned_append (b.unsigned_format hus hb h.1 (by rw [hstrength]; decide))
  | .call _ c _, _, ⟨us, vs, rfl, hus, _⟩, ⟨hstrength, _, hc, _⟩, h, _ => by
    rw [List.append_assoc, List.forall_mem_append] at h
    rw [format_call]
    exact unsigned_append (c.unsigned_format hus hc h.1 (by rw [hstrength]; decide))
  | .array .., _, _, _, _, _ => by
    rw [format_array]
    exact unsigned_append ⟨by decide, by unfold Unsigned; decide⟩
  | .construct .., _, _, _, _, _ => by
    rw [format_construct]
    exact unsigned_append ⟨by decide, by unfold Unsigned; decide⟩
  | .template .., _, _, _, _, _ => by
    rw [format_template]
    exact ⟨List.cons_ne_nil _ _, by show Unsigned 0x60; unfold Unsigned; decide⟩
  | .group .., _, _, _, _, _ => by
    rw [format_group]
    exact unsigned_append ⟨by decide, by unfold Unsigned; decide⟩
  -- the other kinds bind less tightly than was asked
  | .binary _ op _ _, _, _, ⟨⟨b, hb, _⟩, _⟩, _, hstrength => by
    have := (TokenKind.strength_lt hb).2
    simp only [strength, hb, Option.map_some, Option.getD_some] at hstrength
    unfold prefixStrength trailingStrength at *
    omega
  | .unary .., _, _, _, _, hstrength => absurd hstrength (by show ¬ (_ ≤ prefixStrength); decide)
  | .ternary .., _, _, _, _, hstrength => absurd hstrength (by show ¬ (_ ≤ assignmentStrength); decide)
  | .missing, _, h, _, _, _ => h.elim

end Expr

/-! ## Numbers and signs -/

/-- A number is read back unless it ends in a point and another point follows. -/
theorem readBack_number {raw k : Bytes} (h : (⟨.number, raw⟩ : Form).Delivered) (hk : EndsWord k)
    (hpoint : front k = '.' → startsFraction k = false) :
    ReadBack (¬ (front k = '.' ∧ raw.getLast? = some ('.' : UInt8))) raw [⟨.number, raw⟩] k := by
  obtain ⟨k₀, hbefore⟩ := h
  by_cases hboth : front k = '.' ∧ raw.getLast? = some ('.' : UInt8)
  -- the point would be read as part of the number
  · refine .inr ⟨fun hnot => hnot hboth, ?_⟩
    obtain ⟨hfront, hlast⟩ := hboth
    cases k with
    | nil => exact absurd hfront (by decide)
    | cons b k =>
      -- the number is read with the point behind it, so the first form is longer than it was
      obtain rfl : b = '.' := hfront
      have htext := hbefore.numberText rfl
      have hne : raw ≠ [] := hbefore.ne_nil
      have hstart : StartsNumber (raw ++ ('.' : UInt8) :: k) := by
        obtain ⟨whole, hraw, _⟩ := htext.of_point hlast
        rcases htext.1 with hd | ⟨hp, hd⟩
        · exact .inl (by rwa [front_append hne])
        · have htail : raw.tail ≠ [] := by
            intro hnil
            rw [hnil] at hd
            exact absurd hd (by decide)
          refine .inr ⟨by rwa [front_append hne], ?_⟩
          rwa [List.tail_append_of_ne_nil hne, front_append htail]
      have hscan := scan_eq_number 0 hstart
      rw [number_before_point htext hlast] at hscan
      have hforms := formsOf_token (s := raw ++ ('.' : UInt8) :: k) (by simp)
        (by rw [front_append hne]; exact hbefore.start)
      rw [hscan] at hforms
      refine ⟨[], ⟨.number, raw⟩, _, [], _, rfl, hforms, ?_, ⟨nofun, nofun⟩, ⟨nofun, nofun⟩⟩
      rw [Form.blank_of_ne (by simp), Form.blank_of_ne (by simp)]
      intro heq
      have hlength := congrArg (fun f : Form => f.text.length) heq
      have hpos := List.length_pos_of_ne_nil hne
      simp only [List.length_take, List.length_append, List.length_cons] at hlength
      omega
  · refine .inl ⟨hboth, ?_⟩
    -- nothing behind the number is read as part of it
    have hafter : AfterNumber raw k := by
      refine ⟨?_, hk.name, hk.wide, fun hp => ⟨hpoint hp, fun hlast => hboth ⟨hp, hlast⟩⟩⟩
      have hname := hk.name
      simp only [isNameStart, Bool.or_eq_false_iff] at hname
      simp [isAlphanumeric, hk.digit, hname.2]
    have hread := ReadBack.token (hbefore.number rfl hafter)
    rcases hread with ⟨_, hread⟩ | ⟨hnot, _⟩
    · exact hread
    · exact absurd trivial hnot

theorem prefixOperator_cases {op : TokenKind} (h : op.isPrefixOperator = true) :
    op = .symbol .bang ∨ op = .symbol .minus ∨ op = .symbol .plus ∨ op = .symbol .tilde
      ∨ op = .symbol .plusPlus ∨ op = .symbol .minusMinus
      ∨ op = .keyword .typeof ∨ op = .keyword .void := by
  unfold TokenKind.isPrefixOperator at h
  split at h <;> simp at h ⊢

/-- What the byte at the front of an operator before its operand says about the operator. -/
theorem prefixOperator_front {op : TokenKind} (h : op.isPrefixOperator = true) :
    (Form.of op).text ≠ [] ∧ front (Form.of op).text ≠ '='
      ∧ (front (Form.of op).text = '-' ↔ op = .symbol .minus ∨ op = .symbol .minusMinus)
      ∧ (front (Form.of op).text = '+' ↔ op = .symbol .plus ∨ op = .symbol .plusPlus) := by
  rcases prefixOperator_cases h with rfl | rfl | rfl | rfl | rfl | rfl | rfl | rfl <;>
    decide

namespace Expr

/-- What an operand starts with. -/
theorem front_operand (x : Expr) {ts : List Form} (hts : Spells ts x) (hx : x.Respects)
    (hdelivered : ∀ f ∈ ts, f.Delivered) (hstrength : prefixStrength ≤ x.strength) :
    x.format ≠ [] ∧ front x.format ≠ '='
      ∧ (front x.format = '-' ↔ sticks (.symbol .minus) x = true)
      ∧ (front x.format = '+' ↔ sticks (.symbol .plus) x = true) := by
  by_cases htight : trailingStrength ≤ x.strength
  · obtain ⟨hne, hminus, hplus, hequal⟩ := x.unsigned_format hts hx hdelivered htight
    refine ⟨hne, hequal, ?_, ?_⟩
    · refine ⟨fun h => absurd h hminus, fun h => ?_⟩
      cases x <;> first | cases h | exact absurd htight (by show ¬ (_ ≤ prefixStrength); decide)
    · refine ⟨fun h => absurd h hplus, fun h => ?_⟩
      cases x <;> first | cases h | exact absurd htight (by show ¬ (_ ≤ prefixStrength); decide)
  · cases x with
    | unary span op y =>
      obtain ⟨hne, hequal, hminus, hplus⟩ := prefixOperator_front hx.1
      rw [format_unary, front_append hne]
      refine ⟨List.append_ne_nil_of_left_ne_nil hne _, hequal, ?_, ?_⟩
      · rw [hminus]
        simp [sticks]
      · rw [hplus]
        simp [sticks]
    | binary span op l r =>
      obtain ⟨⟨b, hb, _⟩, _⟩ := hx
      have := (TokenKind.strength_lt hb).2
      simp only [strength, hb, Option.map_some, Option.getD_some] at hstrength
      omega
    | ternary => exact absurd hstrength (by show ¬ (_ ≤ assignmentStrength); decide)
    | missing => exact hts.elim
    | trailing => exact absurd (Nat.le_refl _) htight
    | _ => exact absurd (by show trailingStrength ≤ tightest; decide) htight

end Expr

/-! ## Trees -/

/-- The signs that can be doubled. -/
inductive Doubles : (op double : Symbol) → (sign : UInt8) → Prop
  | minus : Doubles .minus .minusMinus '-'
  | plus : Doubles .plus .plusPlus '+'

/-- Two signs that grow together are read as the doubled sign. -/
theorem Doubles.diverges {op double : Symbol} {sign : UInt8} (h : Doubles op double sign)
    {rest : Bytes} (hfront : front rest = sign) (fs : List Form) :
    Diverges ((Form.symbol op).text ++ rest) (.symbol op :: fs) := by
  obtain ⟨after, hafter⟩ :
      ∃ after, (Form.symbol op).text ++ rest = (Form.symbol double).text ++ after := by
    cases rest with
    | nil => cases h <;> exact absurd hfront (by decide)
    | cons b rest =>
      obtain rfl : b = sign := hfront
      exact ⟨rest, by cases h <;> rfl⟩
  have hbefore : (Form.symbol double).Before after := by
    refine Symbol.before_any ?_ after
    cases h <;> decide
  refine ⟨[], .symbol op, .symbol double, fs, formsOf after, rfl, ?_, ?_⟩
  · rw [hafter, hbefore.formsOf]
    rfl
  · cases h <;> exact ⟨by decide, ⟨nofun, nofun⟩, ⟨nofun, nofun⟩⟩

theorem Doubles.before {op double : Symbol} {sign : UInt8} (h : Doubles op double sign)
    {k : Bytes} (hsign : front k ≠ sign) (hequal : front k ≠ '=') : (Form.symbol op).Before k := by
  cases h with
  | minus => exact Symbol.before_sign '-' (.inl ⟨rfl, rfl⟩) hsign hequal
  | plus => exact Symbol.before_sign '+' (.inr ⟨rfl, rfl⟩) hsign hequal

namespace Expr

section

variable {x : Expr} {k : Bytes} {p : Prop} (span : Span)

theorem readBack_symbol (hx : ReadBack p x.format x.forms k) {op : Symbol}
    (hsticks : sticks (.symbol op) x = false) (hbefore : (Form.symbol op).Before (x.format ++ k)) :
    ReadBack (sticks (.symbol op) x = false ∧ p) (unary span (.symbol op) x).format
      (unary span (.symbol op) x).forms k := by
  rw [format_unary, forms]
  exact ((ReadBack.token hbefore).append hx).congr (by simp [hsticks])

theorem readBack_keyword (hx : ReadBack p x.format x.forms k) {w : Keyword}
    (hgap : signGap (.keyword w) = blank) :
    ReadBack (sticks (.keyword w) x = false ∧ p) (unary span (.keyword w) x).format
      (unary span (.keyword w) x).forms k := by
  have hbefore : (Form.of (.keyword w)).Before (blank ++ x.format ++ k) :=
    w.before (EndsWord.cons _ (by decide))
  rw [format_unary, forms, hgap]
  exact ((ReadBack.token hbefore).append hx.space).congr (by simp [sticks])

/-- A sign is read back unless its operand starts with the same sign. -/
theorem readBack_doubled (hx : ReadBack p x.format x.forms k) {op double : Symbol} {sign : UInt8}
    (h : Doubles op double sign) (hfront : front (x.format ++ k) = sign ↔ sticks (.symbol op) x = true)
    (hequal : front (x.format ++ k) ≠ '=') :
    ReadBack (sticks (.symbol op) x = false ∧ p) (unary span (.symbol op) x).format
      (unary span (.symbol op) x).forms k := by
  by_cases hsticks : sticks (.symbol op) x = true
  · refine .inr ⟨fun hboth => absurd hboth.1 (by simp [hsticks]), ?_⟩
    rw [format_unary, forms, List.append_assoc]
    exact h.diverges (hfront.mpr hsticks) x.forms
  · refine readBack_symbol span hx (by simpa using hsticks) (h.before ?_ hequal)
    exact fun hsign => hsticks (hfront.mp hsign)

theorem readBack_unary {ts : List Form} (hts : Spells ts x) (hrespects : x.Respects)
    (hdelivered : ∀ f ∈ ts, f.Delivered) (hstrength : prefixStrength ≤ x.strength)
    (hx : ReadBack p x.format x.forms k) {op : TokenKind} (hop : op.isPrefixOperator = true) :
    ReadBack (sticks op x = false ∧ p) (unary span op x).format (unary span op x).forms k := by
  obtain ⟨hne, hequal, hminus, hplus⟩ := x.front_operand hts hrespects hdelivered hstrength
  rw [← front_append hne k] at hequal hminus hplus
  rcases prefixOperator_cases hop with rfl | rfl | rfl | rfl | rfl | rfl | rfl | rfl
  · exact readBack_symbol span hx rfl (Symbol.before_bang hequal)
  · exact readBack_doubled span hx .minus hminus hequal
  · exact readBack_doubled span hx .plus hplus hequal
  · exact readBack_symbol span hx rfl (Symbol.before_any (by decide) _)
  · exact readBack_symbol span hx rfl (Symbol.before_any (by decide) _)
  · exact readBack_symbol span hx rfl (Symbol.before_any (by decide) _)
  · exact readBack_keyword span hx rfl
  · exact readBack_keyword span hx rfl

end

end Expr

/-- Whether a text may follow a printed tree: it does not go on with a word, and with a point only
if that is the point of a property of the tree. -/
structure Fits (e : Expr) (k : Bytes) : Prop where
  ends : EndsWord k
  point : front k = '.' →
    startsFraction k = false ∧ e.strength = Expr.tightest ∧ e.isOpenNew = false

theorem Fits.of_ne {k : Bytes} (h : EndsWord k) (hk : front k ≠ '.') (e : Expr) : Fits e k :=
  ⟨h, fun hp => absurd hp hk⟩

theorem Fits.loose {e : Expr} {k : Bytes} (h : Fits e k)
    (he : e.strength = Expr.tightest → e.isOpenNew = true) : front k ≠ '.' := by
  intro hp
  obtain ⟨_, hstrength, hopen⟩ := h.point hp
  rw [he hstrength] at hopen
  cases hopen

/-- A tree before a text that does not go on with a point. -/
theorem ReadBack.simple {e : Expr} {u k : Bytes} {fs : List Form}
    (h : ReadBack (e.apart = true ∧ ¬ (front k = '.' ∧ e.endsInPoint = true)) u fs k)
    (hk : front k ≠ '.') : ReadBack (e.apart = true) u fs k :=
  h.congr (by simp [hk])

/-- A tree that is no number. -/
theorem ReadBack.whole {e : Expr} {p : Prop} {u k : Bytes} {fs : List Form}
    (h : ReadBack p u fs k) (hpoint : e.endsInPoint = false) (hp : p ↔ e.apart = true) :
    ReadBack (e.apart = true ∧ ¬ (front k = '.' ∧ e.endsInPoint = true)) u fs k :=
  h.congr (by simp [hp, hpoint])

theorem bracket_readBack {op : Symbol} (h : op ∈ [Symbol.leftParen, .rightParen, .leftBracket,
    .rightBracket, .comma, .semicolon, .tilde, .plusPlus, .minusMinus]) (k : Bytes) :
    ReadBack True (Form.symbol op).text [.symbol op] k :=
  .token (Symbol.before_any h k)

theorem operator_before_space {op : TokenKind} {b : Binding} (h : op.binding? = some b)
    (k : Bytes) : (Form.of op).Before (blank ++ k) := by
  cases op with
  | symbol s => exact s.before_space k
  | keyword w => exact w.before (EndsWord.cons k (by decide))
  | _ => cases h

/-- A word that was read starts with a byte that starts a word. -/
theorem word_front {f : Form} (h : f.Delivered)
    (hkind : f.kind = .identifier ∨ ∃ w, f.kind = .keyword w) :
    f.text ≠ [] ∧ (isNameStart (front f.text) = true ∨ 0x80 ≤ front f.text) := by
  obtain ⟨k, hk⟩ := h
  obtain ⟨hfront, _⟩ := (scan_kind 0 (f.text ++ k)).1 (by rwa [hk.scan])
  rw [front_append hk.ne_nil] at hfront
  exact ⟨hk.ne_nil, hfront⟩

/-- What may start a word starts neither a number nor a point. -/
theorem wordStart_spec {b : UInt8} (h : isNameStart b = true ∨ 0x80 ≤ b) :
    Bytes.isDigit b = false ∧ b ≠ '.' ∧ Symbol.clear .dot b = true
      ∧ (isNameStart b = true ∨ ¬ b < 0x80) := by
  have hdigit : Bytes.isDigit b = false := by
    rw [← Bool.not_eq_true]
    intro hdigit
    obtain ⟨hname, hwide⟩ := isNameStart_of_isDigit hdigit
    exact h.elim (by simp [hname]) hwide
  have hpoint : b ≠ '.' := by
    rintro rfl
    exact absurd h (by decide)
  have hlonger : Symbol.dot.longer = ['.'] := rfl
  exact ⟨hdigit, hpoint, Symbol.clear_of_not_mem (by simp [hlonger, hpoint]),
    h.imp_right UInt8.not_lt.mpr⟩

/-- A property by name is read back, and its point is no part of a number before it. -/
theorem property_readBack {n k : Bytes} (h : (Form.word n).Delivered) (hk : EndsWord k) :
    ReadBack True ((Form.symbol .dot).text ++ (Form.word n).text) [.symbol .dot, .word n] k
      ∧ startsFraction ((Form.symbol .dot).text ++ (Form.word n).text ++ k) = false := by
  obtain ⟨hne, hstart⟩ := word_front h (Form.word_kind n)
  obtain ⟨hdigit, hpoint, hclear, hname⟩ := wordStart_spec hstart
  have hfront : front ((Form.word n).text ++ k) = front (Form.word n).text := front_append hne k
  rw [← hfront] at hdigit hpoint hclear hname
  obtain ⟨k₀, hbefore⟩ := h
  constructor
  · have hdot : (Form.symbol .dot).Before ((Form.word n).text ++ k) :=
      Symbol.dot.before hclear fun _ => hdigit
    have hword := hbefore.word (Form.word_kind n) hk
    exact ((ReadBack.token hdot).append (ReadBack.token hword)).congr (by simp)
  · show startsFraction (('.' : UInt8) :: ((Form.word n).text ++ k)) = false
    rcases hname with hname | hname <;> simp [-Form.word_text, startsFraction, hdigit, hname]

namespace Expr

/-! ## Reading back each kind of tree -/

/-- Whether the text of a tree is read as its tokens, unless two of them grow together, before every
text that may follow it. -/
def ReadsBack (e : Expr) : Prop := ∀ k, Fits e k →
  ReadBack (e.apart = true ∧ ¬ (front k = '.' ∧ e.endsInPoint = true)) e.format e.forms k

/-- Whether the text of a list of trees is read as its tokens, unless two of them grow together. -/
def ReadsBackAll (xs : List Expr) : Prop := ∀ k, EndsWord k → front k ≠ '.' →
  ReadBack (apartAll xs = true) (formatList xs) (formsList xs) k

section

variable {e l r x b i c y n : Expr} {args xs : List Expr} {k : Bytes} {byte : UInt8}

/-- A tree before a text that goes on with neither a word nor a point. -/
theorem ReadsBack.loosely (h : e.ReadsBack) (hk : EndsWord k) (hpoint : front k ≠ '.') :
    ReadBack (e.apart = true) e.format e.forms k :=
  (h k (Fits.of_ne hk hpoint e)).simple hpoint

/-- A tree before a byte that is part of neither a word nor a number. -/
theorem ReadsBack.before (h : e.ReadsBack)
    (hb : (!isNameStart byte && !Bytes.isDigit byte && decide (byte < 0x80) && byte != '.') = true)
    (k : Bytes) : ReadBack (e.apart = true) e.format e.forms (byte :: k) := by
  rw [Bool.and_eq_true, bne_iff_ne] at hb
  exact h.loosely (EndsWord.cons k hb.1) hb.2

theorem ReadsBackAll.before (h : ReadsBackAll xs)
    (hb : (!isNameStart byte && !Bytes.isDigit byte && decide (byte < 0x80) && byte != '.') = true)
    (k : Bytes) : ReadBack (apartAll xs = true) (formatList xs) (formsList xs) (byte :: k) := by
  rw [Bool.and_eq_true, bne_iff_ne] at hb
  exact h _ (EndsWord.cons k hb.1) hb.2

theorem ReadsBack.number {span : Span} {raw value : Bytes}
    (h : (Form.mk .number raw).Delivered) : (literal span .number raw value).ReadsBack := by
  intro k hk
  have hread := readBack_number h hk.ends fun hp => (hk.point hp).1
  exact hread.congr (by simp [endsInPoint])

theorem ReadsBack.string {span : Span} {raw value : Bytes}
    (h : (Form.mk .string raw).Delivered) : (literal span .string raw value).ReadsBack := by
  intro k _
  obtain ⟨k₀, hbefore⟩ := h
  exact (ReadBack.token (hbefore.string rfl k)).whole rfl (by simp)

/-- A literal that is a word. -/
theorem ReadsBack.wordLiteral {span : Span} {kind : LiteralKind} {raw value : Bytes}
    (hforms : (literal span kind raw value).forms = [.word raw])
    (hpoint : (literal span kind raw value).endsInPoint = false) (h : (Form.word raw).Delivered) :
    (literal span kind raw value).ReadsBack := by
  intro k hk
  obtain ⟨k₀, hbefore⟩ := h
  have hword := hbefore.word (Form.word_kind raw) hk.ends
  rw [hforms]
  exact (ReadBack.token hword).whole hpoint (by simp)

theorem ReadsBack.identifier {span : Span} {name : Bytes}
    (h : (Form.mk .identifier name).Delivered) : (identifier span name).ReadsBack := by
  intro k hk
  obtain ⟨k₀, hbefore⟩ := h
  exact (ReadBack.token (hbefore.word (.inl rfl) hk.ends)).whole rfl (by simp)

theorem ReadsBack.binary {span : Span} {op : TokenKind} {binding : Binding} (hl : l.ReadsBack)
    (hr : r.ReadsBack) (hop : op.binding? = some binding) : (binary span op l r).ReadsBack := by
  intro k hk
  have hloose : front k ≠ '.' := by
    refine hk.loose fun hs => ?_
    have := (TokenKind.strength_lt hop).2
    simp only [strength, hop, Option.map_some, Option.getD_some] at hs
    unfold prefixStrength tightest at *
    omega
  have hright := hr.loosely hk.ends hloose
  have htoken : ReadBack True (Form.of op).text [.of op] (blank ++ r.format ++ k) :=
    .token (operator_before_space hop _)
  have hleft : ReadBack (l.apart = true) l.format l.forms
      (blank ++ ((Form.of op).text ++ (blank ++ r.format)) ++ k) := hl.before (by decide) _
  rw [format_binary, forms]
  exact (hleft.append (htoken.append hright.space).space).whole rfl (by simp)

/-- A doubled sign behind a tree. -/
theorem ReadsBack.trailing {span : Span} {op : TokenKind} (hx : x.ReadsBack)
    (hop : op = .symbol .plusPlus ∨ op = .symbol .minusMinus) :
    (trailing span op x).ReadsBack := by
  intro k _
  rw [format_trailing, forms]
  rcases hop with rfl | rfl
  · have hoperand : ReadBack (x.apart = true) x.format x.forms
        ((Form.symbol .plusPlus).text ++ k) := hx.before (by decide) _
    exact (hoperand.append (bracket_readBack (by decide) k)).whole rfl (by simp)
  · have hoperand : ReadBack (x.apart = true) x.format x.forms
        ((Form.symbol .minusMinus).text ++ k) := hx.before (by decide) _
    exact (hoperand.append (bracket_readBack (by decide) k)).whole rfl (by simp)

/-- A property by name: a number before it may have to keep apart from its point. -/
theorem ReadsBack.member {span nameSpan : Span} {name : Bytes} (hb : b.ReadsBack)
    (hname : (Form.word name).Delivered) (hstrength : b.strength = tightest)
    (hopen : b.isOpenNew = false) : (member span b name nameSpan).ReadsBack := by
  intro k hk
  obtain ⟨hproperty, hfraction⟩ := property_readBack hname hk.ends
  have hpoint : front ((Form.symbol .dot).text ++ (Form.word name).text ++ k) = '.' := rfl
  have hbase := hb ((Form.symbol .dot).text ++ (Form.word name).text ++ k)
    ⟨EndsWord.cons _ (by decide), fun _ => ⟨hfraction, hstrength, hopen⟩⟩
  rw [hpoint] at hbase
  rw [format_member, forms]
  exact (hbase.append hproperty).whole rfl (by simp [and_comm])

theorem ReadsBack.index {span : Span} (hb : b.ReadsBack) (hi : i.ReadsBack) :
    (index span b i).ReadsBack := by
  intro k _
  have hindex : ReadBack (i.apart = true) i.format i.forms
      ((Form.symbol .rightBracket).text ++ k) := hi.before (by decide) _
  have hbase : ReadBack (b.apart = true) b.format b.forms ((Form.symbol .leftBracket).text
      ++ (i.format ++ (Form.symbol .rightBracket).text) ++ k) := hb.before (by decide) _
  rw [format_index, forms, List.append_assoc]
  exact (hbase.append ((bracket_readBack (by decide) _).append
    (hindex.append (bracket_readBack (by decide) k)))).whole rfl (by simp)

theorem ReadsBack.call {span : Span} (hc : c.ReadsBack) (hargs : ReadsBackAll args) :
    (call span c args).ReadsBack := by
  intro k _
  have hlist : ReadBack (apartAll args = true) (formatList args) (formsList args)
      ((Form.symbol .rightParen).text ++ k) := hargs.before (by decide) _
  have hcallee : ReadBack (c.apart = true) c.format c.forms (formatArgs args ++ k) :=
    hc.before (by decide) _
  rw [format_call, forms, List.append_assoc]
  exact (hcallee.append ((bracket_readBack (by decide) _).append
    (hlist.append (bracket_readBack (by decide) k)))).whole rfl (by simp)

theorem ReadsBack.array {span : Span} (hxs : ReadsBackAll xs) : (array span xs).ReadsBack := by
  intro k _
  have hlist : ReadBack (apartAll xs = true) (formatList xs) (formsList xs)
      ((Form.symbol .rightBracket).text ++ k) := hxs.before (by decide) _
  rw [format_array, forms]
  exact ((bracket_readBack (by decide) _).append
    (hlist.append (bracket_readBack (by decide) k))).whole rfl (by simp)

theorem ReadsBack.construct {span : Span} (hc : c.ReadsBack) (hargs : ReadsBackAll args) :
    (construct span c args true).ReadsBack := by
  intro k _
  have hlist : ReadBack (apartAll args = true) (formatList args) (formsList args)
      ((Form.symbol .rightParen).text ++ k) := hargs.before (by decide) _
  have hcallee : ReadBack (c.apart = true) c.format c.forms (formatArgs args ++ k) :=
    hc.before (by decide) _
  have hnew : ReadBack True (Form.of (.keyword .new)).text [.of (.keyword .new)]
      (blank ++ (c.format ++ formatArgs args) ++ k) :=
    .token (Keyword.new.before (EndsWord.cons _ (by decide)))
  rw [format_construct, forms]
  exact (hnew.append (hcallee.append ((bracket_readBack (by decide) _).append
    (hlist.append (bracket_readBack (by decide) k)))).space).whole rfl (by simp)

/-- A construction without an argument list. -/
theorem ReadsBack.openNew {span : Span} (hc : c.ReadsBack) :
    (Expr.construct span c [] false).ReadsBack := by
  intro k hk
  have hloose : front k ≠ '.' := hk.loose fun _ => rfl
  have hcallee := hc.loosely hk.ends hloose
  have hnew : ReadBack True (Form.of (.keyword .new)).text [.of (.keyword .new)]
      (blank ++ c.format ++ k) := .token (Keyword.new.before (EndsWord.cons _ (by decide)))
  have hboth := (hnew.append hcallee.space).whole (e := .construct span c [] false) rfl
    (by simp)
  simpa [format_construct, forms] using hboth

theorem ReadsBack.ternary {span : Span} (hc : c.ReadsBack) (hy : y.ReadsBack)
    (hn : n.ReadsBack) : (ternary span c y n).ReadsBack := by
  intro k hk
  have hloose : front k ≠ '.' :=
    hk.loose fun hs => absurd hs (by show assignmentStrength ≠ tightest; decide)
  have hno := hn.loosely hk.ends hloose
  have hcolon : ReadBack True (Form.symbol .colon).text [.symbol .colon]
      (blank ++ n.format ++ k) := .token (Symbol.colon.before_space _)
  have hyes : ReadBack (y.apart = true) y.format y.forms
      (blank ++ ((Form.symbol .colon).text ++ (blank ++ n.format)) ++ k) := hy.before (by decide) _
  have hquestion : ReadBack True (Form.symbol .question).text [.symbol .question]
      (blank ++ (y.format ++ (blank ++ ((Form.symbol .colon).text ++ (blank ++ n.format)))) ++ k) :=
    .token (Symbol.question.before_space _)
  have hcond : ReadBack (c.apart = true) c.format c.forms (blank ++ ((Form.symbol .question).text
      ++ (blank ++ (y.format ++ (blank ++ ((Form.symbol .colon).text ++ (blank ++ n.format))))))
      ++ k) := hc.before (by decide) _
  rw [format_ternary, forms, List.append_assoc]
  exact (hcond.append (hquestion.append (hyes.append
    (hcolon.append hno.space).space).space).space).whole rfl (by simp [and_assoc])

theorem ReadsBack.group {span : Span} (hx : x.ReadsBack) : (group span x).ReadsBack := by
  intro k _
  have hinner : ReadBack (x.apart = true) x.format x.forms
      ((Form.symbol .rightParen).text ++ k) := hx.before (by decide) _
  rw [format_group, forms]
  exact ((bracket_readBack (by decide) _).append
    (hinner.append (bracket_readBack (by decide) k))).whole rfl (by simp)

theorem ReadsBackAll.nil : ReadsBackAll [] := fun k _ _ =>
  (ReadBack.nil k).congr (by simp)

theorem ReadsBackAll.singleton (hx : x.ReadsBack) : ReadsBackAll [x] := fun _ hk hpoint =>
  (hx.loosely hk hpoint).congr (by simp)

theorem ReadsBackAll.cons (hx : x.ReadsBack) (hxs : ReadsBackAll (y :: xs)) :
    ReadsBackAll (x :: y :: xs) := by
  intro k hk hpoint
  have hfirst : ReadBack (x.apart = true) x.format x.forms
      ((Form.symbol .comma).text ++ (blank ++ formatList (y :: xs)) ++ k) := hx.before (by decide) _
  rw [formatList_cons, formsList]
  exact (hfirst.append ((bracket_readBack (by decide) _).append (hxs k hk hpoint).space)).congr
    (by simp)

end

mutual

/-- The text of a tree is read as its tokens unless two of them grow together. -/
-- By induction on the expression, by the lemma on each kind of node.
theorem readsBack : ∀ (e : Expr) {ts : List Form}, Spells ts e → e.Respects →
    (∀ f ∈ ts, f.Delivered) → e.ReadsBack
  | .literal _ .number raw _, _, rfl, _, h => .number (h _ (List.mem_singleton_self _))
  | .literal _ .string raw _, _, rfl, _, h => .string (h _ (List.mem_singleton_self _))
  | .literal _ .bool raw _, _, rfl, _, h | .literal _ .null raw _, _, rfl, _, h
  | .literal _ .undefined raw _, _, rfl, _, h =>
    .wordLiteral rfl rfl (h _ (List.mem_singleton_self _))
  | .identifier _ n, _, rfl, _, h => .identifier (h _ (List.mem_singleton_self _))
  | .binary _ op l r, _, ⟨us, vs, rfl, hus, hvs⟩, ⟨⟨b, hb, _⟩, hl, hr⟩, h => by
    rw [List.forall_mem_append, List.forall_mem_cons] at h
    exact .binary (l.readsBack hus hl h.1) (r.readsBack hvs hr h.2.2) hb
  | .unary span op x, _, ⟨us, rfl, hus⟩, ⟨hop, hstrength, hx⟩, h => by
    rw [List.forall_mem_cons] at h
    intro k hk
    -- behind an operand with a sign no point can stand
    have hloose : front k ≠ '.' :=
      hk.loose fun hs => absurd hs (by show prefixStrength ≠ tightest; decide)
    have hoperand := (x.readsBack hus hx h.2).loosely hk.ends hloose
    exact (readBack_unary span hus hx h.2 hstrength hoperand hop).whole rfl (by simp)
  | .trailing _ op x, _, ⟨us, rfl, hus⟩, ⟨hop, _, hx⟩, h => by
    rw [List.forall_mem_append] at h
    exact .trailing (x.readsBack hus hx h.1) hop
  | .member _ b n _, _, ⟨us, rfl, hus⟩, ⟨hstrength, hopen, hb⟩, h => by
    rw [List.forall_mem_append] at h
    exact .member (b.readsBack hus hb h.1) (h.2 (.word n) (by simp)) hstrength hopen
  | .index _ b i, _, ⟨us, vs, rfl, hus, hvs⟩, ⟨_, hb, hi⟩, h => by
    simp only [List.append_assoc, List.cons_append, List.forall_mem_append,
      List.forall_mem_cons] at h
    exact .index (b.readsBack hus hb h.1) (i.readsBack hvs hi h.2.2.1)
  | .call _ c args, _, ⟨us, vs, rfl, hus, hvs⟩, ⟨_, _, hc, hargs⟩, h => by
    simp only [List.append_assoc, List.cons_append, List.forall_mem_append,
      List.forall_mem_cons] at h
    exact .call (c.readsBack hus hc h.1) (readsBackAll args hvs hargs h.2.2.1)
  | .array _ xs, _, ⟨us, rfl, hus⟩, hxs, h => by
    simp only [List.cons_append, List.forall_mem_append, List.forall_mem_cons] at h
    exact .array (readsBackAll xs hus hxs h.2.1)
  | .construct _ c args true, _, ⟨us, vs, rfl, hus, hvs⟩, ⟨_, _, _, hc, hargs⟩, h => by
    obtain ⟨ws, rfl, hws⟩ := hvs
    simp only [List.cons_append, List.forall_mem_append, List.forall_mem_cons] at h
    exact .construct (c.readsBack hus hc h.2.1) (readsBackAll args hws hargs h.2.2.2.1)
  | .construct span c args false, _, ⟨us, vs, rfl, hus, hvs⟩, ⟨_, _, hargs, hc, _⟩, h => by
    obtain rfl : vs = [] := hvs
    obtain rfl := hargs rfl
    simp only [List.append_nil, List.forall_mem_cons] at h
    exact .openNew (c.readsBack hus hc h.2)
  | .ternary _ c a b, _, ⟨us, vs, ws, rfl, hus, hvs, hws⟩, ⟨_, hc, ha, hb⟩, h => by
    simp only [List.append_assoc, List.cons_append, List.forall_mem_append,
      List.forall_mem_cons] at h
    exact .ternary (c.readsBack hus hc h.1) (a.readsBack hvs ha h.2.2.1)
      (b.readsBack hws hb h.2.2.2.2)
  | .template span parts tail, ts, hts, hparts, h => by
    obtain ⟨hbefore, _⟩ := template_reads hts hparts h
    exact fun k _ => (ReadBack.token (hbefore k)).whole rfl (by simp)
  | .group _ x, _, ⟨us, rfl, hus⟩, hx, h => by
    simp only [List.cons_append, List.forall_mem_append, List.forall_mem_cons] at h
    exact .group (x.readsBack hus hx h.2.1)

/-- The text of a list of trees is read as its tokens unless two of them grow together. -/
theorem readsBackAll : ∀ (xs : List Expr) {ts : List Form}, SpellsList ts xs →
    RespectsAll xs → (∀ f ∈ ts, f.Delivered) → ReadsBackAll xs
  | [], _, _, _, _ => .nil
  | [x], _, ⟨us, hus, hmore⟩, ⟨hx, _⟩, h => by
    have hsub : ∀ f ∈ us, f.Delivered := by
      rcases hmore with ⟨_, rfl⟩ | ⟨vs, rfl, _⟩
      · exact h
      · exact (List.forall_mem_append.mp h).1
    exact .singleton (x.readsBack hus hx hsub)
  | x :: y :: xs, _, ⟨us, hus, .inr ⟨vs, rfl, hvs⟩⟩, ⟨hx, hxs⟩, h => by
    rw [List.forall_mem_append, List.forall_mem_cons] at h
    exact .cons (x.readsBack hus hx h.1) (readsBackAll (y :: xs) hvs hxs h.2.2)

end

end Expr

end Storyline.Script
