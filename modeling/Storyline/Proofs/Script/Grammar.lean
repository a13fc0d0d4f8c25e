import Mathlib.Data.List.Basic
import Mathlib.Tactic.Common
import Storyline.Script.Expr.Printer
import Storyline.Script.Parser

/-!
# The grammar of scripts

What a script looks like on both sides of its parser.  On the side of the tokens, a `Form` is a
token without its place; on the side of the trees, `Expr.erase` forgets where a tree stands.

`Expr.Respects` states the precedence table as a property of trees, without reference to the
parser: how tightly the operands of each operator have to bind.  `Expr.forms` reads the tokens of
a tree from left to right.  `Spells ts e` says that the tokens `ts` spell the tree `e`; it is
coarser than `ts = e.forms` in two ways: a list may end in a comma, and the substitutions of a
template may be spaced in any way.
-/

namespace Storyline.Script

/-! ## Tokens without their places -/

/-- A token without its place. -/
structure Form where
  kind : TokenKind
  text : Bytes
deriving DecidableEq, Repr, Inhabited

/-- What a token is, wherever it stands. -/
def Token.form (t : Token) : Form := ⟨t.kind, t.text⟩

/-- The forms of tokens. -/
def formsIn (ls : List Lexeme) : List Form := ls.map fun l => l.token.form

@[simp] theorem formsIn_nil : formsIn [] = [] := rfl

@[simp] theorem formsIn_cons (l : Lexeme) (ls : List Lexeme) :
    formsIn (l :: ls) = l.token.form :: formsIn ls := rfl

@[simp] theorem formsIn_append (ls ms : List Lexeme) :
    formsIn (ls ++ ms) = formsIn ls ++ formsIn ms := by
  simp [formsIn]

@[simp] theorem formsIn_eq_nil {ls : List Lexeme} : formsIn ls = [] ↔ ls = [] := by
  simp [formsIn]

/-- The forms of the tokens of a text; the end of the script is left out. -/
def formsOf (s : Bytes) : List Form :=
  (formsIn (lexemes 0 0 s)).filter fun f => f.kind != .endOfScript

/-- Whether reading the tokens of a text reports nothing. -/
def Faultless (s : Bytes) : Prop := ∀ l ∈ lexemes 0 0 s, l.notices = []

namespace Form

/-- The form of a reserved word or symbol. -/
def of (k : TokenKind) : Form := ⟨k, k.name⟩

/-- The form of a word: a reserved word if it is spelled like one. -/
def word (name : Bytes) : Form :=
  ⟨match Keyword.ofBytes? name with
    | some k => .keyword k
    | none => .identifier, name⟩

/-- The form of a symbol. -/
def symbol (s : Symbol) : Form := of (.symbol s)

@[simp] theorem of_kind (k : TokenKind) : (of k).kind = k := rfl

@[simp] theorem symbol_kind (s : Symbol) : (symbol s).kind = .symbol s := rfl

/-- Whether a form closes a list. -/
def isCloser (f : Form) : Bool := f = symbol .rightParen || f = symbol .rightBracket

end Form

/-- Tokens without the semicolons between statements and the commas after last items. -/
def withoutSeparators : List Form → List Form
  | [] => []
  | f :: rest =>
    if f = .symbol .semicolon || (f = .symbol .comma && (rest.head?.any Form.isCloser)) then
      withoutSeparators rest
    else f :: withoutSeparators rest

/-- Whether operands bind tightly enough for an operator between them. -/
def Binding.Admits (b : Binding) (left right : Nat) : Prop :=
  if b.toTheRight then b.strength < left ∧ b.strength ≤ right
  else b.strength ≤ left ∧ b.strength < right

instance (b : Binding) (left right : Nat) : Decidable (b.Admits left right) :=
  inferInstanceAs (Decidable (if b.toTheRight then b.strength < left ∧ b.strength ≤ right
    else b.strength ≤ left ∧ b.strength < right))

namespace Expr

/-! ## Trees without their places -/

/-- The span of a tree that stands nowhere. -/
def nowhere : Span := ⟨0, 0, 0⟩

mutual

/-- A tree without the places of its nodes. -/
def erase : Expr → Expr
  | literal _ k raw v => literal nowhere k raw v
  | identifier _ n => identifier nowhere n
  | binary _ op l r => binary nowhere op l.erase r.erase
  | unary _ op x => unary nowhere op x.erase
  | trailing _ op x => trailing nowhere op x.erase
  | member _ b n _ => member nowhere b.erase n nowhere
  | index _ b i => index nowhere b.erase i.erase
  | call _ c args => call nowhere c.erase (eraseAll args)
  | array _ xs => array nowhere (eraseAll xs)
  | construct _ c args hasArgs => construct nowhere c.erase (eraseAll args) hasArgs
  | ternary _ c a b => ternary nowhere c.erase a.erase b.erase
  | template _ parts tail => template nowhere (eraseParts parts) tail
  | group _ x => group nowhere x.erase
  | missing => missing

/-- Trees without the places of their nodes. -/
def eraseAll : List Expr → List Expr
  | [] => []
  | x :: xs => x.erase :: eraseAll xs

/-- The parts of a template without the places of their nodes. -/
def eraseParts : List (Bytes × Expr) → List (Bytes × Expr)
  | [] => []
  | (text, x) :: rest => (text, x.erase) :: eraseParts rest

end

/-! ## Tokens of a tree -/

mutual

/-- The tokens of a tree from left to right.  A template is a single token. -/
def forms : Expr → List Form
  | literal _ .number raw _ => [⟨.number, raw⟩]
  | literal _ .string raw _ => [⟨.string, raw⟩]
  | literal _ .bool raw _ | literal _ .null raw _ | literal _ .undefined raw _ => [.word raw]
  | identifier _ n => [⟨.identifier, n⟩]
  | binary _ op l r => l.forms ++ .of op :: r.forms
  | unary _ op x => .of op :: x.forms
  | trailing _ op x => x.forms ++ [.of op]
  | member _ b n _ => b.forms ++ [.symbol .dot, .word n]
  | index _ b i => b.forms ++ .symbol .leftBracket :: i.forms ++ [.symbol .rightBracket]
  | call _ c args => c.forms ++ .symbol .leftParen :: formsList args ++ [.symbol .rightParen]
  | array _ xs => .symbol .leftBracket :: formsList xs ++ [.symbol .rightBracket]
  | construct _ c args hasArgs => .of (.keyword .new) :: c.forms
      ++ if hasArgs then .symbol .leftParen :: formsList args ++ [.symbol .rightParen] else []
  | ternary _ c a b => c.forms ++ .symbol .question :: a.forms ++ .symbol .colon :: b.forms
  | template _ parts tail => [⟨.template, [0x60] ++ formatParts parts ++ tail ++ [0x60]⟩]
  | group _ x => .symbol .leftParen :: x.forms ++ [.symbol .rightParen]
  | missing => []

/-- The tokens of trees with commas between them. -/
def formsList : List Expr → List Form
  | [] => []
  | [x] => x.forms
  | x :: y :: rest => x.forms ++ .symbol .comma :: formsList (y :: rest)

end

/-! ## The precedence table -/

/-- How tightly an operator before its operand binds. -/
def prefixStrength : Nat := 14

/-- How tightly an operator after its operand binds. -/
def trailingStrength : Nat := 15

/-- How tightly everything without an operator at its top binds. -/
def tightest : Nat := 16

/-- How tightly the operator at the top of a tree binds. -/
def strength : Expr → Nat
  | binary _ op _ _ => (op.binding?.map Binding.strength).getD 0
  | ternary .. => assignmentStrength
  | unary .. => prefixStrength
  | trailing .. => trailingStrength
  | missing => 0
  | _ => tightest

/-- Whether a tree is a construction without arguments, which a following argument list or
property would extend. -/
def isOpenNew : Expr → Bool
  | construct _ _ _ hasArgs => !hasArgs
  | _ => false

/-- Whether a tree is something in brackets, a word, a literal or a construction, with properties
by name behind it: what the word `new` can construct. -/
def isCallee : Expr → Bool
  | literal .. | identifier .. | array .. | construct .. | template .. | group .. => true
  | member _ b _ _ => b.isCallee
  | _ => false

/-- Whether a literal of a kind is written and meant in a fitting way. -/
def LiteralFits : LiteralKind → (raw value : Bytes) → Prop
  | .number, raw, v => v = numberValue raw
  | .string, raw, v => v = stringValue raw
  | .bool, raw, v => (raw = Keyword.true.text ∨ raw = Keyword.false.text) ∧ v = raw
  | .null, raw, v => raw = Keyword.null.text ∧ v = raw
  | .undefined, raw, v => raw = Keyword.undefined.text ∧ v = raw

mutual

/-- Whether the operands of every operator of a tree bind tightly enough. -/
def Respects : Expr → Prop
  | literal _ k raw v => LiteralFits k raw v
  | identifier .. => True
  | binary _ op l r =>
    (∃ b, op.binding? = some b ∧ b.Admits l.strength r.strength) ∧ l.Respects ∧ r.Respects
  | unary _ op x => op.isPrefixOperator ∧ prefixStrength ≤ x.strength ∧ x.Respects
  | trailing _ op x =>
    (op = .symbol .plusPlus ∨ op = .symbol .minusMinus) ∧ x.strength = tightest ∧ x.Respects
  | member _ b _ _ => b.strength = tightest ∧ b.isOpenNew = false ∧ b.Respects
  | index _ b i => b.strength = tightest ∧ b.Respects ∧ i.Respects
  | call _ c args => c.strength = tightest ∧ c.isOpenNew = false ∧ c.Respects ∧ RespectsAll args
  | array _ xs => RespectsAll xs
  | construct _ c args hasArgs =>
    c.isCallee ∧ (hasArgs → c.isOpenNew = false) ∧ (hasArgs = false → args = [])
      ∧ c.Respects ∧ RespectsAll args
  | ternary _ c a b => assignmentStrength < c.strength ∧ c.Respects ∧ a.Respects ∧ b.Respects
  | template _ parts _ => RespectsParts parts
  | group _ x => x.Respects
  | missing => False

/-- Whether all trees of a list respect the precedence table. -/
def RespectsAll : List Expr → Prop
  | [] => True
  | x :: xs => x.Respects ∧ RespectsAll xs

/-- Whether all substitutions of a template respect the precedence table. -/
def RespectsParts : List (Bytes × Expr) → Prop
  | [] => True
  | (_, x) :: rest => x.Respects ∧ RespectsParts rest

end

end Expr

/-! ## Spelling -/

/-- The texts and the sources of the substitutions of a template literal. -/
def templatePieces (raw : Bytes) : List (Bytes × Bytes) :=
  (templateOf 0 raw).parts.map fun p => (p.text, (raw.drop p.start).take (p.stop - p.start))

mutual

/-- Whether tokens spell a tree. -/
def Spells (ts : List Form) : Expr → Prop
  | .literal _ .number raw _ => ts = [⟨.number, raw⟩]
  | .literal _ .string raw _ => ts = [⟨.string, raw⟩]
  | .literal _ .bool raw _ | .literal _ .null raw _ | .literal _ .undefined raw _ =>
    ts = [.word raw]
  | .identifier _ n => ts = [⟨.identifier, n⟩]
  | .binary _ op l r => ∃ us vs, ts = us ++ .of op :: vs ∧ Spells us l ∧ Spells vs r
  | .unary _ op x => ∃ us, ts = .of op :: us ∧ Spells us x
  | .trailing _ op x => ∃ us, ts = us ++ [.of op] ∧ Spells us x
  | .member _ b n _ => ∃ us, ts = us ++ [.symbol .dot, .word n] ∧ Spells us b
  | .index _ b i => ∃ us vs, ts = us ++ .symbol .leftBracket :: vs ++ [.symbol .rightBracket]
      ∧ Spells us b ∧ Spells vs i
  | .call _ c args => ∃ us vs, ts = us ++ .symbol .leftParen :: vs ++ [.symbol .rightParen]
      ∧ Spells us c ∧ SpellsList vs args
  | .array _ xs => ∃ us, ts = .symbol .leftBracket :: us ++ [.symbol .rightBracket]
      ∧ SpellsList us xs
  | .construct _ c args hasArgs => ∃ us vs, ts = .of (.keyword .new) :: us ++ vs ∧ Spells us c
      ∧ if hasArgs then ∃ ws, vs = .symbol .leftParen :: ws ++ [.symbol .rightParen]
          ∧ SpellsList ws args
        else vs = []
  | .ternary _ c a b => ∃ us vs ws,
      ts = us ++ .symbol .question :: vs ++ .symbol .colon :: ws
      ∧ Spells us c ∧ Spells vs a ∧ Spells ws b
  | .template _ parts tail => ∃ raw, ts = [⟨.template, raw⟩] ∧ (templateOf 0 raw).unclosed = none
      ∧ (templateOf 0 raw).tail = tail ∧ SpellsParts (templatePieces raw) parts
  | .group _ x => ∃ us, ts = .symbol .leftParen :: us ++ [.symbol .rightParen] ∧ Spells us x
  | .missing => False

/-- Whether tokens spell trees with commas between them; another comma may follow the last. -/
def SpellsList (ts : List Form) : List Expr → Prop
  | [] => ts = []
  | x :: xs => ∃ us, Spells us x
      ∧ ((xs = [] ∧ ts = us) ∨ ∃ vs, ts = us ++ .symbol .comma :: vs ∧ SpellsList vs xs)

/-- Whether the sources of substitutions spell their trees, after the same texts. -/
def SpellsParts (pieces : List (Bytes × Bytes)) : List (Bytes × Expr) → Prop
  | [] => pieces = []
  | (text, x) :: rest => ∃ source more, pieces = (text, source) :: more
      ∧ Faultless source ∧ Spells (formsOf source) x ∧ SpellsParts more rest

end

theorem Spells.ne_nil {ts : List Form} {e : Expr} (h : Spells ts e) : ts ≠ [] := by
  rintro rfl
  cases e with
  | literal _ k raw v => cases k <;> simp [Spells] at h
  | construct _ c args hasArgs => simp [Spells] at h
  | missing => exact h
  | _ => simp [Spells] at h

/-- Whether tokens spell statements: after each of them stands a semicolon or nothing, and any
number of semicolons may stand before, after and among them. -/
inductive SpellsScript : List Form → Statements → Prop
  | nil : SpellsScript [] []
  | skip {ts : List Form} {es : Statements} (h : SpellsScript ts es) :
    SpellsScript (.symbol .semicolon :: ts) es
  | cons {ts us : List Form} {e : Expr} {es : Statements} (h : Spells ts e)
    (hs : SpellsScript us es) (hsep : us = [] ∨ ∃ vs, us = .symbol .semicolon :: vs) :
    SpellsScript (ts ++ us) (e :: es)

/-! ## Strengths of operators

How tightly a token binds after a tree, and which operators may follow a tree without becoming a
part of its right operand (`Expr.rightFloor`).  For trees that respect the precedence table the two
sides of an operator meet here: an operator that does not belong to the right operand of the tree
before it can take that tree as its left operand, and the other way round.
-/

/-- How tightly a token binds as an operator between operands; 0 if it is none. -/
def TokenKind.pull : TokenKind → Nat
  | .symbol .question => assignmentStrength
  | k => (k.binding?.map Binding.strength).getD 0

/-- How tightly an operator after a tree may bind so that it does not belong to the right operand
of the tree. -/
def Expr.rightFloor : Expr → Nat
  | .binary _ op _ _ =>
    (op.binding?.map fun b => if b.toTheRight then b.strength - 1 else b.strength).getD 0
  | .ternary .. => assignmentStrength - 1
  | _ => tightest

-- most proofs below open these; their equations are derived here, once
attribute [local simp] Expr.strength Expr.isCallee Expr.rightFloor

/-- Whether a token extends a construction without arguments. -/
def TokenKind.extendsNew (k : TokenKind) : Bool := k = .symbol .dot || k = .symbol .leftParen

theorem Expr.strength_of_isCallee {e : Expr} (h : e.isCallee = true) : e.strength = tightest := by
  cases e <;> first | rfl | simp [isCallee] at h

/-- No operator between operands binds as tightly as one before its operand. -/
theorem TokenKind.strength_lt {k : TokenKind} {b : Binding} (h : k.binding? = some b) :
    assignmentStrength ≤ b.strength ∧ b.strength < Expr.prefixStrength := by
  cases k with
  | symbol s => cases s <;> cases h <;> decide
  | keyword w => cases w <;> cases h <;> decide
  | invalid | endOfScript | identifier | number | string | template => cases h

/-- Operators of one strength group to one side. -/
theorem TokenKind.toTheRight_eq {k k' : TokenKind} {b b' : Binding} (h : k.binding? = some b)
    (h' : k'.binding? = some b') (hs : b.strength = b'.strength) :
    b.toTheRight = b'.toTheRight := by
  have side : ∀ {k : TokenKind} {b : Binding}, k.binding? = some b →
      b.toTheRight = (decide (b.strength = assignmentStrength) || decide (b.strength = 13)) := by
    intro k b h
    cases k with
    | symbol s => cases s <;> cases h <;> rfl
    | keyword w => cases w <;> cases h <;> rfl
    | invalid | endOfScript | identifier | number | string | template => cases h
  rw [side h, side h', hs]

theorem TokenKind.pull_of_binding {k : TokenKind} {b : Binding} (h : k.binding? = some b) :
    k.pull = b.strength := by
  unfold pull
  split
  · cases h
  · simp [h]

theorem TokenKind.pull_lt (k : TokenKind) : k.pull < Expr.prefixStrength := by
  unfold pull
  split
  · decide
  · cases h : k.binding? with
    | none => decide
    | some b => exact (strength_lt h).2

theorem Expr.rightFloor_of_strength {e : Expr} (h : prefixStrength ≤ e.strength) :
    e.rightFloor = tightest := by
  cases e with
  | binary _ op l r =>
    simp only [strength] at h
    cases hb : op.binding? with
    | none => simp [hb, prefixStrength] at h
    | some b =>
      have := (TokenKind.strength_lt hb).2
      simp only [hb, Option.map_some, Option.getD_some] at h
      omega
  | ternary => simp [strength, prefixStrength, assignmentStrength] at h
  | _ => rfl

theorem pull_le_rightFloor (k : TokenKind) {e : Expr} (h : Expr.prefixStrength ≤ e.strength) :
    k.pull ≤ e.rightFloor := by
  have := k.pull_lt
  rw [Expr.rightFloor_of_strength h]
  unfold Expr.prefixStrength Expr.tightest at *
  omega

/-- An operator that does not belong to the right operand of a tree can take the tree as its left
operand. -/
theorem admits_left {k : TokenKind} {b : Binding} {e : Expr} (hb : k.binding? = some b)
    (h : k.pull ≤ e.rightFloor) (he : e.Respects) :
    if b.toTheRight then b.strength < e.strength else b.strength ≤ e.strength := by
  have hk := TokenKind.strength_lt hb
  rw [TokenKind.pull_of_binding hb] at h
  by_cases ht : Expr.prefixStrength ≤ e.strength
  · split <;> omega
  · cases e with
    | binary _ op l r =>
      obtain ⟨⟨c, hc, _⟩, _⟩ := he
      have hop := TokenKind.strength_lt hc
      simp only [Expr.rightFloor, Expr.strength, hc, Option.map_some, Option.getD_some] at h ⊢
      by_cases hcr : c.toTheRight = true
      · rw [if_pos hcr] at h
        unfold assignmentStrength at hop
        split <;> omega
      · rw [if_neg hcr] at h
        split
        · rename_i hbr
          have hne : b.strength ≠ c.strength := fun heq =>
            hcr ((TokenKind.toTheRight_eq hb hc heq).symm.trans hbr)
          omega
        · omega
    | ternary =>
      simp only [Expr.rightFloor, assignmentStrength] at h hk
      omega
    | missing => exact he.elim
    | _ => exact absurd (by simp [Expr.strength, Expr.prefixStrength, Expr.trailingStrength,
        Expr.tightest]) ht

/-- A tree whose right operand a question mark does not belong to can be a condition. -/
theorem condition_left {e : Expr} (h : assignmentStrength ≤ e.rightFloor) (he : e.Respects) :
    assignmentStrength < e.strength := by
  cases e with
  | binary _ op l r =>
    obtain ⟨⟨c, hc, _⟩, _⟩ := he
    have hop := TokenKind.strength_lt hc
    have hassign : (TokenKind.symbol .assign).binding? = some ⟨assignmentStrength, true⟩ := rfl
    simp only [Expr.rightFloor, Expr.strength, hc, Option.map_some, Option.getD_some] at h ⊢
    by_cases hcr : c.toTheRight = true
    · rw [if_pos hcr] at h
      unfold assignmentStrength at *
      omega
    · have hne : c.strength ≠ assignmentStrength := fun heq =>
        hcr (TokenKind.toTheRight_eq hc hassign heq)
      omega
  | ternary => simp [Expr.rightFloor, assignmentStrength] at h
  | missing => exact he.elim
  | _ => simp [Expr.strength, assignmentStrength, Expr.prefixStrength, Expr.trailingStrength,
      Expr.tightest]

/-- A tree that can be the left operand of an operator does not take the operator for a part of its
own right operand. -/
theorem le_rightFloor_of_admits {k : TokenKind} {b : Binding} {e : Expr} {right : Nat}
    (hb : k.binding? = some b) (h : b.Admits e.strength right) (he : e.Respects) :
    b.strength ≤ e.rightFloor := by
  have hk := TokenKind.strength_lt hb
  have hle : if b.toTheRight then b.strength < e.strength else b.strength ≤ e.strength := by
    unfold Binding.Admits at h
    split at h
    · rename_i hside
      simpa [hside] using h.1
    · rename_i hside
      simpa [hside] using h.1
  -- what is as tight as an operand has no operator on its right side
  by_cases ht : Expr.prefixStrength ≤ e.strength
  · rw [← TokenKind.pull_of_binding hb]
    exact pull_le_rightFloor k ht
  · cases e with
    -- operators of one strength associate to one side, so equal strengths cannot meet here
    | binary _ op l r =>
      obtain ⟨⟨c, hc, _⟩, _⟩ := he
      simp only [Expr.rightFloor, Expr.strength, hc, Option.map_some, Option.getD_some] at hle ⊢
      by_cases hbr : b.toTheRight = true
      · rw [if_pos hbr] at hle
        split
        · exact Nat.le_sub_one_of_lt hle
        · exact Nat.le_of_lt hle
      · rw [if_neg hbr] at hle
        split
        · rename_i hcr
          have hne : b.strength ≠ c.strength := fun heq =>
            hbr ((TokenKind.toTheRight_eq hb hc heq).trans hcr)
          exact Nat.le_sub_one_of_lt (by omega)
        · exact hle
    -- a conditional is as strong as an assignment, and that associates to the right
    | ternary =>
      simp only [Expr.strength] at hle
      have hassign : (TokenKind.symbol .assign).binding? = some ⟨assignmentStrength, true⟩ := rfl
      split at hle
      · omega
      · rename_i hbr
        have heq : b.strength = assignmentStrength := by omega
        exact absurd (TokenKind.toTheRight_eq hb hassign heq) hbr
    | missing => exact he.elim
    | _ => exact absurd (by simp [Expr.strength, Expr.prefixStrength, Expr.trailingStrength,
        Expr.tightest]) ht

theorem Expr.strength_le_rightFloor {e : Expr} (he : e.Respects) :
    e.strength ≤ e.rightFloor + 1 := by
  cases e with
  | binary _ op l r =>
    obtain ⟨⟨c, hc, _⟩, _⟩ := he
    simp only [Expr.rightFloor, Expr.strength, hc, Option.map_some, Option.getD_some]
    split
    · exact Nat.le_add_of_sub_le (Nat.le_refl _)
    · exact Nat.le_succ _
  | ternary => simp [rightFloor, strength, assignmentStrength]
  | missing => exact he.elim
  | _ => simp [rightFloor, strength, prefixStrength, trailingStrength, tightest]

theorem Expr.assignmentStrength_le {e : Expr} (he : e.Respects) :
    assignmentStrength ≤ e.strength := by
  cases e with
  | binary _ op l r =>
    obtain ⟨⟨c, hc, _⟩, _⟩ := he
    simpa [strength, hc] using (TokenKind.strength_lt hc).1
  | ternary => exact Nat.le_refl _
  | missing => exact he.elim
  | _ => simp [strength, prefixStrength, trailingStrength, tightest, assignmentStrength]

end Storyline.Script
