import Storyline.Script.Token.Lexer

/-!
# The meaning of literals

What a written number or string stands for, and how a template falls apart into texts and
substitutions.
-/

namespace Storyline.Script

/-- The digits of a number without separators. -/
def numberValue (raw : Bytes) : Bytes := raw.filter (· != '_')

/-- The byte that a letter after a backslash stands for. -/
def escapedByte (b : UInt8) : UInt8 :=
  if b = 'n' then 10 else if b = 't' then 9 else if b = 'r' then 13 else b

/-- Resolves backslashes; one at the very end stands for itself. -/
def unescape : Bytes → Bytes
  | [] => []
  | [b] => [b]
  | b :: c :: rest => if b = '\\' then escapedByte c :: unescape rest else b :: unescape (c :: rest)

/-- The text that a string literal means.  The closing quote is dropped if it is there. -/
def stringValue : Bytes → Bytes
  | [] => []
  | quote :: body =>
    if body.getLast? = some quote then unescape body.dropLast else unescape body

/-! ## Templates -/

/-- The length of a substitution up to the brace that closes it, counted from `length`; nested
braces and quoted text are skipped. -/
def closingBrace? (length depth : Nat) : TemplateState → Bytes → Option Nat
  | _, [] => none
  | .skipping, _ :: s => closingBrace? (length + 1) depth .plain s
  | .quotedSkipping q, _ :: s => closingBrace? (length + 1) depth (.quoted q) s
  | .quoted q, b :: s =>
    if b = q then closingBrace? (length + 1) depth .plain s
    else if b = '\\' then closingBrace? (length + 1) depth (.quotedSkipping q) s
    else closingBrace? (length + 1) depth (.quoted q) s
  | .plain, b :: s =>
    if b = '\\' then closingBrace? (length + 1) depth .skipping s
    else if b = '"' || b = '\'' || b = 0x60 then closingBrace? (length + 1) depth (.quoted b) s
    else if b = 0x7B then closingBrace? (length + 1) (depth + 1) .plain s
    else if b = 0x7D then
      if depth = 0 then some length else closingBrace? (length + 1) (depth - 1) .plain s
    else closingBrace? (length + 1) depth .plain s

/-- A text of a template and the offsets of the substitution after it. -/
structure TemplatePart where
  text : Bytes
  start : Nat
  stop : Nat
deriving DecidableEq, Repr, Inhabited

/-- A template taken apart. -/
structure TemplateShape where
  parts : List TemplatePart
  tail : Bytes
  /-- The offset of a substitution that no brace closes; it is part of `tail`. -/
  unclosed : Option Nat
deriving DecidableEq, Repr, Inhabited

/-- Takes apart a template's body that starts at offset `pos`; `text` is what was read since the
last substitution.  `fuel` bounds the number of steps. -/
def templateShape : (fuel : Nat) → (text : Array UInt8) → (pos : Nat) → Bytes → TemplateShape
  | 0, text, _, s => ⟨[], text.toList ++ s, none⟩
  | _, text, _, [] => ⟨[], text.toList, none⟩
  | _, text, _, [b] => ⟨[], (text.push b).toList, none⟩
  | fuel + 1, text, pos, b :: c :: rest =>
    if b = '\\' then templateShape fuel ((text.push b).push c) (pos + 2) rest
    else if b = '$' && c = 0x7B then
      match closingBrace? 0 0 .plain rest with
      | none => ⟨[], text.toList ++ (b :: c :: rest), some pos⟩
      | some n =>
        let start := pos + 2
        let after := templateShape fuel #[] (start + n + 1) (rest.drop (n + 1))
        { after with parts := ⟨text.toList, start, start + n⟩ :: after.parts }
    else templateShape fuel (text.push b) (pos + 1) (c :: rest)

/-- The body of a template literal: without the opening quote, and without a closing one. -/
def templateBody (raw : Bytes) : Bytes :=
  let body := raw.tail
  if body.getLast? = some 0x60 then body.dropLast else body

/-- Takes apart a template literal that starts at offset `pos`. -/
def templateOf (pos : Nat) (raw : Bytes) : TemplateShape :=
  let body := templateBody raw
  templateShape body.length #[] (pos + 1) body

end Storyline.Script
