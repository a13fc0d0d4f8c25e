import Storyline.Text.Glyph

/-!
# JSON values

A JSON value as it is written: numbers and strings keep their spelling, and an object keeps its
members in order, repeated names included.  Reading a text and writing the value back therefore
only loses the white space between tokens.

`Json.text` spells a text and `Json.text?` reads the spelling back.
-/

namespace Storyline

/-- A JSON value. -/
inductive Json where
  | null
  | bool (b : Bool)
  /-- A number with its spelling. -/
  | number (spelling : Bytes)
  /-- A string with what stands between its quotes. -/
  | string (spelling : Bytes)
  | array (items : List Json)
  /-- An object; names are spelled like strings. -/
  | object (members : List (Bytes × Json))
deriving Repr, Inhabited

namespace Json

/-! ## Spelling strings -/

/-- Which characters are escaped beyond those that must be. -/
inductive Escaping where
  /-- Only quotes, backslashes, controls and the two separators U+2028 and U+2029. -/
  | plain
  /-- Also `<`, `>` and `&`, so that the text can stand in a web page. -/
  | webSafe
deriving DecidableEq, Repr

/-- A character written by its four-digit code. -/
def codeEscape (n : Nat) : Bytes := "\\u" ++ Bytes.hexPadded 4 n

/-- How a glyph is spelled in a string; a stray byte is spelled as U+FFFD. -/
def spellGlyph (escaping : Escaping) : Glyph → Bytes
  | .stray _ => String.utf8EncodeChar Glyph.replacement
  | .char c =>
    let n := c.toNat
    if n = 0x22 then "\\\""
    else if n = 0x5C then "\\\\"
    else if n = 0x0A then "\\n"
    else if n = 0x0D then "\\r"
    else if n = 0x09 then "\\t"
    else if n = 0x08 then "\\b"
    else if n = 0x0C then "\\f"
    else if n < 0x20 || n = 0x2028 || n = 0x2029 then codeEscape n
    else if escaping = .webSafe && (n = 0x3C || n = 0x3E || n = 0x26) then codeEscape n
    else String.utf8EncodeChar c

/-- The spelling of a text. -/
def spell (escaping : Escaping) (s : Bytes) : Bytes := s.glyphs.flatMap (spellGlyph escaping)

/-- The string value of a text. -/
def text (s : Bytes) : Json := .string (spell .plain s)

/-- The string value of a literal. -/
def str (s : String) : Json := text s

/-- The number value of a natural number. -/
def nat (n : Nat) : Json := .number (Bytes.ofNat n)

/-- The number value of an integer. -/
def int (n : Int) : Json := .number (Bytes.ofInt n)

/-- An object with literal names. -/
def record (members : List (String × Json)) : Json :=
  .object (members.map fun m => (spell .plain m.1, m.2))

/-! ## Reading spellings -/

/-- The number of four hexadecimal digits, and what follows them. -/
def readCode? : Bytes → Option (Nat × Bytes)
  | a :: b :: c :: d :: rest => do
    let n ← Bytes.readNat? 16 Bytes.hexDigit? [a, b, c, d]
    return (n, rest)
  | _ => none

/-- First half of a pair that spells a character beyond U+FFFF. -/
def isHighSurrogate (n : Nat) : Bool := 0xD800 ≤ n && n ≤ 0xDBFF

/-- Second half of such a pair. -/
def isLowSurrogate (n : Nat) : Bool := 0xDC00 ≤ n && n ≤ 0xDFFF

/-- The character of a numeric escape `n` that `rest` follows, and how many bytes of `rest` take
part in it.  Half a pair on its own stands for U+FFFD. -/
def codeChar (n : Nat) (rest : Bytes) : Char × Nat :=
  if isHighSurrogate n then
    match Bytes.stripPrefix? "\\u" rest >>= readCode? with
    | some (m, _) =>
      if isLowSurrogate m then (Char.ofNat (0x10000 + (n - 0xD800) * 0x400 + (m - 0xDC00)), 6)
      else (Glyph.replacement, 0)
    | none => (Glyph.replacement, 0)
  else if isLowSurrogate n then (Glyph.replacement, 0)
  else (Char.ofNat n, 0)

/-- The byte that a one-letter escape stands for. -/
def letterEscape (b : UInt8) : UInt8 :=
  if b = 'n' then 10 else if b = 'r' then 13 else if b = 't' then 9
  else if b = 'b' then 8 else if b = 'f' then 12 else b

/-- Reads a spelling onto `acc` after `skip` bytes that are already read. -/
def unspellFrom (acc : Array UInt8) : (skip : Nat) → Bytes → Array UInt8
  | _, [] => acc
  | n + 1, _ :: s => unspellFrom acc n s
  | 0, b :: s =>
    if b = '\\' then
      match s with
      | [] => acc
      | e :: rest =>
        if e = 'u' then
          match readCode? rest with
          | some (n, after) =>
            let (c, taken) := codeChar n after
            unspellFrom (acc ++ String.utf8EncodeChar c) (5 + taken) s
          | none => unspellFrom acc 1 s
        else unspellFrom (acc.push (letterEscape e)) 1 s
    else unspellFrom (acc.push b) 0 s

/-- The text that a spelling stands for; stray bytes become U+FFFD. -/
def unspell (spelling : Bytes) : Bytes :=
  Bytes.ofChars (Bytes.shown (unspellFrom #[] 0 spelling).toList)

/-! ## Views -/

/-- The text of a string value. -/
def text? : Json → Option Bytes
  | .string s => some (unspell s)
  | _ => none

/-- The items of an array value. -/
def items? : Json → Option (List Json)
  | .array xs => some xs
  | _ => none

/-- The members of an object value, with their names read. -/
def members? : Json → Option (List (Bytes × Json))
  | .object ms => some (ms.map fun m => (unspell m.1, m.2))
  | _ => none

/-- The value of the last member with a name. -/
def member? (j : Json) (name : Bytes) : Option Json :=
  j.members?.bind fun ms => (ms.reverse.find? fun m => m.1 = name).map (·.2)

end Json

end Storyline
