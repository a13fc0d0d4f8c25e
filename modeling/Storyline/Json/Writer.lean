import Storyline.Json.Basic

/-!
# Writing JSON

Two layouts: compact, without any white space, and indented by two spaces a level, where an
empty array or object stays on one line.
-/

namespace Storyline.Json

/-- A line break and the indentation of a level. -/
def newline (level : Nat) : Bytes := ('\n' : UInt8) :: List.replicate (2 * level) (' ' : UInt8)

mutual

/-- Writes a value compactly onto `acc`. -/
def writeOnto (acc : Array UInt8) : Json → Array UInt8
  | .null => acc ++ Bytes.ofString "null"
  | .bool b => acc ++ Bytes.ofString (if b then "true" else "false")
  | .number s => acc ++ s
  | .string s => (acc.push '"' ++ s).push '"'
  | .array xs => (writeItems (acc.push '[') true xs).push ']'
  | .object ms => (writeMembers (acc.push 0x7B) true ms).push 0x7D

/-- Writes items with commas between them. -/
def writeItems (acc : Array UInt8) (first : Bool) : List Json → Array UInt8
  | [] => acc
  | x :: xs => writeItems (writeOnto (if first then acc else acc.push ',') x) false xs

/-- Writes members with commas between them. -/
def writeMembers (acc : Array UInt8) (first : Bool) : List (Bytes × Json) → Array UInt8
  | [] => acc
  | m :: ms =>
    let acc := ((if first then acc else acc.push ',').push '"' ++ m.1) ++ Bytes.ofString "\":"
    writeMembers (writeOnto acc m.2) false ms

end

mutual

/-- Writes a value onto `acc`, indented to `level`. -/
def writeIndented (acc : Array UInt8) (level : Nat) : Json → Array UInt8
  | .array xs =>
    if xs.isEmpty then acc ++ Bytes.ofString "[]"
    else (indentItems (acc.push '[') (level + 1) true xs ++ newline level).push ']'
  | .object ms =>
    if ms.isEmpty then (acc.push 0x7B).push 0x7D
    else (indentMembers (acc.push 0x7B) (level + 1) true ms ++ newline level).push 0x7D
  | .null => writeOnto acc .null
  | .bool b => writeOnto acc (.bool b)
  | .number s => writeOnto acc (.number s)
  | .string s => writeOnto acc (.string s)

/-- Writes items, each on a line of its own. -/
def indentItems (acc : Array UInt8) (level : Nat) (first : Bool) : List Json → Array UInt8
  | [] => acc
  | x :: xs =>
    let acc := (if first then acc else acc.push ',') ++ newline level
    indentItems (writeIndented acc level x) level false xs

/-- Writes members, each on a line of its own. -/
def indentMembers (acc : Array UInt8) (level : Nat) (first : Bool) :
    List (Bytes × Json) → Array UInt8
  | [] => acc
  | m :: ms =>
    let acc := (if first then acc else acc.push ',') ++ newline level
    let acc := (acc.push '"' ++ m.1) ++ Bytes.ofString "\": "
    indentMembers (writeIndented acc level m.2) level false ms

end

/-- The compact text of a value. -/
def compact (j : Json) : Bytes := (writeOnto #[] j).toList

/-- The text of a value, indented by two spaces a level. -/
def indented (j : Json) : Bytes := (writeIndented #[] 0 j).toList

/-- A JSON text with `<`, `>` and `&`, which stand only in its strings, escaped. -/
def webSafe (s : Bytes) : Bytes :=
  s.flatMap fun (b : UInt8) =>
    if b = '<' || b = '>' || b = '&' then codeEscape b.toNat else [b]

/-- Writes a JSON text onto `acc`, the separators U+2028 and U+2029 escaped. -/
def lineSafeOnto (acc : Array UInt8) : Bytes → Array UInt8
  | a :: b :: c :: s =>
    if a = 0xE2 && b = 0x80 && (c = 0xA8 || c = 0xA9) then
      lineSafeOnto (acc ++ codeEscape (0x2028 + (c.toNat - 0xA8))) s
    else lineSafeOnto (acc.push a) (b :: c :: s)
  | s => acc ++ s

/-- A JSON text with the separators U+2028 and U+2029, which stand only in its strings, escaped. -/
def lineSafe (s : Bytes) : Bytes := (lineSafeOnto #[] s).toList

end Storyline.Json
