import Storyline.Json.Basic

/-!
# Reading JSON

A strict reader of JSON texts: one value with white space around it, no control characters in
strings, no leading zeros in numbers.  Bytes that are not UTF-8 are let through in strings.

Every function takes the remaining text and gives what it read with what is left.
-/

namespace Storyline.Json

/-- The four characters that may stand between tokens. -/
def isSpace (b : UInt8) : Bool := b = ' ' || b = '\t' || b = '\r' || b = '\n'

/-- Drops white space. -/
def skipSpace (s : Bytes) : Bytes := s.dropWhile isSpace

/-- A run of digits, which may be empty, and what follows it. -/
def readDigits (s : Bytes) : Bytes × Bytes := s.span Bytes.isDigit

/-- At least one digit. -/
def readSomeDigits? (s : Bytes) : Option (Bytes × Bytes) :=
  let (digits, rest) := readDigits s
  if digits.isEmpty then none else some (digits, rest)

/-- The part of a number before the point: `0`, or digits that do not start with `0`. -/
def readWhole? (s : Bytes) : Option (Bytes × Bytes) :=
  match s with
  | b :: rest => if b = '0' then some ([b], rest) else readSomeDigits? s
  | [] => none

/-- A point and digits, or nothing. -/
def readFraction? (s : Bytes) : Option (Bytes × Bytes) :=
  match s with
  | b :: rest =>
    if b = '.' then (readSomeDigits? rest).map fun r => (b :: r.1, r.2) else some ([], s)
  | [] => some ([], s)

/-- An optional sign. -/
def readSign (s : Bytes) : Bytes × Bytes :=
  match s with
  | b :: rest => if b = '+' || b = '-' then ([b], rest) else ([], s)
  | [] => ([], s)

/-- An exponent, or nothing. -/
def readExponent? (s : Bytes) : Option (Bytes × Bytes) :=
  match s with
  | b :: rest =>
    if b = 'e' || b = 'E' then
      let (sign, rest) := readSign rest
      (readSomeDigits? rest).map fun r => (b :: sign ++ r.1, r.2)
    else some ([], s)
  | [] => some ([], s)

/-- The spelling of a number. -/
def readNumber? (s : Bytes) : Option (Bytes × Bytes) := do
  let (minus, rest) := match s with
    | b :: rest => if b = '-' then ([b], rest) else ([], s)
    | [] => ([], s)
  let (whole, rest) ← readWhole? rest
  let (fraction, rest) ← readFraction? rest
  let (exponent, rest) ← readExponent? rest
  return (minus ++ whole ++ fraction ++ exponent, rest)

/-- Whether the bytes after a backslash form an escape; the length of the escape after it. -/
def escapeLength? : Bytes → Option Nat
  | [] => none
  | e :: rest =>
    if e = 'u' then (readCode? rest).map fun _ => 5
    else if e = '"' || e = '\\' || e = '/' || e = 'b' || e = 'f' || e = 'n' || e = 'r' || e = 't'
    then some 1 else none

/-- The length of a string's spelling up to the closing quote, counted from `length`, after
`skip` bytes of an escape. -/
def spellingLength? : (length skip : Nat) → Bytes → Option Nat
  | _, _, [] => none
  | length, n + 1, _ :: s => spellingLength? (length + 1) n s
  | length, 0, b :: s =>
    if b = '"' then some length
    else if b < 0x20 then none
    else if b = '\\' then
      match escapeLength? s with
      | some n => spellingLength? (length + 1) n s
      | none => none
    else spellingLength? (length + 1) 0 s

/-- The spelling of a string whose opening quote is already read. -/
def readString? (s : Bytes) : Option (Bytes × Bytes) :=
  (spellingLength? 0 0 s).map fun n => (s.take n, s.drop (n + 1))

mutual

/-- A value that starts right here.  `fuel` bounds the nesting and the number of items. -/
def readValue? : (fuel : Nat) → Bytes → Option (Json × Bytes)
  | 0, _ => none
  | _, [] => none
  | fuel + 1, b :: rest =>
    if b = 0x7B then
      match skipSpace rest with
      | 0x7D :: after => some (.object [], after)
      | inner => (readMembers? fuel #[] inner).map fun r => (.object r.1, r.2)
    else if b = '[' then
      match skipSpace rest with
      | 0x5D :: after => some (.array [], after)
      | inner => (readItems? fuel #[] inner).map fun r => (.array r.1, r.2)
    else if b = '"' then (readString? rest).map fun r => (.string r.1, r.2)
    else if b = 't' then (Bytes.stripPrefix? "rue" rest).map fun r => (.bool true, r)
    else if b = 'f' then (Bytes.stripPrefix? "alse" rest).map fun r => (.bool false, r)
    else if b = 'n' then (Bytes.stripPrefix? "ull" rest).map fun r => (.null, r)
    else (readNumber? (b :: rest)).map fun r => (.number r.1, r.2)

/-- Items up to the closing bracket. -/
def readItems? : (fuel : Nat) → Array Json → Bytes → Option (List Json × Bytes)
  | 0, _, _ => none
  | fuel + 1, acc, s =>
    match readValue? fuel s with
    | none => none
    | some (x, rest) =>
      match skipSpace rest with
      | 0x2C :: after => readItems? fuel (acc.push x) (skipSpace after)
      | 0x5D :: after => some ((acc.push x).toList, after)
      | _ => none

/-- Members up to the closing brace. -/
def readMembers? : (fuel : Nat) → Array (Bytes × Json) → Bytes →
    Option (List (Bytes × Json) × Bytes)
  | 0, _, _ => none
  | fuel + 1, acc, s =>
    match s with
    | 0x22 :: quoted =>
      match readString? quoted with
      | none => none
      | some (name, rest) =>
        match skipSpace rest with
        | 0x3A :: value =>
          match readValue? fuel (skipSpace value) with
          | none => none
          | some (x, rest) =>
            match skipSpace rest with
            | 0x2C :: after => readMembers? fuel (acc.push (name, x)) (skipSpace after)
            | 0x7D :: after => some ((acc.push (name, x)).toList, after)
            | _ => none
        | _ => none
    | _ => none

end

/-- The value that a whole text spells. -/
def read? (s : Bytes) : Option Json :=
  match readValue? (2 * s.length + 2) (skipSpace s) with
  | some (j, rest) => if (skipSpace rest).isEmpty then some j else none
  | none => none

end Storyline.Json
