/-!
# Text as bytes

Story text is a sequence of bytes.  It is usually UTF-8 but nothing here depends on that: every
position, length and comparison counts bytes, and a byte that belongs to no character passes
through untouched.

`Bytes` is a plain list, so all list lemmas apply to it.  String and character literals stand
for their UTF-8 bytes and their code, by coercion, so that `text ++ "'"` and `b = '*'` read as
they would for strings.
-/

namespace Storyline

/-- Text as a sequence of bytes, in the order they are written. -/
abbrev Bytes := List UInt8

namespace Bytes

/-- The UTF-8 bytes of a string. -/
def ofString (s : String) : Bytes := s.toUTF8.data.toList

instance : Coe String Bytes := ⟨ofString⟩

instance : Coe Char UInt8 := ⟨Char.toUInt8⟩

/-! ## Numbers -/

/-- Decimal spelling of a natural number. -/
def ofNat (n : Nat) : Bytes := (Nat.toDigits 10 n).map Char.toUInt8

/-- Decimal spelling of an integer, with a leading minus sign when it is negative. -/
def ofInt : Int → Bytes
  | .ofNat n => ofNat n
  | .negSucc n => ('-' : UInt8) :: ofNat (n + 1)

/-- The lower-case hexadecimal digit of a number below sixteen. -/
def hexDigit (n : Nat) : UInt8 :=
  if n < 10 then 48 + n.toUInt8 else 87 + n.toUInt8

/-- The last `width` hexadecimal digits of `n`, padded with zeros. -/
def hexPadded : (width : Nat) → (n : Nat) → Bytes
  | 0, _ => []
  | w + 1, n => hexPadded w (n / 16) ++ [hexDigit (n % 16)]

/-- Two hexadecimal digits for each byte. -/
def hex (s : Bytes) : Bytes := s.flatMap fun b => hexPadded 2 b.toNat

/-- The value of a decimal digit. -/
def digit? (b : UInt8) : Option Nat :=
  if 48 ≤ b ∧ b ≤ 57 then some (b.toNat - 48) else none

/-- The value of a hexadecimal digit of either case. -/
def hexDigit? (b : UInt8) : Option Nat :=
  if 48 ≤ b ∧ b ≤ 57 then some (b.toNat - 48)
  else if 97 ≤ b ∧ b ≤ 102 then some (b.toNat - 87)
  else if 65 ≤ b ∧ b ≤ 70 then some (b.toNat - 55)
  else none

/-- The number written by digits that `value?` knows, in the given base. -/
def readNat? (base : Nat) (value? : UInt8 → Option Nat) (s : Bytes) : Option Nat :=
  if s.isEmpty then none
  else s.foldl (fun acc b => return (← acc) * base + (← value? b)) (some 0)

/-- The number that a run of decimal digits spells; nothing else is accepted. -/
def toNat? (s : Bytes) : Option Nat := readNat? 10 digit? s

/-! ## Searching and cutting -/

/-- What follows `p` at the start of `s`. -/
def stripPrefix? : (p s : Bytes) → Option Bytes
  | [], s => some s
  | _ :: _, [] => none
  | a :: p, b :: s => if a = b then stripPrefix? p s else none

/-- The text `s` without `p` at its start, or `s` itself. -/
def dropPrefix (p s : Bytes) : Bytes := (stripPrefix? p s).getD s

/-- The text `s` without `p` at its end, or `s` itself. -/
def dropSuffix (p s : Bytes) : Bytes :=
  if p.isSuffixOf s then s.take (s.length - p.length) else s

/-- The position of the first occurrence of `p` in `s`, counted from `i`. -/
def indexFrom (p : Bytes) : Nat → Bytes → Option Nat
  | i, [] => if p.isEmpty then some i else none
  | i, b :: s => if p.isPrefixOf (b :: s) then some i else indexFrom p (i + 1) s

/-- The position of the first occurrence of `p` in `s`. -/
def indexOf? (p s : Bytes) : Option Nat := indexFrom p 0 s

/-- Whether `p` occurs in `s`. -/
def hasInfix (p s : Bytes) : Bool := (indexOf? p s).isSome

/-- The parts of `s` before and after the first occurrence of `p`. -/
def cut? (p s : Bytes) : Option (Bytes × Bytes) :=
  (indexOf? p s).map fun i => (s.take i, s.drop (i + p.length))

/-- The pieces of `s` between the bytes equal to `sep`; there is always at least one. -/
def splitOnByte (sep : UInt8) (s : Bytes) : List Bytes :=
  let step := fun (b : UInt8) (pieces : List Bytes) =>
    if b = sep then [] :: pieces else (b :: pieces.headD []) :: pieces.tail
  s.foldr step [[]]

/-- The texts with `sep` between neighbours. -/
def join (sep : Bytes) : List Bytes → Bytes
  | [] => []
  | [s] => s
  | s :: rest => s ++ rest.flatMap (sep ++ ·)

/-- Repeats `s` as often as `n` says. -/
def repeated (n : Nat) (s : Bytes) : Bytes := (List.replicate n s).flatten

/-- The text `s` with every occurrence of the byte `old` replaced by `new`. -/
def replaceByte (old : UInt8) (new : Bytes) (s : Bytes) : Bytes :=
  s.flatMap fun b => if b = old then new else [b]

/-! ## Trimming -/

/-- The text `s` without the leading bytes that satisfy `p`. -/
def trimLeft (p : UInt8 → Bool) (s : Bytes) : Bytes := s.dropWhile p

/-- The text `s` without the trailing bytes that satisfy `p`. -/
def trimRight (p : UInt8 → Bool) (s : Bytes) : Bytes := (s.reverse.dropWhile p).reverse

/-- The text `s` without the leading and trailing bytes that satisfy `p`. -/
def trim (p : UInt8 → Bool) (s : Bytes) : Bytes := trimLeft p (trimRight p s)

/-- A space or a tab. -/
def isGap (b : UInt8) : Bool := b = ' ' || b = '\t'

/-! ## Letter case and order -/

/-- The lower-case form of an ASCII letter; other bytes stay. -/
def lowerByte (b : UInt8) : UInt8 := if 65 ≤ b ∧ b ≤ 90 then b + 32 else b

/-- The text `s` with its ASCII letters in lower case. -/
def lower (s : Bytes) : Bytes := s.map lowerByte

/-- An ASCII letter. -/
def isLetter (b : UInt8) : Bool := (65 ≤ b && b ≤ 90) || (97 ≤ b && b ≤ 122)

/-- An ASCII decimal digit. -/
def isDigit (b : UInt8) : Bool := 48 ≤ b && b ≤ 57

/-- Order of texts by their first differing byte, a text coming after its prefixes. -/
def notAfter (a b : Bytes) : Bool := decide (a ≤ b)

/-- Sort by `key`; texts with equal keys keep their order. -/
def sortOn {α : Type} (key : α → Bytes) (xs : List α) : List α :=
  xs.mergeSort fun a b => notAfter (key a) (key b)

end Bytes

end Storyline
