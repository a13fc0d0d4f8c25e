import Storyline.Text.Bytes

/-!
# MessagePack

The pieces that messages are made of, and reading them.  Numbers and lengths take the shortest form
that holds them; a form is a first byte and, beyond the smallest ones, the number in one, two, four
or eight bytes, the highest first.

Each reader takes one item from the front of some bytes and gives it with what is left, or says
why there is none: the bytes end too early, or they do not start with an item of the right kind.
The item that stands for nothing is read as zero, as an empty text, or as an absent list.
-/

namespace Storyline.Msgpack

/-! ## Writing -/

/-- The lowest `count` bytes of a number, the highest first. -/
def bigEndian : (count : Nat) → (n : Nat) → Bytes
  | 0, _ => []
  | count + 1, n => (n / Nat.pow 256 count % 256).toUInt8 :: bigEndian count n

/-- A number behind a first byte. -/
def form (first : UInt8) (count n : Nat) : Bytes := first :: bigEndian count n

/-- Nothing. -/
def nil : Bytes := [0xC0]

/-- A truth value. -/
def bool (b : Bool) : Bytes := [if b then 0xC3 else 0xC2]

/-- A number in the two-byte form, however small it is. -/
def word (n : Nat) : Bytes := form 0xCD 2 n

/-- A natural number. -/
def nat (n : Nat) : Bytes :=
  if n < 0x80 then [n.toUInt8]
  else if n < 0x100 then form 0xCC 1 n
  else if n < 0x10000 then form 0xCD 2 n
  else if n < 0x100000000 then form 0xCE 4 n
  else form 0xCF 8 n

/-- An integer; negative ones are written modulo a power of two. -/
def int (n : Int) : Bytes :=
  let modulo (bits : Nat) : Nat := (n % (Nat.pow 2 bits : Nat)).toNat
  if 0 ≤ n then nat n.toNat
  else if -0x20 ≤ n then [(modulo 8).toUInt8]
  else if -0x80 ≤ n then form 0xD0 1 (modulo 8)
  else if -0x8000 ≤ n then form 0xD1 2 (modulo 16)
  else if -0x80000000 ≤ n then form 0xD2 4 (modulo 32)
  else form 0xD3 8 (modulo 64)

/-- A text. -/
def text (s : Bytes) : Bytes :=
  let n := s.length
  (if n < 0x20 then [(0xA0 + n).toUInt8]
    else if n < 0x100 then form 0xD9 1 n
    else if n < 0x10000 then form 0xDA 2 n
    else form 0xDB 4 n) ++ s

/-- Bytes that are no text. -/
def binary (s : Bytes) : Bytes :=
  let n := s.length
  (if n < 0x100 then form 0xC4 1 n
    else if n < 0x10000 then form 0xC5 2 n
    else form 0xC6 4 n) ++ s

/-- What stands before `n` items of a list. -/
def listHead (n : Nat) : Bytes :=
  if n < 0x10 then [(0x90 + n).toUInt8]
  else if n < 0x10000 then form 0xDC 2 n
  else form 0xDD 4 n

/-- What stands before `n` pairs of keys and values. -/
def mapHead (n : Nat) : Bytes :=
  if n < 0x10 then [(0x80 + n).toUInt8]
  else if n < 0x10000 then form 0xDE 2 n
  else form 0xDF 4 n

/-! ## Failures -/

/-- Why bytes cannot be read. -/
inductive ReadError where
  /-- Nothing is left. -/
  | ended
  /-- Something is left, but not enough. -/
  | cutShort
  /-- A first byte that starts no item of the kind that was wanted. -/
  | badCode (code : UInt8) (wanted : String)
  /-- A first byte that starts nothing at all. -/
  | unknownCode (code : UInt8)
  /-- A list with another number of items than the record has fields. -/
  | fieldCount
deriving DecidableEq, Repr, Inhabited

/-- A first byte as messages show it. -/
def shownCode (code : UInt8) : Bytes := Bytes.hexPadded (if code < 0x10 then 1 else 2) code.toNat

/-- The wording of a failure. -/
def ReadError.message : ReadError → Bytes
  | ended => "EOF"
  | cutShort => "unexpected EOF"
  | badCode code wanted =>
    "msgpack: invalid code=" ++ shownCode code ++ " decoding " ++ Bytes.ofString wanted
  | unknownCode code => "msgpack: unknown code " ++ shownCode code
  | fieldCount => "msgpack: number of fields in array-encoded struct has changed"

/-- What is read from the front of some bytes. -/
abbrev Reading (α : Type) := Bytes → Except ReadError (α × Bytes)

/-! ## Pieces -/

/-- The next `n` bytes. -/
def takeBytes (n : Nat) : Reading Bytes := fun s =>
  if n ≤ s.length then .ok (s.take n, s.drop n)
  else .error (if s.isEmpty then .ended else .cutShort)

/-- The number that bytes spell, the highest first. -/
def ofBigEndian (s : Bytes) : Nat := s.foldl (fun n b => 256 * n + b.toNat) 0

/-- A number in the next `count` bytes. -/
def takeNat (count : Nat) : Reading Nat := fun s => do
  let (bytes, rest) ← takeBytes count s
  return (ofBigEndian bytes, rest)

/-- The integer that a number of `bits` bits stands for. -/
def toSigned (bits n : Nat) : Int :=
  if n < Nat.pow 2 (bits - 1) then n else (n : Int) - (Nat.pow 2 bits : Nat)

/-- A length in the next `count` bytes. -/
def takeLength (count : Nat) : Reading (Option Nat) := fun s => do
  let (n, rest) ← takeNat count s
  return (some n, rest)

/-! ## Items -/

/-- An integer of any form; `wanted` is what it is wanted for. -/
def readInt (wanted : String) : Reading Int
  | [] => .error .ended
  | c :: s =>
    let natural (count : Nat) : Except ReadError (Int × Bytes) := do
      let (n, rest) ← takeNat count s
      return (Int.ofNat n, rest)
    let signed (count : Nat) : Except ReadError (Int × Bytes) := do
      let (n, rest) ← takeNat count s
      return (toSigned (8 * count) n, rest)
    if c = 0xC0 then .ok (0, s)
    else if c < 0x80 || 0xE0 ≤ c then .ok (toSigned 8 c.toNat, s)
    else match c.toNat with
      | 0xCC => natural 1
      | 0xCD => natural 2
      | 0xCE => natural 4
      | 0xCF => natural 8
      | 0xD0 => signed 1
      | 0xD1 => signed 2
      | 0xD2 => signed 4
      | 0xD3 => signed 8
      | _ => .error (.badCode c wanted)

/-- The length that stands before bytes or a text; nothing stands for no text. -/
def readLength : Reading (Option Nat)
  | [] => .error .ended
  | c :: s =>
    if c = 0xC0 then .ok (none, s)
    else if 0xA0 ≤ c && c ≤ 0xBF then .ok (some (c.toNat - 0xA0), s)
    else match c.toNat with
      | 0xC4 | 0xD9 => takeLength 1 s
      | 0xC5 | 0xDA => takeLength 2 s
      | 0xC6 | 0xDB => takeLength 4 s
      | _ => .error (.badCode c "string/bytes length")

/-- A text, or bytes that are none. -/
def readText : Reading Bytes := fun s => do
  let (n, s) ← readLength s
  takeBytes (n.getD 0) s

/-- The number of items of a list; nothing stands for no list. -/
def readListHead : Reading (Option Nat)
  | [] => .error .ended
  | c :: s =>
    if c = 0xC0 then .ok (none, s)
    else if 0x90 ≤ c && c ≤ 0x9F then .ok (some (c.toNat - 0x90), s)
    else if c = 0xDC then takeLength 2 s
    else if c = 0xDD then takeLength 4 s
    else .error (.badCode c "array length")

/-- The number of pairs of a map; nothing stands for no map. -/
def readMapHead : Reading (Option Nat)
  | [] => .error .ended
  | c :: s =>
    if c = 0xC0 then .ok (none, s)
    else if 0x80 ≤ c && c ≤ 0x8F then .ok (some (c.toNat - 0x80), s)
    else if c = 0xDE then takeLength 2 s
    else if c = 0xDF then takeLength 4 s
    else .error (.badCode c "map length")

/-- A number of items one after the other.  No more items than bytes are looked for. -/
def readMany {α : Type} (read : Reading α) : (fuel n : Nat) → Reading (List α)
  | _, 0, s => .ok ([], s)
  | 0, _ + 1, _ => .error .ended
  | fuel + 1, n + 1, s => do
    let (a, s) ← read s
    let (as, s) ← readMany read fuel n s
    return (a :: as, s)

/-- A list of texts; nothing stands for no list. -/
def readTexts : Reading (Option (List Bytes)) := fun s => do
  let (n, s) ← readListHead s
  match n with
  | none => return (none, s)
  | some n =>
    let (texts, s) ← readMany readText s.length n s
    return (some texts, s)

/-! ## Items of any kind -/

/-- What follows the first byte `c` of an item: what is left behind the item itself, and how many
items are inside it. -/
def skipHead (c : UInt8) (s : Bytes) : Except ReadError (Nat × Bytes) :=
  let past (count : Nat) : Except ReadError (Nat × Bytes) := do
    return (0, (← takeBytes count s).2)
  let inside (times : Nat) (head : Except ReadError (Option Nat × Bytes)) :
      Except ReadError (Nat × Bytes) := do
    let (n, rest) ← head
    return (times * n.getD 0, rest)
  let extension (count : Nat) : Except ReadError (Nat × Bytes) := do
    let (n, rest) ← takeNat count s
    return (0, (← takeBytes (n + 1) rest).2)
  if c < 0x80 || 0xE0 ≤ c then .ok (0, s)
  else if c < 0x90 || c = 0xDE || c = 0xDF then inside 2 (readMapHead (c :: s))
  else if c < 0xA0 || c = 0xDC || c = 0xDD then inside 1 (readListHead (c :: s))
  else match c.toNat with
    | 0xC0 | 0xC2 | 0xC3 => .ok (0, s)
    | 0xC1 => .error (.unknownCode c)
    | 0xCC | 0xD0 => past 1
    | 0xCD | 0xD1 => past 2
    | 0xCE | 0xD2 | 0xCA => past 4
    | 0xCF | 0xD3 | 0xCB => past 8
    | 0xD4 => past 2
    | 0xD5 => past 3
    | 0xD6 => past 5
    | 0xD7 => past 9
    | 0xD8 => past 17
    | 0xC7 => extension 1
    | 0xC8 => extension 2
    | 0xC9 => extension 4
    | _ => do return (0, (← readText (c :: s)).2)

/-- What is left after `n` items of any kind.  No more items than bytes are looked for. -/
def skip : (fuel n : Nat) → Bytes → Except ReadError Bytes
  | _, 0, s => .ok s
  | 0, _ + 1, _ => .error .ended
  | _ + 1, _ + 1, [] => .error .ended
  | fuel + 1, n + 1, c :: s => do
    let (more, rest) ← skipHead c s
    skip fuel (n + more) rest

end Storyline.Msgpack
