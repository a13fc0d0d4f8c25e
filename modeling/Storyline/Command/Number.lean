import Storyline.Text.Quoted

/-!
# Numbers and durations on a command line

An integer may have a sign, a prefix that says its base, and underscores between its digits; it has
at most 64 bits.  A duration is a sign and a row of numbers with units.
-/

namespace Storyline.Command

/-! ## Integers -/

/-- Why a text is no integer. -/
inductive IntegerFault where
  | malformed
  | outOfRange
deriving DecidableEq, Repr, Inhabited

/-- The base that a text without sign is written in, and its digits. -/
def baseOf : Bytes → Nat × Bytes
  | 0x30 :: mark :: digits =>
    let mark' := Bytes.lowerByte mark
    if mark' = 'b' && !digits.isEmpty then (2, digits)
    else if mark' = 'o' && !digits.isEmpty then (8, digits)
    else if mark' = 'x' && !digits.isEmpty then (16, digits)
    else (8, mark :: digits)
  | [0x30] => (8, [])
  | digits => (10, digits)

/-- The value of a digit or letter. -/
def digitValue? (b : UInt8) : Option Nat :=
  if Bytes.isLetter b then some ((Bytes.lowerByte b).toNat - 87) else Bytes.digit? b

/-- Reads digits onto `n`, passing over underscores. -/
def readDigits (base : Nat) : (n : Nat) → Bytes → Except IntegerFault Nat
  | n, [] => .ok n
  | n, b :: rest =>
    if b = '_' then readDigits base n rest
    else match (digitValue? b).filter (· < base) with
      | none => .error .malformed
      | some d =>
        if n * base + d < 0x10000000000000000 then readDigits base (n * base + d) rest
        else .error .outOfRange

/-- Whether underscores stand only between digits; `afterDigit` says whether a digit came last. -/
def underscoresFit : (afterDigit : Bool) → Bytes → Bool
  | afterDigit, [] => afterDigit
  | afterDigit, b :: rest =>
    if b = '_' then afterDigit && underscoresFit false rest else underscoresFit true rest

/-- Whether the underscores of a text without sign stand where they may. -/
def goodUnderscores (s : Bytes) : Bool :=
  let (base, digits) := baseOf s
  if base = 10 || base = 8 && !((s.drop 1).head?.any fun b => Bytes.lowerByte b = 'o') then
    underscoresFit false s
  else underscoresFit true digits

/-- The number that a text without sign stands for. -/
def readMagnitude (s : Bytes) : Except IntegerFault Nat := do
  if s.isEmpty then throw .malformed
  let (base, digits) := baseOf s
  let n ← readDigits base 0 digits
  if s.contains ('_' : UInt8) && !goodUnderscores s then throw .malformed
  return n

/-- The integer that a text stands for. -/
def readInteger (s : Bytes) : Except IntegerFault Int :=
  let bounded (r : Except IntegerFault Nat) (limit : Nat) : Except IntegerFault Nat :=
    r.bind fun n => if n ≤ limit then .ok n else .error .outOfRange
  match s with
  | 0x2B :: rest => (bounded (readMagnitude rest) 0x7FFFFFFFFFFFFFFF).map Int.ofNat
  | 0x2D :: rest => (bounded (readMagnitude rest) 0x8000000000000000).map fun n => -(n : Int)
  | rest => (bounded (readMagnitude rest) 0x7FFFFFFFFFFFFFFF).map Int.ofNat

/-! ## Durations -/

/-- Why a text is no duration. -/
inductive DurationFault where
  | malformed
  | noUnit
  | unknownUnit (written : Bytes)
deriving DecidableEq, Repr, Inhabited

/-- A text between double quotes, with bytes outside printable ASCII by number. -/
def plainQuoted (s : Bytes) : Bytes :=
  let shown (b : UInt8) : Bytes :=
    if b < 0x20 || 0x80 ≤ b then "\\x" ++ Bytes.hexPadded 2 b.toNat
    else if b = '"' || b = '\\' then [('\\' : UInt8), b]
    else [b]
  "\"" ++ s.flatMap shown ++ "\""

/-- What is said of a text that is no duration. -/
def DurationFault.message (whole : Bytes) : DurationFault → Bytes
  | malformed => "time: invalid duration " ++ plainQuoted whole
  | noUnit => "time: missing unit in duration " ++ plainQuoted whole
  | unknownUnit u => "time: unknown unit " ++ plainQuoted u ++ " in duration " ++ plainQuoted whole

/-- The units and how many nanoseconds they have. -/
def units : List (Bytes × Nat) :=
  [("ns", 1), ("us", 1000), ("µs", 1000), ("μs", 1000), ("ms", 1000000), ("s", 1000000000),
    ("m", 60000000000), ("h", 3600000000000)]

/-- How many nanoseconds a duration may have. -/
def maxNanos : Nat := 0x8000000000000000

/-- Whether a byte belongs to a number. -/
def isNumeric (b : UInt8) : Bool := b = '.' || Bytes.isDigit b

/-- One number with a unit as nanoseconds, and what follows it. -/
def readPart (s : Bytes) : Except DurationFault (Nat × Bytes) := do
  let (whole, rest) := s.span Bytes.isDigit
  let (places, rest) := match rest with
    | 0x2E :: rest => rest.span Bytes.isDigit
    | rest => ([], rest)
  if whole.isEmpty && places.isEmpty then throw .malformed
  let n := (Bytes.toNat? whole).getD 0
  if maxNanos < n then throw .malformed
  let (unit, rest) := rest.span fun b => !isNumeric b
  if unit.isEmpty then throw .noUnit
  match units.lookup unit with
  | none => throw (.unknownUnit unit)
  | some size =>
    let value := n * size + (Bytes.toNat? places).getD 0 * size / Nat.pow 10 places.length
    if maxNanos < value then throw .malformed
    return (value, rest)

/-- At most `fuel` numbers with units, added to `total`. -/
def readParts : (fuel : Nat) → (total : Nat) → Bytes → Except DurationFault Nat
  | 0, total, _ => .ok total
  | fuel + 1, total, s =>
    if s.isEmpty then .ok total
    else match readPart s with
      | .error f => .error f
      | .ok (n, rest) =>
        if maxNanos < total + n then .error .malformed else readParts fuel (total + n) rest

/-- The nanoseconds of a duration. -/
def readDuration (s : Bytes) : Except DurationFault Int := do
  let (negative, rest) := match s with
    | 0x2D :: rest => (true, rest)
    | 0x2B :: rest => (false, rest)
    | rest => (false, rest)
  if rest = ("0" : Bytes) then return 0
  if rest.isEmpty then throw .malformed
  let n ← readParts (rest.length + 1) 0 rest
  if negative then return -(n : Int)
  if n = maxNanos then throw .malformed
  return n

end Storyline.Command
