import Storyline.Toml.Error

/-!
# Numbers, dates and times

A number or a moment is first cut out of the text by the characters it may have; here its spelling
is judged.  Integers have 64 bits.  Of floating-point numbers and moments only the spelling is kept,
and they are accepted exactly if they stand for something: a double-precision number that is not
beyond the largest one, or a day of the calendar, a time of the day, or both.
-/

namespace Storyline.Toml

/-- Whether every underscore stands after a digit and the spelling ends with one.  Hexadecimal
digits count. -/
def underscoresOk (s : Bytes) : Bool :=
  let words : List Bytes := ["nan", "+nan", "-nan", "inf", "+inf", "-inf"]
  words.contains s ||
    (s.foldl (fun (ok, after) (b : UInt8) =>
      (ok && (b != '_' || after), (Bytes.hexDigit? b).isSome)) (true, false) |> fun r => r.1 && r.2)

/-- Whether a number starts with a zero that does not belong there. -/
def hasLeadingZero : Bytes → Bool
  | 48 :: b :: _ => !(b = 'b' || b = 'o' || b = 'x')
  | s :: 48 :: _ :: _ => s = '-' || s = '+'
  | _ => false

/-- Whether every period is followed by a digit. -/
def periodsOk : Bytes → Bool
  | [] => true
  | 46 :: rest => (match rest with | b :: _ => Bytes.isDigit b | [] => false) && periodsOk rest
  | _ :: rest => periodsOk rest

/-- The sign at the start of a number, as its value, and what follows. -/
def sign : Bytes → Int × Bytes
  | 45 :: s => (-1, s)
  | 43 :: s => (1, s)
  | s => (1, s)

/-- The integer that a spelling without underscores stands for. -/
def integerOf (s : Bytes) : Int :=
  let (positive, digits) := sign s
  let base (b : Nat) (ds : Bytes) : Nat := (Bytes.readNat? b Bytes.hexDigit? ds).getD 0
  positive * match digits with
    | 48 :: 98 :: ds => base 2 ds
    | 48 :: 111 :: ds => base 8 ds
    | 48 :: 120 :: ds => base 16 ds
    | ds => base 10 ds

/-- A spelling without its underscores. -/
def plainDigits (s : Bytes) : Bytes := s.filter (· != '_')

/-- Reads an integer. -/
def integer (s : Bytes) : Except Mistake Value :=
  if !underscoresOk s then .error (.underscores true s)
  else if hasLeadingZero s then .error (.leadingZeros true s)
  else
    let n := integerOf (plainDigits s)
    if n < -0x8000000000000000 || 0x8000000000000000 ≤ n then .error (.outOfRange s true)
    else .ok (.integer n)

/-! ## Floating-point numbers -/

/-- A decimal number: all its digits, and the power of ten they are multiplied by. -/
structure Decimal where
  digits : Nat
  exponent : Int
deriving DecidableEq, Repr

/-- The decimal number that a spelling without a sign stands for: digits, perhaps a period and
more digits, perhaps an exponent. -/
def Decimal.ofBytes? (s : Bytes) : Option Decimal := do
  let (whole, rest) := s.span Bytes.isDigit
  let (fraction, rest) := match rest with
    | 46 :: rest => rest.span Bytes.isDigit
    | rest => ([], rest)
  let digits ← Bytes.toNat? (whole ++ fraction)
  let power ← match rest with
    | [] => some (0 : Int)
    | e :: rest =>
      if e = 'e' || e = 'E' then
        let (positive, ds) := sign rest
        (Bytes.toNat? ds).map fun n => positive * (min n 10000 : Nat)
      else none
  return ⟨digits, power - fraction.length⟩

/-- Whether a decimal number is so large that the nearest double-precision number is infinite. -/
def Decimal.overflows (d : Decimal) : Bool :=
  let bound := Nat.pow 2 1024 - Nat.pow 2 970
  if d.digits = 0 then false
  else if 0 ≤ d.exponent then
    decide (400 ≤ d.exponent) || decide (bound ≤ d.digits * Nat.pow 10 d.exponent.toNat)
  else decide (bound * Nat.pow 10 (-d.exponent).toNat ≤ d.digits)

/-- The parts of a floating-point number between periods and exponent marks. -/
def floatParts (s : Bytes) : List Bytes :=
  let marked : Bytes := s.map fun (b : UInt8) => if b = 'e' || b = 'E' then ('.' : UInt8) else b
  (Bytes.splitOnByte '.' marked).filter fun p => !p.isEmpty

/-- Reads a floating-point number. -/
def float (s : Bytes) : Except Mistake Value :=
  let parts := floatParts s
  if !parts.all underscoresOk then .error (.underscores false s)
  else if hasLeadingZero (parts.headD []) then .error (.leadingZeros false s)
  else if !periodsOk s then .error (.fractionMissing s)
  else
    let (_, size) := sign (plainDigits s)
    if size = ("nan" : Bytes) || size = ("inf" : Bytes) then .ok (.float s)
    else match Decimal.ofBytes? size with
      | none => .error (.notFloat s)
      | some d => if d.overflows then .error (.outOfRange s false) else .ok (.float s)

/-! ## Dates and times -/

/-- Two digits that spell a number, and what follows them. -/
def twoDigits? : Bytes → Option (Nat × Bytes)
  | a :: b :: s => do return (10 * (← Bytes.digit? a) + (← Bytes.digit? b), s)
  | _ => none

/-- Whether a year has a leap day. -/
def isLeap (year : Nat) : Bool := year % 4 = 0 && (year % 100 != 0 || year % 400 = 0)

/-- How many days a month has, the months being counted from 1. -/
def daysIn (year month : Nat) : Nat :=
  if month = 2 then (if isLeap year then 29 else 28)
  else if [4, 6, 9, 11].contains month then 30 else 31

/-- What follows a day of the calendar. -/
def afterDate? (s : Bytes) : Option Bytes := do
  let year ← Bytes.toNat? (s.take 4)
  let (month, s) ← twoDigits? (← Bytes.stripPrefix? "-" (s.drop 4))
  let (day, s) ← twoDigits? (← Bytes.stripPrefix? "-" s)
  if month = 0 || 12 < month || day = 0 || daysIn year month < day then none else some s

/-- What follows a time of the day; the hour may have one digit, and the seconds a fraction. -/
def afterTime? (s : Bytes) : Option Bytes := do
  let oneDigit : Option (Nat × Bytes) := do return (← Bytes.digit? (← s.head?), s.tail)
  let (hour, s) ← twoDigits? s <|> oneDigit
  let (minute, s) ← twoDigits? (← Bytes.stripPrefix? ":" s)
  let (second, s) ← twoDigits? (← Bytes.stripPrefix? ":" s)
  if 24 ≤ hour || 60 ≤ minute || 60 ≤ second then none
  else match s with
    | 46 :: b :: rest => if Bytes.isDigit b then some (rest.dropWhile Bytes.isDigit) else some s
    | _ => some s

/-- Whether a text is the distance of a time zone from universal time. -/
def isZone (s : Bytes) : Bool :=
  s = ("Z" : Bytes) || match s with
    | 43 :: s | 45 :: s => (do
        let (hours, s) ← twoDigits? s
        let (minutes, s) ← twoDigits? (← Bytes.stripPrefix? ":" s)
        return decide (hours ≤ 24) && decide (minutes ≤ 60) && s.isEmpty).getD false
    | _ => false

/-- Whether a text is a date, a time, or both with or without a zone. -/
def isMoment (s : Bytes) : Bool :=
  match afterDate? s with
  | some [] => true
  | some (84 :: time) => match afterTime? time with
    | some rest => rest.isEmpty || isZone rest
    | none => false
  | some _ => false
  | none => afterTime? s = some []

/-- Reads a date, a time, or both; the mark between them and the zone may be small letters, and
the mark may be a space. -/
def moment (s : Bytes) : Except Mistake Value :=
  let spelled : Bytes := s.map fun (b : UInt8) =>
    if b = 'z' then ('Z' : UInt8) else if b = 't' || b = ' ' then 'T' else b
  if isMoment spelled then .ok (.moment spelled) else .error (.notMoment spelled)

end Storyline.Toml
