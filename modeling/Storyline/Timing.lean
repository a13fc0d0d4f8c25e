import Storyline.Json.Basic

/-!
# Timings

How long the phases of a command take.  Times are whole nanoseconds; they are shown in milliseconds
with two places.  The value shown is the double-precision number nearest to the quotient, and that
number is rounded exactly, so that of two durations that look like ties one may go up and the other
down.
-/

namespace Storyline

/-! ## Rounding -/

/-- A quotient rounded to the nearest integer, a tie to the even one. -/
def roundDiv (num den : Nat) : Nat :=
  let q := num / den
  let twice := 2 * (num % den)
  if twice > den || (twice = den && q % 2 = 1) then q + 1 else q

/-- A number `mantissa * 2 ^ exponent`. -/
structure Dyadic where
  mantissa : Nat
  exponent : Int
deriving DecidableEq, Repr, Inhabited

namespace Dyadic

/-- A quotient rounded to 53 binary digits, a tie to the even one. -/
def nearest (num den : Nat) : Dyadic :=
  if num = 0 || den = 0 then ⟨0, 0⟩
  else
    let scale : Int := (num.log2 : Int) - den.log2 - 52
    let digits (e : Int) : Nat :=
      if 0 ≤ e then roundDiv num (den * Nat.pow 2 e.toNat)
      else roundDiv (num * Nat.pow 2 (-e).toNat) den
    let exponent := if digits scale < Nat.pow 2 52 then scale - 1 else scale
    ⟨digits exponent, exponent⟩

/-- The numerator and the denominator of a number. -/
def fraction (d : Dyadic) : Nat × Nat :=
  if 0 ≤ d.exponent then (d.mantissa * Nat.pow 2 d.exponent.toNat, 1)
  else (d.mantissa, Nat.pow 2 (-d.exponent).toNat)

end Dyadic

/-! ## Durations -/

/-- A duration in nanoseconds. -/
abbrev Nanos := Int

/-- The double-precision number of milliseconds nearest to a duration, without its sign. -/
def milliseconds (n : Nanos) : Dyadic :=
  let (num, den) := (Dyadic.nearest n.natAbs 1).fraction
  Dyadic.nearest num (den * 1000000)

/-- A duration in milliseconds with two places. -/
def shownMilliseconds (n : Nanos) : Bytes :=
  let (num, den) := (milliseconds n).fraction
  let hundredths := roundDiv (num * 100) den
  let sign : Bytes := if n < 0 then "-" else []
  let places := Bytes.ofNat (100 + hundredths % 100) |>.drop 1
  sign ++ Bytes.ofNat (hundredths / 100) ++ "." ++ places

/-- A duration in milliseconds for programs: seven places, less the zeros at the end, tell the
double-precision numbers of all durations apart. -/
def millisecondsJson (n : Nanos) : Json :=
  let (num, den) := (milliseconds n).fraction
  let unit := 10000000
  let scaled := roundDiv (num * unit) den
  let places := Bytes.trimRight (· = '0') ((Bytes.ofNat (unit + scaled % unit)).drop 1)
  let sign : Bytes := if n < 0 then "-" else []
  let fraction : Bytes := if places.isEmpty then [] else "." ++ places
  .number (sign ++ Bytes.ofNat (scaled / unit) ++ fraction)

/-- How many durations there are: they have 64 bits, one of them for the sign. -/
def durationCount : Nat := 0x10000000000000000

/-- The sum of two durations; it starts over at the other end if it is out of range. -/
def Nanos.add (a b : Nanos) : Nanos := Int.bmod (a + b) durationCount

/-- The duration between two times, or the one nearest to it if there is none so long. -/
def Nanos.between (start stop : Nanos) : Nanos :=
  max (-0x8000000000000000) (min 0x7FFFFFFFFFFFFFFF (stop - start))

/-! ## Timers -/

/-- A measured phase. -/
structure Phase where
  name : Bytes
  start : Nanos
  duration : Nanos := 0
  note : Bytes := []
deriving DecidableEq, Repr, Inhabited

/-- The phases of a command in the order they began. -/
structure Timer where
  phases : Array Phase := #[]
deriving DecidableEq, Repr, Inhabited

namespace Timer

/-- Begins a phase at a time; its number is the one before the new size. -/
def start (t : Timer) (now : Nanos) (name : Bytes) : Timer :=
  ⟨t.phases.push { name, start := now }⟩

/-- Ends a phase at a time; a number that no phase has is passed over. -/
def stop (t : Timer) (now : Nanos) (index : Int) (note : Bytes) : Timer :=
  if index < 0 then t
  else ⟨t.phases.modify index.toNat fun p =>
    { p with duration := Nanos.between p.start now, note }⟩

/-- How long all phases took. -/
def total (t : Timer) : Nanos := t.phases.foldl (fun n p => Nanos.add n p.duration) 0

/-- One line of the table of timings. -/
def row (name : Bytes) (duration : Nanos) : Bytes :=
  "  " ++ Bytes.padRight 16 name ++ " " ++ Bytes.padLeft 8 (shownMilliseconds duration) ++ " ms"

/-- The table of timings. -/
def summary (t : Timer) : Bytes :=
  let note (p : Phase) : Bytes := if p.note.isEmpty then [] else "  (" ++ p.note ++ ")"
  let rows : List Bytes := t.phases.toList.map fun p => row p.name p.duration ++ note p ++ "\n"
  "timings:\n" ++ rows.flatten ++ row "total" t.total ++ "\n"

/-- The timings for programs. -/
def report (t : Timer) : Json :=
  let phase (p : Phase) : Json := .record
    ([("name", .text p.name), ("duration_ms", millisecondsJson p.duration)]
      ++ if p.note.isEmpty then [] else [("note", .text p.note)])
  .record [("total_ms", millisecondsJson t.total),
    ("phases", if t.phases.isEmpty then .null else .array (t.phases.toList.map phase))]

end Timer

end Storyline
