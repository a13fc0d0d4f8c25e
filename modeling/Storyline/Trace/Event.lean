import Storyline.Json.Writer
import Storyline.Text.Bytes
import Storyline.Text.Case
import Storyline.Text.Quoted

/-!
# Events of a trace

A trace tells what a command does: spans that begin and end, and points in between.  How much of it
is told depends on the level; each event has a scope, from a whole command down to a single node.

Events happen at points in time, nanoseconds since the start of 1970, universal time.  They are
written as a time of the day with milliseconds, or as date and time with as many places as needed.
-/

namespace Storyline.Trace

/-! ## Instants -/

/-- A point in time. -/
structure Instant where
  nanoseconds : Int
deriving DecidableEq, Repr, Inhabited

/-- A day of the calendar. -/
structure Date where
  year : Int
  month : Nat
  day : Nat
deriving DecidableEq, Repr, Inhabited

/-- The day that comes `n` days after the first of March of the year 0.  Years are counted from
March on, so that a leap day is the last day of its year; `era` counts 400 years. -/
def Date.ofDays (n : Int) : Date :=
  let era := n.fdiv 146097
  let inEra := (n.fmod 146097).toNat
  let yearInEra := (inEra - inEra / 1460 + inEra / 36524 - inEra / 146096) / 365
  let dayInYear := inEra - (365 * yearInEra + yearInEra / 4 - yearInEra / 100)
  let fromMarch := (5 * dayInYear + 2) / 153
  let day := dayInYear - (153 * fromMarch + 2) / 5 + 1
  let month := if fromMarch < 10 then fromMarch + 3 else fromMarch - 9
  { year := era * 400 + yearInEra + (if month ≤ 2 then 1 else 0), month, day }

namespace Instant

/-- A number with leading zeros. -/
def zeroPadded (width n : Nat) : Bytes :=
  let digits := Bytes.ofNat n
  List.replicate (width - digits.length) ('0' : UInt8) ++ digits

/-- The nanoseconds that have passed of the day. -/
def ofDay (i : Instant) : Nat := (i.nanoseconds.fmod 86400000000000).toNat

/-- The day. -/
def date (i : Instant) : Date := Date.ofDays (i.nanoseconds.fdiv 86400000000000 + 719468)

/-- The time of the day, in whole seconds. -/
def clock (i : Instant) : Bytes :=
  let seconds := i.ofDay / 1000000000
  zeroPadded 2 (seconds / 3600) ++ ":" ++ zeroPadded 2 (seconds / 60 % 60) ++ ":"
    ++ zeroPadded 2 (seconds % 60)

/-- The time of the day with milliseconds, cut off. -/
def time (i : Instant) : Bytes :=
  i.clock ++ "." ++ zeroPadded 3 (i.ofDay / 1000000 % 1000)

/-- Date and time, with the places of a second that are not zero. -/
def stamp (i : Instant) : Bytes :=
  let d := i.date
  let places := (zeroPadded 9 (i.ofDay % 1000000000)).trimRight (· = '0')
  let fraction : Bytes := if places.isEmpty then [] else "." ++ places
  zeroPadded 4 d.year.toNat ++ "-" ++ zeroPadded 2 d.month ++ "-" ++ zeroPadded 2 d.day ++ "T"
    ++ i.clock ++ fraction ++ "Z"

end Instant

/-! ## Kinds and scopes -/

/-- What an event tells; numbers without a meaning are possible. -/
structure Kind where
  number : Nat
deriving DecidableEq, Repr, Inhabited

namespace Kind

def spanBegin : Kind := ⟨1⟩
def spanEnd : Kind := ⟨2⟩
def point : Kind := ⟨3⟩

/-- The name of a kind. -/
def name (k : Kind) : String :=
  if k = spanBegin then "begin" else if k = spanEnd then "end" else if k = point then "point"
  else "unknown"

/-- The sign of a kind in text. -/
def sign (k : Kind) : Bytes :=
  if k = spanBegin then "→ " else if k = spanEnd then "← " else "• "

end Kind

/-- What an event is about, larger things first; numbers without a meaning are possible. -/
structure Scope where
  rank : Nat
deriving DecidableEq, Repr, Inhabited

namespace Scope

def command : Scope := ⟨1⟩
def phase : Scope := ⟨2⟩
def file : Scope := ⟨3⟩
def node : Scope := ⟨4⟩

/-- The name of a scope. -/
def name (s : Scope) : String :=
  if s = command then "command" else if s = phase then "phase" else if s = file then "file"
  else if s = node then "node" else "unknown"

end Scope

/-! ## Levels -/

/-- How much is told. -/
inductive Level where
  | off
  /-- Nothing is written, but a failure may show what happened last. -/
  | error
  | phase
  | detail
  | debug
deriving DecidableEq, Repr, Inhabited

namespace Level

def all : List Level := [off, error, phase, detail, debug]

/-- The name of a level. -/
def name : Level → String
  | off => "off"
  | error => "error"
  | phase => "phase"
  | detail => "detail"
  | debug => "debug"

/-- The level with a name, whatever the case of its letters. -/
def ofName? (s : Bytes) : Option Level :=
  all.find? fun l => Bytes.sameLetters l.name s

/-- What is said of a name that no level has. -/
def unknownMessage (s : Bytes) : Bytes :=
  "invalid trace level " ++ Text.quoted s ++ " (want off|error|phase|detail|debug)"

/-- Whether events of a scope are told. -/
def emits (l : Level) (s : Scope) : Bool :=
  match l with
  | off | error => false
  | phase => s.rank ≤ Scope.phase.rank
  | detail => s.rank ≤ Scope.file.rank
  | debug => true

end Level

/-! ## Events -/

/-- How events are written. -/
inductive Style where
  | text
  /-- One JSON object for each event. -/
  | lines
deriving DecidableEq, Repr, Inhabited

namespace Style

/-- The format with a name, whatever the case of its letters; no name means text. -/
def ofName? (s : Bytes) : Option Style :=
  let s := s.lowered
  if s.isEmpty || s = ("text" : Bytes) then some .text
  else if s = ("ndjson" : Bytes) || s = ("json" : Bytes) then some .lines
  else none

/-- What is said of a name that no format has. -/
def unknownMessage (s : Bytes) : Bytes :=
  "invalid trace format " ++ Text.quoted s ++ " (want text|ndjson)"

end Style

/-- Something that happened. -/
structure Event where
  time : Instant
  /-- The number of the event among those that were written. -/
  sequence : Nat := 0
  kind : Kind
  scope : Scope
  /-- The span it belongs to; 0 for none. -/
  span : Nat := 0
  /-- The span around that one; 0 for none. -/
  parent : Nat := 0
  /-- The thread it happened on; 0 if not known. -/
  thread : Nat := 0
  name : Bytes
  detail : Bytes := []
  /-- Further names and values, by name. -/
  extra : List (Bytes × Bytes) := []
deriving DecidableEq, Repr, Inhabited

namespace Event

/-- An event as a line of text. -/
def toText (e : Event) : Bytes :=
  let indent : Bytes := if 0 < e.parent then "  " else []
  let detail : Bytes := if e.detail.isEmpty then [] else " (" ++ e.detail ++ ")"
  let pairs : List Bytes := e.extra.map fun p => p.1 ++ "=" ++ p.2
  let extra : Bytes := if pairs.isEmpty then [] else " \x7b" ++ Bytes.join ", " pairs ++ "\x7d"
  e.time.time ++ " " ++ Bytes.padRight 7 e.scope.name ++ " " ++ indent ++ e.kind.sign ++ e.name
    ++ detail ++ extra ++ "\n"

/-- An event as a line of JSON; numbers that are 0 and texts that are empty are left out. -/
def toLine (e : Event) : Bytes :=
  let text (s : Bytes) : Json := .string (Json.spell .webSafe s)
  let number (name : String) (n : Nat) : List (String × Json) :=
    if n = 0 then [] else [(name, .nat n)]
  Json.compact (.record (
    [("time", text e.time.stamp), ("seq", .nat e.sequence), ("kind", .str e.kind.name),
      ("scope", .str e.scope.name)]
    ++ number "span_id" e.span ++ number "parent_id" e.parent ++ number "gid" e.thread
    ++ [("name", text e.name)]
    ++ (if e.detail.isEmpty then [] else [("detail", text e.detail)])
    ++ (if e.extra.isEmpty then []
      else [("extra", .object (e.extra.map fun p => (Json.spell .webSafe p.1, text p.2)))])))
    ++ "\n"

/-- An event in a format. -/
def write (e : Event) : Style → Bytes
  | .text => e.toText
  | .lines => e.toLine

end Event

end Storyline.Trace
