import Storyline.Trace.Event

/-!
# Tracers

A tracer writes events as they happen and may keep the last ones.  Further values belong to a span:
an event that was kept shows those that its span has when it is looked at.

What is kept is in a ring, which holds the latest values that were pushed, as many as it has slots.
A push goes into the slot at the head and moves the head on, back to the first slot behind the last
one; from then on the ring is full, and the oldest value stands at the head.  `Ring.toList` is the
view: the values that were pushed and not yet replaced, the oldest first.

What a computation tells of itself is a list of marks: a part begins, the part that is going on
gets a further value, and it ends.  `Tracer.follow` turns marks into spans, each inside the one that
was going on when it began.
-/

namespace Storyline.Trace

/-! ## Rings -/

/-- The latest values of a sequence. -/
structure Ring (α : Type) where
  /-- The places for values, all made at once; one that was not written yet holds the default. -/
  slots : Array α
  /-- The slot that the next value goes into. -/
  head : Nat := 0
  /-- Whether every slot was written. -/
  full : Bool := false
deriving DecidableEq, Repr, Inhabited

namespace Ring

variable {α : Type}

/-- The room of a ring for which no size is given. -/
def defaultCapacity : Nat := 1024

/-- How many values a ring has room for. -/
def capacity (r : Ring α) : Nat := r.slots.size

/-- An empty ring of a given size; a size that is not positive asks for the default. -/
def ofSize [Inhabited α] (size : Int) : Ring α :=
  { slots := Array.replicate (if 0 < size then size.toNat else defaultCapacity) default }

/-- Writes a value into the slot at the head. -/
def push (r : Ring α) (a : α) : Ring α :=
  let head := (r.head + 1) % r.slots.size
  { slots := r.slots.setIfInBounds r.head a, head, full := r.full || head == 0 }

/-- The values in the ring, the oldest first. -/
def toList (r : Ring α) : List α :=
  if r.full then r.slots.toList.drop r.head ++ r.slots.toList.take r.head
  else r.slots.toList.take r.head

end Ring

/-! ## Tracers -/

/-- A part of a command. -/
structure Span where
  /-- Its number; 0 if the level does not tell of it. -/
  id : Nat
  parent : Nat
  scope : Scope
  name : Bytes
  extra : List (Bytes × Bytes) := []
deriving DecidableEq, Repr, Inhabited

/-- Whether a span is told of. -/
def Span.isLive (s : Span) : Bool := s.id != 0

/-- An event that was kept. -/
structure Kept where
  event : Event
  /-- The number of the span that shows its further values, if it had any. -/
  owner : Option Nat
deriving DecidableEq, Repr, Inhabited

/-- A tracer. -/
structure Tracer where
  level : Level
  format : Style := .text
  /-- The last events, if they are kept. -/
  ring : Option (Ring Kept) := none
  /-- What was written. -/
  output : Bytes := []
  /-- The spans that began. -/
  spans : Array Span := #[]
  /-- How many spans are told of. -/
  live : Nat := 0
  /-- How many events were written. -/
  written : Nat := 0
deriving DecidableEq, Repr, Inhabited

namespace Tracer

/-- A tracer that keeps the last `size` events, or none if that is not positive. -/
def ofLevel (level : Level) (format : Style) (size : Int) : Tracer :=
  { level, format, ring := if 0 < size then some (.ofSize size) else none }

/-- Whether anything can be told. -/
def isEnabled (t : Tracer) : Bool := t.level != .off

/-- Whether the last events are kept. -/
def keepsEvents (t : Tracer) : Bool := t.isEnabled && t.ring.isSome

/-- The thread that everything happens on. -/
def mainThread : Nat := 1

/-- Tells of an event; `owner` is the span whose further values it shows. -/
def emit (t : Tracer) (e : Event) (owner : Option Nat) : Tracer :=
  let t := if t.isEnabled then { t with ring := t.ring.map (·.push ⟨e, owner⟩) } else t
  if t.level.emits e.scope then
    let e := { e with sequence := t.written + 1 }
    { t with written := t.written + 1, output := t.output ++ e.write t.format }
  else t

/-- The event that tells of a span. -/
def eventOf (s : Span) (kind : Kind) (now : Instant) (detail : Bytes) : Event :=
  { time := now, kind, scope := s.scope, span := s.id, parent := s.parent, thread := mainThread,
    name := s.name, detail, extra := s.extra }

/-- Begins a span; its number among the spans is the old size. -/
def start (t : Tracer) (now : Instant) (scope : Scope) (name : Bytes) (parent : Nat) : Tracer :=
  if t.isEnabled && t.level.emits scope then
    let s : Span := { id := t.live + 1, parent, scope, name }
    let t := { t with live := t.live + 1, spans := t.spans.push s }
    t.emit (eventOf s .spanBegin now []) none
  else { t with spans := t.spans.push { id := 0, parent := 0, scope, name } }

/-- The span that began at a place, if it is told of. -/
def span? (t : Tracer) (index : Nat) : Option Span := (t.spans[index]?).filter Span.isLive

/-- Ends the span that began at a place. -/
def stop (t : Tracer) (now : Instant) (index : Nat) (detail : Bytes) : Tracer :=
  match t.span? index with
  | none => t
  | some s => t.emit (eventOf s .spanEnd now detail) (if s.extra.isEmpty then none else some index)

/-- Names and values with one more, by name; a name has one value. -/
def putExtra (extra : List (Bytes × Bytes)) (name value : Bytes) : List (Bytes × Bytes) :=
  Bytes.sortOn (·.1) ((name, value) :: extra.filter fun p => p.1 != name)

/-- Gives a span a further value. -/
def addExtra (t : Tracer) (index : Nat) (name value : Bytes) : Tracer :=
  match t.span? index with
  | none => t
  | some _ =>
    { t with spans := t.spans.modify index fun s =>
      { s with extra := putExtra s.extra name value } }

/-- Tells of a point. -/
def point (t : Tracer) (now : Instant) (scope : Scope) (name detail : Bytes) : Tracer :=
  if t.isEnabled && t.level.emits scope then
    t.emit { time := now, kind := .point, scope, thread := mainThread, name, detail } none
  else t

/-- The events that are kept, with the values that their spans have now. -/
def recent (t : Tracer) : List Event :=
  (t.ring.elim [] Ring.toList).map fun k => match k.owner.bind fun i => t.spans[i]? with
    | some s => { k.event with extra := s.extra }
    | none => k.event

/-- The events that are kept, as text. -/
def dump (t : Tracer) : Bytes := t.recent.flatMap Event.toText

end Tracer

/-! ## Marks -/

/-- What a computation tells of itself. -/
inductive Mark where
  | enter (scope : Scope) (name : Bytes)
  | tell (name value : Bytes)
  | leave (detail : Bytes)
deriving DecidableEq, Repr, Inhabited

/-- A part that ends where it begins. -/
def Mark.whole (scope : Scope) (name detail : Bytes) : List Mark := [enter scope name, leave detail]

namespace Tracer

/-- The number that spans inside the one at a place name as theirs. -/
def parentOf (t : Tracer) : List Nat → Nat
  | [] => 0
  | index :: _ => ((t.span? index).map (·.id)).getD 0

/-- Turns a mark into an event; `going` are the places of the spans that are going on, the
innermost first. -/
def followOne (now : Instant) (state : Tracer × List Nat) (m : Mark) : Tracer × List Nat :=
  let (t, going) := state
  match m with
  | .enter scope name =>
    (t.start now scope name (t.parentOf going), t.spans.size :: going)
  | .tell name value =>
    (going.head?.elim t fun index => t.addExtra index name value, going)
  | .leave detail =>
    (going.head?.elim t fun index => t.stop now index detail, going.drop 1)

/-- Turns marks into events inside the spans that are going on; gives those that are then. -/
def follow (t : Tracer) (now : Instant) (going : List Nat) (marks : List Mark) :
    Tracer × List Nat :=
  marks.foldl (followOne now) (t, going)

end Tracer

end Storyline.Trace
