import Storyline.Diagnostic.Basic

/-!
# Bags of diagnostics

A bag collects diagnostics in the order they are reported.  With a positive limit it refuses
further ones once it is full and only counts them.
-/

namespace Storyline

/-- Collected diagnostics. -/
structure Bag where
  items : Array Diagnostic := #[]
  /-- How many diagnostics fit; zero or less means any number. -/
  limit : Int := 0
  /-- How many were refused. -/
  dropped : Nat := 0
deriving DecidableEq, Repr, Inhabited

namespace Bag

/-- An empty bag. -/
def withLimit (limit : Int) : Bag := { limit }

/-- Whether the bag takes no more. -/
def isFull (b : Bag) : Bool := 0 < b.limit && b.limit ≤ b.items.size

/-- The bag with one more diagnostic, or with one more refusal. -/
def add (b : Bag) (d : Diagnostic) : Bag :=
  if b.isFull then { b with dropped := b.dropped + 1 } else { b with items := b.items.push d }

/-- The bag with the diagnostics of another added in order, as far as they fit. -/
def merge (b : Bag) (ds : List Diagnostic) : Bag := ds.foldl add b

/-- Whether any diagnostic is an error. -/
def hasErrors (b : Bag) : Bool := b.items.any Diagnostic.isError

/-- The bag in reading order. -/
def sort (b : Bag) : Bag := { b with items := (Diagnostic.sorted b.items.toList).toArray }

/-- The bag without repetitions. -/
def dedup (b : Bag) : Bag := { b with items := (Diagnostic.distinct b.items.toList).toArray }

end Bag

/-- A filter in front of a bag that lets each diagnostic through once. -/
structure Distinct where
  bag : Bag
  /-- What was let through, accepted by the bag or not. -/
  seen : List (Code × Span × Bytes) := []
deriving Repr, Inhabited

/-- Reports a diagnostic unless it was reported before. -/
def Distinct.report (r : Distinct) (d : Diagnostic) : Distinct :=
  if r.seen.contains d.identity then r
  else { bag := r.bag.add d, seen := d.identity :: r.seen }

end Storyline
