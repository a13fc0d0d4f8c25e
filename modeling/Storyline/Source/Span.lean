import Storyline.Text.Bytes

/-!
# Spans

A span is a half-open byte range in one file.  Offsets are 32-bit words kept as natural numbers:
wherever two of them are added or subtracted the result goes round modulo 2^32, and `Word` names
these two operations.
-/

namespace Storyline

namespace Word

/-- One more than the largest 32-bit word. -/
def modulus : Nat := 4294967296

/-- The sum of two words, modulo 2^32. -/
def add (a b : Nat) : Nat := (a + b) % modulus

/-- The difference of two words, modulo 2^32. -/
def sub (a b : Nat) : Nat := (a + modulus - b % modulus) % modulus

end Word

/-- Identifies a source file. -/
abbrev FileId := Nat

/-- The bytes `start ≤ i < stop` of a file. -/
structure Span where
  file : FileId
  start : Nat
  stop : Nat
deriving DecidableEq, Repr, Inhabited

namespace Span

/-- Whether no byte is covered; a span may also run backwards, which counts as not empty. -/
def isEmpty (s : Span) : Bool := s.start = s.stop

/-- The distance from start to stop. -/
def length (s : Span) : Nat := Word.sub s.stop s.start

/-- Whether an offset falls inside the span. -/
def contains (s : Span) (offset : Nat) : Bool := s.start ≤ offset && offset < s.stop

/-- Whether `inner` lies within `outer`, files aside. -/
def encloses (outer inner : Span) : Bool := outer.start ≤ inner.start && inner.stop ≤ outer.stop

/-- The smallest span around both; spans of different files are not merged. -/
def cover (s t : Span) : Span :=
  if s.file = t.file then { s with start := min s.start t.start, stop := max s.stop t.stop } else s

/-- Moves a span that is local to an embedded fragment into the file that holds it. -/
def shift (s : Span) (base : Nat) (file : FileId) : Span :=
  ⟨file, Word.add s.start base, Word.add s.stop base⟩

/-- A span as `file:start-stop`. -/
def describe (s : Span) : Bytes :=
  Bytes.ofNat s.file ++ ":" ++ Bytes.ofNat s.start ++ "-" ++ Bytes.ofNat s.stop

end Span

end Storyline
