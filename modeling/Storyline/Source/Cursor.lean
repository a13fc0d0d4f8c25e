import Storyline.Source.File

/-!
# Cursors

A cursor is an offset into a file's bytes together with a limit that it never reads past.
Lookahead and skipping add 32-bit words, so an argument near 2^32 goes round and names a byte
before the cursor; on arguments that stay below 2^32 they mean what they say.

Operations that move give the moved cursor; going back is setting `offset`.
-/

namespace Storyline

/-- A place in a file's bytes. -/
structure Cursor where
  content : Content
  file : FileId
  offset : Nat
  /-- Exclusive upper bound of `offset`. -/
  limit : Nat
deriving DecidableEq, Repr, Inhabited

namespace Cursor

/-- A cursor at the start of some bytes. -/
def ofContent (content : Content) (file : FileId) : Cursor :=
  ⟨content, file, 0, content.size⟩

/-- A cursor at the start of a file. -/
def ofFile (f : File) : Cursor := ofContent f.content f.id

/-- The byte at an offset. -/
def byteAt (c : Cursor) (i : Nat) : UInt8 := c.content.getD i 0

/-- Whether nothing is left to read. -/
def atEnd (c : Cursor) : Bool := c.limit ≤ c.offset

/-- The next byte, or 0 at the end. -/
def peek (c : Cursor) : UInt8 := if c.atEnd then 0 else c.byteAt c.offset

/-- The byte `n` positions ahead, or 0 past the end. -/
def peekAt (c : Cursor) (n : Nat) : UInt8 :=
  let i := Word.add c.offset n
  if c.limit ≤ i then 0 else c.byteAt i

/-- The cursor moved past one byte, unless it is at the end. -/
def next (c : Cursor) : Cursor := if c.atEnd then c else { c with offset := c.offset + 1 }

/-- The cursor moved by `n` bytes, stopping at the limit. -/
def skip (c : Cursor) (n : Nat) : Cursor :=
  { c with offset := min (Word.add c.offset n) c.limit }

/-- The span from `mark` to the cursor. -/
def spanFrom (c : Cursor) (mark : Nat) : Span := ⟨c.file, mark, c.offset⟩

/-- A span in the cursor's file. -/
def spanAt (c : Cursor) (start stop : Nat) : Span := ⟨c.file, start, stop⟩

/-- The bytes between two offsets, cut off at the limit. -/
def slice (c : Cursor) (start stop : Nat) : Bytes := c.content.slice start (min stop c.limit)

/-- Whether the bytes from `i` up to `stop` start with `p`. -/
def matchesAt (c : Cursor) (i stop : Nat) : Bytes → Bool
  | [] => true
  | b :: p => decide (i < stop) && c.byteAt i = b && matchesAt c (i + 1) stop p

/-- Whether what is left starts with `p`. -/
def hasPrefix (c : Cursor) (p : Bytes) : Bool := p.isEmpty || c.matchesAt c.offset c.limit p

/-- The cursor behind `p`, if what is left starts with it. -/
def eat? (c : Cursor) (p : Bytes) : Option Cursor :=
  if c.hasPrefix p then some { c with offset := c.offset + p.length } else none

/-- The cursor behind the byte `b`, if it is the next one. -/
def eatByte? (c : Cursor) (b : UInt8) : Option Cursor :=
  if !c.atEnd && c.byteAt c.offset = b then some { c with offset := c.offset + 1 } else none

/-- The first `i` from `start`, within `count` steps, at which `p` matches below `stop`. -/
def search (c : Cursor) (p : Bytes) (stop : Nat) : (count start : Nat) → Option Nat
  | 0, _ => none
  | count + 1, i => if c.matchesAt i stop p then some i else search c p stop count (i + 1)

/-- The offset of the first occurrence of `p` between the cursor and `limit`.  The empty text
occurs nowhere. -/
def positionOf? (c : Cursor) (p : Bytes) (limit : Nat) : Option Nat :=
  let stop := min limit c.limit
  if p.isEmpty then none else c.search p stop (stop - c.offset) c.offset

/-- The text before the next occurrence of `p`, and the cursor behind that occurrence. -/
def consumeUntil? (c : Cursor) (p : Bytes) : Option (Bytes × Cursor) :=
  (c.positionOf? p c.limit).map fun i =>
    (c.slice c.offset i, { c with offset := i + p.length })

/-- The offset of the next line ending, or the limit on the last line. -/
def lineEnd (c : Cursor) (crlf : Bool) : Nat :=
  (c.positionOf? (if crlf then "\r\n" else "\n") c.limit).getD c.limit

/-- How many bytes from `i` on, at most `count`, satisfy `p`. -/
def runFrom (c : Cursor) (p : UInt8 → Bool) : (count i : Nat) → Nat
  | 0, _ => 0
  | count + 1, i => if p (c.byteAt i) then runFrom c p count (i + 1) + 1 else 0

/-- The length of the run of bytes at the cursor that satisfy `p`. -/
def runLength (c : Cursor) (p : UInt8 → Bool) : Nat := c.runFrom p (c.limit - c.offset) c.offset

/-- The cursor behind the run of bytes that satisfy `p`. -/
def skipWhile (c : Cursor) (p : UInt8 → Bool) : Cursor :=
  { c with offset := c.offset + c.runLength p }

/-- Everything up to `stop`, and the cursor there. -/
def rest (c : Cursor) (stop : Nat) : Bytes × Cursor :=
  let stop := min stop c.limit
  if stop ≤ c.offset then ([], c) else (c.slice c.offset stop, { c with offset := stop })

end Cursor

end Storyline
