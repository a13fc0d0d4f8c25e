import Storyline.Digest
import Storyline.Source.Span
import Storyline.Text.Path

/-!
# Source files

A file is its content with the offsets of its line feeds.  Positions for people are a line and a
column, both counted from 1; the column counts bytes.

`File.position` finds the line by halving the list of line feeds: `File.linesBefore` is the
number of line feeds strictly before an offset.
-/

namespace Storyline

/-- The bytes of a file, with constant-time access. -/
abbrev Content := Array UInt8

namespace Content

/-- The bytes from `start` up to `stop`; none when the range is empty or runs backwards. -/
def slice (c : Content) (start stop : Nat) : Bytes := (c.extract start stop).toList

/-- The offsets of all line feeds. -/
def lineFeeds (c : Content) : Array Nat :=
  (Array.range c.size).filter fun i => c.getD i 0 = '\n'

end Content

/-- A line and a column, both from 1. -/
structure Position where
  line : Nat
  column : Nat
deriving DecidableEq, Repr, Inhabited

/-- What is worth knowing about a file beside its bytes. -/
structure FileFlags where
  /-- The file came from memory. -/
  virtual : Bool := false
  /-- The content starts with a byte order mark, which stays in it. -/
  byteOrderMark : Bool := false
  /-- The content has a carriage return followed by a line feed. -/
  crlf : Bool := false
deriving DecidableEq, Repr, Inhabited

namespace FileFlags

/-- What the bytes of a file show. -/
def detect (content : Bytes) : FileFlags where
  byteOrderMark := List.isPrefixOf [0xEF, 0xBB, 0xBF] content
  crlf := Bytes.hasInfix "\r\n" content

/-- The flags of either. -/
def union (a b : FileFlags) : FileFlags where
  virtual := a.virtual || b.virtual
  byteOrderMark := a.byteOrderMark || b.byteOrderMark
  crlf := a.crlf || b.crlf

/-- The flags as a bit set: 1 virtual, 2 byte order mark, 4 carriage returns. -/
def bits (f : FileFlags) : Nat :=
  f.virtual.toNat + 2 * f.byteOrderMark.toNat + 4 * f.crlf.toNat

end FileFlags

/-- A source file. -/
structure File where
  id : FileId
  /-- The cleaned path. -/
  path : Bytes
  content : Content
  /-- Offsets of the line feeds of `content`. -/
  lineFeeds : Array Nat
  flags : FileFlags
deriving DecidableEq, Repr, Inhabited

namespace File

/-- A file with its line feeds found and its flags completed. -/
def ofBytes (id : FileId) (path : Bytes) (bytes : Bytes) (flags : FileFlags := {}) : File :=
  let content : Content := bytes.toArray
  { id, path := Path.clean path, content, lineFeeds := content.lineFeeds
    flags := flags.union (FileFlags.detect bytes) }

/-- The length of the content. -/
def size (f : File) : Nat := f.content.size

/-- The content as text. -/
def bytes (f : File) : Bytes := f.content.toList

/-- The hash of the content. -/
def digest (f : File) : Digest := Digest.ofBytes f.bytes

/-- Halving search in `[lo, hi)` for the first line feed at or after `offset`. -/
def searchLine (feeds : Array Nat) (offset : Nat) : (fuel lo hi : Nat) → Nat
  | 0, lo, _ => lo
  | fuel + 1, lo, hi =>
    if lo < hi then
      let mid := (lo + hi) / 2
      if feeds.getD mid 0 < offset then searchLine feeds offset fuel (mid + 1) hi
      else searchLine feeds offset fuel lo mid
    else lo

/-- How many line feeds stand strictly before an offset. -/
def linesBefore (f : File) (offset : Nat) : Nat :=
  searchLine f.lineFeeds offset (f.lineFeeds.size + 1) 0 f.lineFeeds.size

/-- The offset at which line `n`, counted from 0, starts. -/
def lineStart (f : File) (n : Nat) : Nat :=
  if n = 0 then 0 else f.lineFeeds.getD (n - 1) 0 + 1

/-- The line and column of an offset. -/
def position (f : File) (offset : Nat) : Position :=
  let n := f.linesBefore offset
  ⟨Word.add n 1, Word.add (Word.sub offset (f.lineStart n)) 1⟩

/-- The text under a span, cut off at the end of the content. -/
def text (f : File) (s : Span) : Bytes :=
  f.content.slice s.start (min s.stop f.size)

/-- The offset at which line `n`, counted from 0, starts, if there is such a line. -/
def lineStart? (f : File) : Nat → Option Nat
  | 0 => some 0
  | n + 1 => f.lineFeeds[n]?.map (· + 1)

/-- The text of line `n`, counted from 1, without its line ending; empty for a missing line. -/
def line (f : File) (n : Nat) : Bytes :=
  if n = 0 then []
  else match f.lineStart? (n - 1) with
    | none => []
    | some start =>
      let stop := f.lineFeeds.getD (n - 1) f.size
      Bytes.dropSuffix "\r" (f.content.slice start stop)

/-- The span of line `n`, counted from 1, without its line ending.  A missing line gives the empty
span at the end of the file. -/
def lineSpan (f : File) (n : Nat) : Span :=
  if n = 0 || f.lineFeeds.size < n - 1 then ⟨f.id, f.size, f.size⟩
  else
    let start := f.lineStart (n - 1)
    let stop := f.lineFeeds.getD (n - 1) f.size
    if start < stop && f.content.getD (stop - 1) 0 = '\r' then ⟨f.id, start, stop - 1⟩
    else ⟨f.id, start, stop⟩

end File

end Storyline
