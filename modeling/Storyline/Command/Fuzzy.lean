import Storyline.Outline.Resolve
import Storyline.Text.Case

/-!
# Comparing names

A name occurs in another one if its characters stand there in the same order, letter case aside;
how far apart two names are is how many characters have to be changed to get from one to the other.
Of ranks at the same distance the one that came first stays first.
-/

namespace Storyline.Command

open Outline (Fuzzy Rank)

/-- Whether the first list is left over when some items of the second one are dropped. -/
def isSubsequence {α : Type} [BEq α] : List α → List α → Bool
  | [], _ => true
  | _ :: _, [] => false
  | a :: as, b :: bs => if a == b then isSubsequence as bs else isSubsequence (a :: as) bs

/-! ## Small letters

Small letters are written block by block into a store of fixed size, which grows when it is full.
The character that finds it full is left out, a character cut by the end of a block counts as stray
bytes, and of a replacement character only the first byte counts as read. -/

/-- How many bytes of a text are read at a time, and how many the store holds at first. -/
def blockSize : Nat := 128

/-- The size of a store after it was full. -/
def grownSize (size : Nat) : Nat :=
  if size ≤ 32 then 64 else if size ≤ 256 then size * 2 else size + size / 2

/-- What became of a block. -/
structure Folding where
  written : Bytes := []
  /-- How many bytes of the block count as read. -/
  used : Nat := 0
  /-- Whether a character was left out. -/
  cut : Bool := false
deriving DecidableEq, Repr, Inhabited

/-- Writes the small letters of characters until `room` bytes are full. -/
def foldInto (room : Nat) (f : Folding) : List Char → Folding
  | [] => f
  | c :: rest =>
    let used := f.used + if c = Glyph.replacement then 1 else (String.utf8EncodeChar c).length
    let small := String.utf8EncodeChar (Text.lowerChar c)
    if room < f.written.length + small.length then { f with used, cut := true }
    else foldInto room { f with written := f.written ++ small, used } rest

/-- Writes the first block of a text. -/
def foldBlock (room : Nat) (s : Bytes) : Folding :=
  foldInto room {} (Bytes.shown (s.take blockSize))

/-- Writes the rest of a text behind `done` into a store of some size, in at most `fuel` blocks. -/
def foldRest : (fuel size : Nat) → (done rest : Bytes) → Bytes
  | 0, _, done, _ => done
  | fuel + 1, size, done, rest =>
    if rest.isEmpty then done
    else
      let f := foldBlock (size - done.length) rest
      foldRest fuel (if f.cut && f.written.isEmpty then grownSize size else size)
        (done ++ f.written) (rest.drop f.used)

/-- Writes a text whose blocks so far, `same`, were in small letters already, in at most `fuel`
blocks.  With the first block that is not, the store takes what is still to come. -/
def foldFrom : (fuel : Nat) → (same rest : Bytes) → Bytes
  | 0, same, _ => same
  | fuel + 1, same, rest =>
    if rest.isEmpty then same
    else
      let f := foldBlock blockSize rest
      if f.written = rest.take f.used then foldFrom fuel (same ++ f.written) (rest.drop f.used)
      else
        let size := if same.isEmpty then blockSize
          else same.length + rest.length + f.written.length - f.used
        foldRest fuel size (same ++ f.written) (rest.drop f.used)

/-- A name in small letters, for comparing. -/
def folded (s : Bytes) : Bytes := foldFrom (s.length + 1) [] s

/-! ## Closeness -/

/-- Whether the characters of `name` occur in `target` in order, letter case aside. -/
def occursIn (name target : Bytes) : Bool :=
  let (n, t) := (folded name, folded target)
  decide (n.length ≤ t.length) && isSubsequence n.shown t.shown

/-- The next column of the distance table: `column` holds the distances from the prefixes of
`source` to a text, and the result those to that text with `c` behind it.  The distance above the
first one is `corner` before and `above` after. -/
def editColumn (c : Char) : (source : List Char) → (corner above : Nat) → List Nat → List Nat
  | s :: source, corner, above, old :: column =>
    let here := min (min (old + 1) (above + 1)) (if s = c then corner else corner + 1)
    here :: editColumn c source old here column
  | _, _, _, _ => []

/-- How many characters have to be inserted, dropped or replaced to get from one text to
another. -/
def editDistance (source target : List Char) : Nat :=
  go 0 (List.range' 1 source.length) target
where
  /-- The last entry of the table once the rest of the target is read; `top` of it is read, and
  `column` holds the distances of the non-empty prefixes of the source. -/
  go (top : Nat) (column : List Nat) : List Char → Nat
    | [] => column.getLast?.getD top
    | c :: rest => go (top + 1) (editColumn c source top (top + 1) column) rest

instance : Fuzzy where
  ranked name targets := (targets.filter (occursIn name)).map fun t =>
    ⟨t, editDistance name.shown t.shown⟩
  occursIn := occursIn
  sort ranks := ranks.mergeSort fun a b => a.distance ≤ b.distance

end Storyline.Command
