import Storyline.Text.Bytes

/-!
# Characters of a text

Reading bytes as UTF-8.  A text falls apart into glyphs: characters, and stray bytes that are
part of no well-formed sequence.  Overlong forms, surrogates and values beyond U+10FFFF are not
well formed, and each byte of a malformed sequence is a stray of its own.

`Bytes.glyphs` loses nothing: the bytes of the glyphs, in order, are the text.  White space, of
which there are a few characters in Unicode, is trimmed from the ends of a text; other properties
of characters beyond ASCII are data, a list of closed ranges of code points.
-/

namespace Storyline

/-- A piece of text: a character, or a byte that belongs to no character. -/
inductive Glyph where
  | char (c : Char)
  | stray (b : UInt8)
deriving DecidableEq, Repr, Inhabited

namespace Glyph

/-- The replacement character U+FFFD, which stands for a stray byte where a character is due. -/
def replacement : Char := '\ufffd'

/-- The character shown for a glyph. -/
def shown : Glyph → Char
  | char c => c
  | stray _ => replacement

/-- The bytes that spell a glyph. -/
def bytes : Glyph → Bytes
  | char c => String.utf8EncodeChar c
  | stray b => [b]

/-- A continuation byte. -/
def isContinuation (b : UInt8) : Bool := 0x80 ≤ b && b ≤ 0xBF

/-- The six payload bits of a continuation byte. -/
def payload (b : UInt8) : Nat := b.toNat % 64

/-- The range of the second byte that a lead byte of a three or four byte sequence allows. -/
def secondByteOk (lead second : UInt8) : Bool :=
  if lead = 0xE0 then 0xA0 ≤ second && second ≤ 0xBF
  else if lead = 0xED then 0x80 ≤ second && second ≤ 0x9F
  else if lead = 0xF0 then 0x90 ≤ second && second ≤ 0xBF
  else if lead = 0xF4 then 0x80 ≤ second && second ≤ 0x8F
  else isContinuation second

/-- The glyph that starts with `b` when `rest` follows, and how many bytes of `rest` it takes. -/
def head (b : UInt8) (rest : Bytes) : Glyph × Nat :=
  if b < 0x80 then (char (Char.ofNat b.toNat), 0)
  else if 0xC2 ≤ b && b ≤ 0xDF then
    match rest with
    | c :: _ =>
      if isContinuation c then (char (Char.ofNat (b.toNat % 32 * 64 + payload c)), 1)
      else (stray b, 0)
    | _ => (stray b, 0)
  else if 0xE0 ≤ b && b ≤ 0xEF then
    match rest with
    | c :: d :: _ =>
      if secondByteOk b c && isContinuation d then
        (char (Char.ofNat ((b.toNat % 16 * 64 + payload c) * 64 + payload d)), 2)
      else (stray b, 0)
    | _ => (stray b, 0)
  else if 0xF0 ≤ b && b ≤ 0xF4 then
    match rest with
    | c :: d :: e :: _ =>
      if secondByteOk b c && isContinuation d && isContinuation e then
        (char (Char.ofNat (((b.toNat % 8 * 64 + payload c) * 64 + payload d) * 64 + payload e)), 3)
      else (stray b, 0)
    | _ => (stray b, 0)
  else (stray b, 0)

end Glyph

namespace Bytes

/-- Adds the glyphs of a text to `acc`, after `skip` bytes that belong to the last one. -/
def glyphsFrom (acc : Array Glyph) : (skip : Nat) → Bytes → Array Glyph
  | _, [] => acc
  | n + 1, _ :: s => glyphsFrom acc n s
  | 0, b :: s =>
    let (g, taken) := Glyph.head b s
    glyphsFrom (acc.push g) taken s

/-- The glyphs of a text, in order. -/
def glyphs (s : Bytes) : List Glyph := (glyphsFrom #[] 0 s).toList

/-- The text that glyphs spell. -/
def ofGlyphs (gs : List Glyph) : Bytes := gs.flatMap Glyph.bytes

/-- The characters shown for a text, one per glyph. -/
def shown (s : Bytes) : List Char := s.glyphs.map Glyph.shown

/-- A text as a string, with U+FFFD for each stray byte. -/
def toString (s : Bytes) : String := String.ofList s.shown

/-- The UTF-8 bytes of a list of characters. -/
def ofChars (cs : List Char) : Bytes := cs.flatMap String.utf8EncodeChar

/-- How many glyphs a text has. -/
def glyphCount (s : Bytes) : Nat := s.glyphs.length

/-- The text `s` filled up with spaces at the end until it has `width` glyphs. -/
def padRight (width : Nat) (s : Bytes) : Bytes :=
  s ++ List.replicate (width - s.glyphCount) (' ' : UInt8)

/-- The text `s` filled up with spaces at the start until it has `width` glyphs. -/
def padLeft (width : Nat) (s : Bytes) : Bytes :=
  List.replicate (width - s.glyphCount) (' ' : UInt8) ++ s

end Bytes

/-! ## Sets of characters -/

namespace Text

/-- Closed ranges of code points, in increasing order. -/
abbrev Ranges := List (Nat × Nat)

/-- Whether a code point lies in one of the ranges. -/
def Ranges.has (table : Ranges) (n : Nat) : Bool :=
  table.any fun r => decide (r.1 ≤ n) && decide (n ≤ r.2)

/-! ## White space -/

/-- Characters with the Unicode property White_Space. -/
def isBlank (c : Char) : Bool :=
  let n := c.toNat
  (9 ≤ n && n ≤ 13) || n = 0x20 || n = 0x85 || n = 0xA0 || n = 0x1680
    || (0x2000 ≤ n && n ≤ 0x200A) || n = 0x2028 || n = 0x2029 || n = 0x202F
    || n = 0x205F || n = 0x3000

/-- A glyph that is a white space character. -/
def isBlankGlyph : Glyph → Bool
  | .char c => isBlank c
  | .stray _ => false

end Text

namespace Bytes

/-- A text without the white space at its ends. -/
def trimBlank (s : Bytes) : Bytes :=
  let inner := s.glyphs.dropWhile Text.isBlankGlyph
  ofGlyphs (inner.reverse.dropWhile Text.isBlankGlyph).reverse

/-- The maximal runs of glyphs that are not white space. -/
def fields (s : Bytes) : List Bytes :=
  let step := fun (g : Glyph) (state : List Bytes × Bool) =>
    if Text.isBlankGlyph g then (state.1, false)
    else if state.2 then ((g.bytes ++ state.1.headD []) :: state.1.tail, true)
    else (g.bytes :: state.1, true)
  (s.glyphs.foldr step ([], false)).1

end Bytes

end Storyline
