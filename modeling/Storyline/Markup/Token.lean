import Storyline.Source.Span
import Storyline.Text.Bytes
import Storyline.Source.Cursor

/-!
# Layout and tokens of a story file

The layout is how a file spells the end of a line, and how many spaces make one level of
indentation.  Each byte is a token of its own; only a line ending may take two.

A lexer reads a file byte by byte and line by line: it is a cursor that knows the layout of its
file.  Spaces count as indentation from the start of a line up to the first other byte, so the
lexer also remembers whether it is still there.
-/

namespace Storyline.Markup

/-! ## Layout -/

/-- What ends a line. -/
inductive LineEnding where
  | lf
  | crlf
deriving DecidableEq, Repr, Inhabited

namespace LineEnding

/-- The name of a line ending in settings. -/
def name : LineEnding → String
  | lf => "lf"
  | crlf => "crlf"

/-- How many bytes a line ending takes. -/
def width : LineEnding → Nat
  | lf => 1
  | crlf => 2

end LineEnding

/-- The layout of a file. -/
structure Layout where
  lineEnding : LineEnding := .lf
  /-- How many spaces make one level of indentation; a tab is a level of its own. -/
  indentWidth : Nat := 4
deriving DecidableEq, Repr, Inhabited

namespace Layout

/-- The layout with a wished indentation width; a width that is not positive leaves the default. -/
def withWidth (ending : LineEnding) (width : Int) : Layout :=
  if 0 < width then ⟨ending, width.toNat⟩ else { lineEnding := ending }

/-- Whether lines end in a carriage return and a line feed. -/
def isCrlf (l : Layout) : Bool := l.lineEnding = .crlf

end Layout

/-! ## Tokens -/

/-- The kinds of tokens. -/
inductive TokenKind where
  | character
  | endOfLine
  | indentation
  | endOfFile
deriving DecidableEq, Repr, Inhabited

namespace TokenKind

/-- All kinds. -/
def all : List TokenKind := [character, endOfLine, indentation, endOfFile]

/-- The name of a kind. -/
def name : TokenKind → String
  | character => "character"
  | endOfLine => "end of line"
  | indentation => "indentation"
  | endOfFile => "end of file"

end TokenKind

/-- A token; `char` is 0 where the token is not one byte of text. -/
structure Token where
  kind : TokenKind
  char : UInt8 := 0
  span : Span
deriving DecidableEq, Repr, Inhabited

/-! ## Lexers -/

/-- Where reading stands. -/
structure Lexer where
  cursor : Cursor
  layout : Layout
  /-- Whether only indentation was read since the line started. -/
  atLineStart : Bool := true
deriving DecidableEq, Repr, Inhabited

namespace Lexer

/-- A lexer at the start of a file. -/
def ofFile (f : File) (layout : Layout) : Lexer := { cursor := .ofFile f, layout }

/-- The lexer at another offset of the same line. -/
def moveTo (l : Lexer) (offset : Nat) : Lexer :=
  { l with cursor := { l.cursor with offset } }

/-! ## Reading tokens -/

/-- Whether a line ending comes next. -/
def atLineEnding (l : Lexer) : Bool :=
  match l.layout.lineEnding with
  | .lf => l.cursor.peek = '\n'
  | .crlf => l.cursor.peek = '\r' && l.cursor.peekAt 1 = '\n'

/-- The next token and the lexer behind it. -/
def next (l : Lexer) : Token × Lexer :=
  let c := l.cursor
  if c.atEnd then (⟨.endOfFile, 0, c.spanFrom c.offset⟩, l)
  else if l.atLineEnding then
    let c' := c.skip l.layout.lineEnding.width
    (⟨.endOfLine, 0, c'.spanFrom c.offset⟩, { l with cursor := c', atLineStart := true })
  else
    let c' := c.next
    if c.peek = ' ' && l.atLineStart then
      (⟨.indentation, ' ', c'.spanFrom c.offset⟩, { l with cursor := c' })
    else
      (⟨.character, c.peek, c'.spanFrom c.offset⟩, { l with cursor := c', atLineStart := false })

/-- All tokens up to the end of the file, which is the last one. -/
def tokens (l : Lexer) : List Token :=
  go (l.cursor.limit - l.cursor.offset) l
where
  /-- At most `count` tokens and the next one. -/
  go : (count : Nat) → Lexer → List Token
    | 0, l => [l.next.1]
    | count + 1, l =>
      if l.cursor.atEnd then [l.next.1] else l.next.1 :: go count l.next.2

/-- Goes back to an offset where a token started. -/
def reset (l : Lexer) (offset : Nat) : Lexer :=
  { l.moveTo offset with
    atLineStart := offset = 0 || l.cursor.byteAt (offset - 1) = '\n' }

/-! ## Lines -/

/-- Whether nothing is left on the line. -/
def atLineEnd (l : Lexer) : Bool := l.cursor.atEnd || l.atLineEnding

/-- The offset where the line's ending starts. -/
def lineEnd (l : Lexer) : Nat := l.cursor.lineEnd l.layout.isCrlf

/-- Goes past a line ending, if one comes next. -/
def eatLineEnding? (l : Lexer) : Option Lexer :=
  if l.cursor.atEnd || !l.atLineEnding then none else some l.next.2

/-- Goes to the next line. -/
def skipLine (l : Lexer) : Lexer :=
  let l := l.moveTo l.lineEnd
  l.eatLineEnding?.getD { l with atLineStart := false }

/-- Whether only blanks are left on the line. -/
def isBlankLine (l : Lexer) : Bool :=
  l.lineEnd ≤ l.cursor.offset + l.cursor.runLength fun b => Bytes.isGap b || b = '\r'

/-- Goes to the first line that is not blank. -/
def skipBlankLines (l : Lexer) : Lexer :=
  go (l.cursor.limit - l.cursor.offset) l
where
  /-- Skips at most `count` lines. -/
  go : (count : Nat) → Lexer → Lexer
    | 0, l => l
    | count + 1, l => if !l.cursor.atEnd && l.isBlankLine then go count l.skipLine else l

/-! ## Indentation -/

/-- How many columns of indentation come next.  They are counted in a signed 64-bit number, so a
layout of enormous width can bring a run of tabs below zero. -/
def indentRun (l : Lexer) : Int :=
  let columns := (l.cursor.slice l.cursor.offset
      (l.cursor.offset + l.cursor.runLength Bytes.isGap)).foldl
    (fun n (b : UInt8) => if b = ' ' then n + 1 else n + l.layout.indentWidth) 0
  Int.bmod columns 0x10000000000000000

/-- How many levels of indentation come next. -/
def indentDepth (l : Lexer) : Int := l.indentRun.tdiv l.layout.indentWidth

/-- Goes past the indentation. -/
def skipIndent (l : Lexer) : Lexer :=
  { l with cursor := l.cursor.skipWhile Bytes.isGap, atLineStart := false }

end Lexer

end Storyline.Markup
