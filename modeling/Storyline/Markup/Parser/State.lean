import Storyline.Text.Glyph
import Storyline.Diagnostic.Basic
import Storyline.Markup.Block
import Storyline.Markup.Token

/-!
# The state of the markup parser

Parsing reads and changes a `ParserState`: the lexer, what was reported so far, and the diverts
taken out of the line at hand.  An attempt that fails is undone by putting the saved state back,
reports included.
-/

namespace Storyline.Markup

/-- How well a construct could be read. -/
inductive Outcome where
  /-- Without problems. -/
  | parsed
  /-- Something was produced, and problems were reported. -/
  | recovered
  /-- Nothing could be produced. -/
  | failed
deriving DecidableEq, Repr, Inhabited

namespace Outcome

/-- All outcomes, better ones first. -/
def all : List Outcome := [parsed, recovered, failed]

/-- The name of an outcome. -/
def name : Outcome → String
  | parsed => "parsed"
  | recovered => "recovered"
  | failed => "failed"

/-- The worse of two outcomes. -/
def worse : Outcome → Outcome → Outcome
  | failed, _ | _, failed => failed
  | recovered, _ | _, recovered => recovered
  | parsed, parsed => parsed

end Outcome

/-- Where the parser stands. -/
structure ParserState where
  lexer : Lexer
  /-- What was reported, in order. -/
  log : Array Diagnostic := #[]
  /-- The diverts taken out of the text of the line, in order. -/
  lifted : Array Divert := #[]
deriving Repr, Inhabited

/-- Parsing: reads and changes the parser's state. -/
abbrev Parse := StateM ParserState

namespace Parse

/-! ## Reading -/

/-- The lexer. -/
def lexer : Parse Lexer := return (← get).lexer

/-- The cursor. -/
def cursor : Parse Cursor := return (← get).lexer.cursor

/-- The offset of the cursor. -/
def offset : Parse Nat := return (← get).lexer.cursor.offset

/-- Changes the lexer. -/
def mapLexer (f : Lexer → Lexer) : Parse Unit := modify fun s => { s with lexer := f s.lexer }

/-- Changes the cursor. -/
def mapCursor (f : Cursor → Cursor) : Parse Unit :=
  mapLexer fun l => { l with cursor := f l.cursor }

/-- Moves the cursor to an offset. -/
def moveTo (offset : Nat) : Parse Unit := mapLexer (·.moveTo offset)

/-- Moves the cursor behind spaces and tabs. -/
def skipSpaces : Parse Unit := mapCursor (·.skipWhile Bytes.isGap)

/-- Moves the cursor behind the byte `b` if it comes next, and says whether it did. -/
def eat (b : UInt8) : Parse Bool := do
  match (← cursor).eatByte? b with
  | some c => mapCursor fun _ => c; return true
  | none => return false

/-- Moves the cursor behind a line ending if it comes next. -/
def eatLineEnding : Parse Unit := mapLexer fun l => l.eatLineEnding?.getD l

/-! ## Reporting -/

/-- Adds a diagnostic to the log. -/
def report (d : Diagnostic) : Parse Unit := modify fun s => { s with log := s.log.push d }

/-- Reports an error in the file at hand. -/
def complain (code : Code) (start stop : Nat) (message : Bytes) : Parse Unit := do
  report (.error code ((← cursor).spanAt start stop) message)

/-- Reports that what opens at `start`, with `width` bytes, is not closed. -/
def unclosed (code : Code) (start width : Nat) : Parse Unit :=
  complain code start (start + width) "missing closing symbol"

end Parse

/-! ## Lines -/

/-- Where the text of the current line ends: at its ending, or before a carriage return that
stands in front of a lone line feed. -/
def Lexer.textEnd (l : Lexer) : Nat :=
  let stop := l.lineEnd
  if !l.layout.isCrlf && l.cursor.offset < stop && l.cursor.byteAt (stop - 1) = '\r' then stop - 1
  else stop

namespace Parse

/-- Where the text of the current line ends. -/
def textEnd : Parse Nat := return (← lexer).textEnd

/-- Reads the rest of the line without its ending: its text without blanks around it, and where
that text stands. -/
def restOfLine : Parse (Bytes × Span) := do
  let l ← lexer
  let start := l.cursor.offset
  let stop := l.textEnd
  let raw := l.cursor.slice start stop
  moveTo l.lineEnd
  let text := raw.trimBlank
  if text.isEmpty then return ([], l.cursor.spanAt start start)
  else
    let lead := raw.length - (raw.trimLeft Bytes.isGap).length
    let trail := raw.length - (raw.trimRight fun b => Bytes.isGap b || b = '\r').length
    return (text, l.cursor.spanAt (start + lead) (stop - trail))

/-- Goes to the next line. -/
def finishLine : Parse Unit := mapLexer Lexer.skipLine

end Parse

end Storyline.Markup
