import Storyline.Markup.Bracket
import Storyline.Markup.Parser.State

/-!
# Parsing attributes

Attributes stand alone on the lines above a block, or between the dash and the text of a choice.
-/

namespace Storyline.Markup

/-- Whether a byte can start the name of an attribute. -/
def isNameStart (b : UInt8) : Bool := Bytes.isLetter b || b = '_'

/-- Whether a byte can go on the name of an attribute. -/
def isNamePart (b : UInt8) : Bool := isNameStart b || Bytes.isDigit b || b = '-'

namespace Parse

/-- The parameters behind an opening parenthesis, which is the next byte: what stands between the
parentheses, and how it went.  Without a closing parenthesis they reach up to the end of the
line. -/
def parameters : Parse (Bytes × Outcome) := do
  let l ← lexer
  let inner := l.cursor.next
  let stop := l.textEnd
  match inner.closeOffset? '(' ')' stop with
  | some close =>
    moveTo (close + 1)
    return (inner.slice inner.offset close, .parsed)
  | none =>
    unclosed .unclosedParen l.cursor.offset 1
    moveTo stop
    return (inner.slice inner.offset stop, .recovered)

/-- An attribute at the cursor, if there is one. -/
def takeAttribute : Parse (Option (Attribute × Outcome)) := do
  let c ← cursor
  let named := c.next
  if c.peek != '@' || !isNameStart named.peek then return none
  let c' := named.skipWhile isNamePart
  let name := c.slice named.offset c'.offset
  moveTo c'.offset
  if c'.peek = '(' then
    let (raw, o) ← parameters
    return some (⟨name, some (splitParams raw), raw, c.spanAt c.offset (← offset)⟩, o)
  else
    return some (⟨name, none, [], c.spanAt c.offset c'.offset⟩, .parsed)

/-- An attribute that is alone on its line; otherwise nothing happened. -/
def attributeLine : Parse (Option (Attribute × Outcome)) := do
  let saved ← get
  mapLexer Lexer.skipIndent
  match ← takeAttribute with
  | none => set saved; return none
  | some found =>
    skipSpaces
    if (← offset) = (← textEnd) then
      finishLine
      return some found
    else
      set saved
      return none

/-- The attribute lines from here on, as long as they are indented by `depth` levels. -/
def attributeLines : (fuel depth : Nat) → Parse (List Attribute × Outcome)
  | 0, _ => return ([], .parsed)
  | fuel + 1, depth => do
    mapLexer Lexer.skipBlankLines
    let l ← lexer
    if l.cursor.atEnd || l.indentDepth < depth then return ([], .parsed)
    match ← attributeLine with
    | none => return ([], .parsed)
    | some (a, o) =>
      let (as, o') ← attributeLines fuel depth
      return (a :: as, o.worse o')

end Parse

end Storyline.Markup
