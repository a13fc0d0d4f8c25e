import Storyline.Markup.Bracket
import Storyline.Markup.Parser.State

/-!
# Parsing text

A text is read from left to right up to the end of its line or up to the delimiter that closes
it.  What opens an element that is never closed is reported and stays literal text.  Diverts are
taken out of the text and collected in the state.
-/

namespace Storyline.Markup

/-- What may stand at a place in a text. -/
inductive Opening where
  /-- A backslash, which makes the next byte literal. -/
  | escape
  | styled (style : Style)
  | code
  | script
  | divert
  | join
  /-- A byte that stands for itself. -/
  | literal
deriving DecidableEq, Repr, Inhabited

/-- What stands at the cursor, in a text that ends at `stop`.  A star in front of a blank or of the
end stands for itself. -/
def Opening.ofCursor (c : Cursor) (stop : Nat) : Opening :=
  let b := c.peek
  if b = '\\' then .escape
  else if c.hasPrefix "**" then .styled .bold
  else if b = '*' then
    if stop ≤ c.offset + 1 || Bytes.isGap (c.peekAt 1) then .literal else .styled .italics
  else if c.hasPrefix "__" then .styled .underline
  else if b = 0x60 then .code
  else if b = 0x7B then .script
  else if c.hasPrefix "<->" || c.hasPrefix "->" then .divert
  else if c.hasPrefix "<>" then .join
  else .literal

/-- Whether the cursor stands on the end of a styled text.  Of three stars the first one ends the
italics, the other two the bold text around them. -/
def Style.closesAt (c : Cursor) : Style → Bool
  | .italics => c.peek = '*' && (c.peekAt 1 != '*' || c.peekAt 2 = '*')
  | s => c.hasPrefix s.delimiter

/-- A text that is being read. -/
structure Draft where
  parts : Array (Bytes × Inline) := #[]
  /-- The literal run after the last part. -/
  run : Array UInt8 := #[]
deriving Inhabited

namespace Draft

/-- Adds a literal byte. -/
def write (d : Draft) (b : UInt8) : Draft := { d with run := d.run.push b }

/-- Adds literal bytes. -/
def append (d : Draft) (bs : Bytes) : Draft := { d with run := d.run ++ bs }

/-- Adds an element. -/
def insert (d : Draft) (e : Inline) : Draft := ⟨d.parts.push (d.run.toList, e), #[]⟩

/-- Whether nothing was read so far. -/
def isEmpty (d : Draft) : Bool := d.parts.isEmpty && d.run.isEmpty

/-- The finished text. -/
def text (d : Draft) (span : Span) : Text := ⟨d.parts.toList, d.run.toList, span⟩

end Draft

/-- A text as far as it could be read. -/
structure TextResult where
  text : Text
  /-- Whether the closing delimiter was found, if one was asked for. -/
  closed : Bool
  outcome : Outcome
deriving Inhabited

namespace Parse

/-! ## Elements -/

/-- A code span, if it is closed before `stop`. -/
def codeSpan (stop : Nat) : Parse (Option Inline) := do
  let c ← cursor
  let inner := c.next
  match inner.positionOf? [0x60] stop with
  | none => return none
  | some close =>
    moveTo (close + 1)
    return some (.code (c.slice inner.offset close) (c.spanAt inner.offset close)
      (c.spanAt c.offset (close + 1)))

/-- A script, if it is closed before `stop`. -/
def scriptSpan (stop : Nat) : Parse (Option Inline) := do
  let c ← cursor
  let inner := c.next
  match inner.closeOffset? 0x7B 0x7D stop with
  | none => return none
  | some close =>
    moveTo (close + 1)
    return some (.script (c.slice inner.offset close) (c.spanAt inner.offset close)
      (c.spanAt c.offset (close + 1)))

/-- Whether a byte cannot be part of a divert's path. -/
def isPathStop (b : UInt8) : Bool :=
  b = ' ' || b = '\t' || b = '\r' || b = '*' || b = 0x60 || b = 0x7B || b = 0x7D || b = '<'
    || b = '\\'

/-- The parts of a dotted path that starts at the offset `start`. -/
def segments (file : FileId) : (start : Nat) → List Bytes → List Segment
  | _, [] => []
  | start, name :: rest =>
    ⟨name, ⟨file, start, start + name.length⟩⟩ :: segments file (start + name.length + 1) rest

/-- Reads a divert and adds it to the lifted ones. -/
def inlineDivert (stop : Nat) : Parse Outcome := do
  let c ← cursor
  let temporary := c.hasPrefix "<->"
  let arrow := if temporary then { c with offset := c.offset + 3 } else c.skip 2
  let start := min stop (arrow.skipWhile Bytes.isGap).offset |> max arrow.offset
  let inner := { c with offset := start }
  let raw := c.slice start (min stop (inner.skipWhile fun b => !isPathStop b).offset)
  moveTo (start + raw.length)
  if raw.isEmpty then
    complain .emptyDivert c.offset arrow.offset
      ("expected a path after '" ++ c.slice c.offset arrow.offset ++ "'")
    return .recovered
  else
    let path := segments c.file start (raw.splitOnByte '.')
    let d : Divert :=
      { path, temporary, span := c.spanAt c.offset (start + raw.length) }
    modify fun s => { s with lifted := s.lifted.push d }
    return .parsed

/-! ## Text -/

/-- A styled text, if `inner` finds its end; otherwise nothing happened. -/
def styledSpan (inner : Style → Parse TextResult) (stop : Nat) (style : Style) :
    Parse (Option (Inline × Outcome)) := do
  let saved ← get
  let start := saved.lexer.cursor.offset
  let c := saved.lexer.cursor.skip style.delimiter.length
  if (c.positionOf? style.delimiter stop).isNone then return none
  moveTo c.offset
  let r ← inner style
  if r.closed then
    return some (.styled style r.text.parts r.text.tail r.text.span
      (c.spanAt start (← offset)), r.outcome)
  else
    set saved
    return none

/-- Takes the opening delimiter of an element that is not closed as literal text. -/
def literalOpening (draft : Draft) (code : Code) (delimiter : Bytes) : Parse Draft := do
  unclosed code (← offset) delimiter.length
  mapCursor (·.skip delimiter.length)
  return draft.append delimiter

/-- One step of reading a text: what stands at the cursor is added to the draft. -/
def textStep (inner : Style → Parse TextResult) (stop : Nat) (draft : Draft) :
    Parse (Draft × Outcome) := do
  let c ← cursor
  match Opening.ofCursor c stop with
  | .literal =>
    mapCursor Cursor.next
    return (draft.write c.peek, .parsed)
  | .escape =>
    let c := c.next
    if c.offset < stop then
      moveTo c.next.offset
      return (draft.write c.peek, .parsed)
    else
      moveTo c.offset
      return (draft.write '\\', .parsed)
  | .styled style =>
    match ← styledSpan inner stop style with
    | some (e, o) => return (draft.insert e, o)
    | none => return (← literalOpening draft .unclosedDelimiter style.delimiter, .recovered)
  | .code =>
    match ← codeSpan stop with
    | some e => return (draft.insert e, .parsed)
    | none => return (← literalOpening draft .unclosedDelimiter [0x60], .recovered)
  | .script =>
    match ← scriptSpan stop with
    | some e => return (draft.insert e, .parsed)
    | none => return (← literalOpening draft .unclosedScript [0x7B], .recovered)
  | .join =>
    mapCursor (·.skip 2)
    return (draft.insert (.join (c.spanAt c.offset (← offset))), .parsed)
  | .divert =>
    let o ← inlineDivert stop
    -- one blank stays between the text before a divert and the text after it
    if o = .parsed && (draft.run.back? = some (' ' : UInt8) || draft.isEmpty) then
      mapCursor fun c =>
        { c with offset := max c.offset (min stop (c.skipWhile Bytes.isGap).offset) }
    return (draft, o)

/-- Reads on from a draft that started at `start`, up to `stop` or the end of the style. -/
def textFrom : (fuel stop : Nat) → Option Style → (start : Nat) → Draft → Outcome → Parse TextResult
  | 0, _, closer, start, draft, out => do
    return ⟨draft.text ((← cursor).spanFrom start), closer.isNone, out⟩
  | fuel + 1, stop, closer, start, draft, out => do
    let c ← cursor
    if stop ≤ c.offset then
      return ⟨draft.text (c.spanFrom start), closer.isNone, out⟩
    else match closer.filter (Style.closesAt c) with
      | some s =>
        mapCursor (·.skip s.delimiter.length)
        return ⟨draft.text (c.spanFrom start), true, out⟩
      | none =>
        let inner (s : Style) : Parse TextResult := do
          textFrom fuel stop (some s) (← offset) {} .parsed
        let (draft, o) ← textStep inner stop draft
        textFrom fuel stop closer start draft (out.worse o)

/-- Reads the rest of the line as text: the text, the diverts taken out of it, and how it went. -/
def lineText : Parse (Text × List Divert × Outcome) := do
  let before := (← get).lifted
  let stop ← textEnd
  let start ← offset
  let r ← textFrom (stop - start + 1) stop none start {} .parsed
  let diverts := (← get).lifted.toList.drop before.size
  modify fun s => { s with lifted := before }
  let text := if diverts.isEmpty then r.text
    else { r.text with tail := r.text.tail.trimRight Bytes.isGap }
  return (text, diverts, r.outcome)

end Parse

end Storyline.Markup
