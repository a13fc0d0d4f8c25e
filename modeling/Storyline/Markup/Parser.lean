import Storyline.Markup.Parser.Attribute
import Storyline.Markup.Parser.Inline

/-!
# Parsing story files

The functions for single blocks take the parser of the blocks below them as an argument, `body`,
which reads the blocks from here on that are indented by a number of levels, up to a header of at
most a given depth (0: any header is read).  Tying the knot is `sequence`, which recurs on a fuel:
every block takes at least one byte, so a fuel above the number of bytes left is never used up.

Parsing a file always completes: what cannot be read is reported, and stays text.
-/

namespace Storyline.Markup

/-! ## Blocks -/

/-- A parser of the blocks at a depth of indentation, up to a header of a depth. -/
abbrev BodyParser := (depth stop : Nat) → Parse (List Block × Outcome)

/-- Where a construct ends that reaches from a line ending at `lineEnd` over the blocks below. -/
def reach (lineEnd : Nat) (blocks : List Block) : Nat :=
  match blocks.getLast? with
  | some b => max lineEnd b.span.stop
  | none => lineEnd

/-- How many `#` the current line starts with. -/
def Lexer.headerDepth (l : Lexer) : Nat :=
  (l.cursor.skipWhile Bytes.isGap).runLength (· = '#')

/-- What a block can start with. -/
inductive BlockOpening where
  | header
  | code
  | branch
  | choices
  | paragraph
deriving DecidableEq, Repr, Inhabited

/-- What the block at the cursor starts with. -/
def BlockOpening.ofCursor (c : Cursor) : BlockOpening :=
  if c.peek = '#' then .header
  else if c.hasPrefix [0x60, 0x60, 0x60] then .code
  else if c.hasPrefix [0x40, 0x7B] then .branch
  else if c.peek = '-' && c.peekAt 1 != '>' then .choices
  else .paragraph

namespace Parse

/-! ## Single blocks -/

/-- A header and the blocks up to the next header that is not below it. -/
def header (body : BodyParser) (depth : Nat) : Parse (Block × Outcome) := do
  let c ← cursor
  let marks := c.runLength (· = '#')
  mapCursor (·.skip marks)
  let _ ← eat ' '
  let (title, titleSpan) ← restOfLine
  let lineEnd ← offset
  eatLineEnding
  let (children, o) ← body depth marks
  let span := c.spanAt c.offset (reach lineEnd children)
  return (.header { title, titleSpan, depth := marks, span } children, o)

/-- A fenced block.  Without a closing fence it takes the rest of the file. -/
def codeBlock : Parse (Block × Outcome) := do
  let c ← cursor
  mapCursor (·.skip 3)
  let (language, _) ← restOfLine
  eatLineEnding
  let inner ← cursor
  match inner.consumeUntil? [0x60, 0x60, 0x60] with
  | some (code, behind) =>
    moveTo behind.offset
    finishLine
    return (.code { language, code, span := c.spanAt c.offset behind.offset }, .parsed)
  | none =>
    unclosed .unclosedCodeBlock c.offset 3
    let (code, behind) := inner.rest inner.limit
    moveTo behind.offset
    return (.code { language, code, span := c.spanAt c.offset behind.offset }, .recovered)

/-- The condition of a match, up to its closing brace or the end of the line. -/
def matchCondition : Parse (Segment × Outcome) := do
  let l ← lexer
  let inner := l.cursor.skip 2
  let stop := l.textEnd
  match inner.closeOffset? 0x7B 0x7D stop with
  | some close =>
    moveTo (close + 1)
    return (⟨inner.slice inner.offset close, inner.spanAt inner.offset close⟩, .parsed)
  | none =>
    unclosed .unclosedScript l.cursor.offset 2
    moveTo stop
    return (⟨inner.slice inner.offset stop, inner.spanAt inner.offset stop⟩, .recovered)

/-- The word behind the condition of a match. -/
def matchMode (modifier : Bytes) (span : Span) : Parse (MatchMode × Outcome) := do
  if modifier.isEmpty then return (.default, .parsed)
  else if modifier = ("if" : Bytes) then return (.if, .parsed)
  else if modifier = ("not" : Bytes) then return (.not, .parsed)
  else
    report (.error .badAttribute span ("unknown match modifier '" ++ modifier ++ "'"))
    return (.default, .recovered)

/-- A match and the blocks below it; the choices among them are its arms. -/
def branch (body : BodyParser) (depth : Nat) : Parse (Block × Outcome) := do
  let c ← cursor
  let (condition, o₁) ← matchCondition
  let (modifier, span) ← restOfLine
  let (mode, o₂) ← matchMode modifier span
  let lineEnd ← offset
  eatLineEnding
  let (below, o₃) ← body (depth + 1) 0
  let arms := below.flatMap fun | .choices cs .. => cs | _ => []
  let children := below.filter fun b => b.kind != .choices
  let line : MatchLine :=
    { condition := condition.name, conditionSpan := condition.span, modifier, mode
      span := c.spanAt c.offset (reach lineEnd below) }
  return (.branch line arms children, (o₁.worse o₂).worse o₃)

/-- A line of text and the diverts taken out of it; a line of diverts alone gives no paragraph. -/
def paragraph : Parse (List Block × Outcome) := do
  let c ← cursor
  let (text, diverts, o) ← lineText
  let stop ← offset
  finishLine
  let blocks := (if text.isEmpty then [] else [.paragraph { text, span := c.spanAt c.offset stop }])
    ++ diverts.map .divert
  return (blocks, if blocks.isEmpty then .failed else o)

/-! ## Choices -/

/-- What stands between the dash and the text of a choice. -/
structure ChoiceHead where
  condition : Option Condition := none
  attrs : Array Attribute := #[]
  outcome : Outcome := .parsed
deriving Repr, Inhabited

/-- Adds an attribute of a choice; `if` and `not` are its condition, and there is only one. -/
def choiceAttribute (head : ChoiceHead) (a : Attribute) : Parse ChoiceHead := do
  if a.name = ("if" : Bytes) ∨ a.name = ("not" : Bytes) then
    if head.condition.isSome then
      report (.error .badAttribute a.span "choice already has a condition")
      return { head with outcome := head.outcome.worse .recovered }
    else
      let start := Word.add (Word.add a.span.start a.name.length) 2
      let span : Span := ⟨a.span.file, start, Word.add start a.raw.length⟩
      return { head with condition := some ⟨a.name, a.raw, span⟩ }
  else return { head with attrs := head.attrs.push a }

/-- Reads the attributes of a choice. -/
def choiceHead : (fuel : Nat) → ChoiceHead → Parse ChoiceHead
  | 0, head => return head
  | fuel + 1, head => do
    match ← takeAttribute with
    | none => return head
    | some (a, o) =>
      let head ← choiceAttribute { head with outcome := head.outcome.worse o } a
      skipSpaces
      choiceHead fuel head

/-- A choice and the blocks below it, which the diverts of its own line come before. -/
def choice (body : BodyParser) (depth : Nat) : Parse (Choice × Outcome) := do
  let c ← cursor
  mapCursor Cursor.next
  skipSpaces
  let head ← choiceHead (c.limit - c.offset) {}
  let (text, diverts, o₁) ← lineText
  let lineEnd ← offset
  finishLine
  if text.isEmpty && head.condition.isNone && diverts.isEmpty then
    report (.warning .emptyChoice (c.spanAt c.offset lineEnd) "empty choice")
  let (children, o₂) ← body (depth + 1) 0
  let line : ChoiceLine :=
    { text, condition := head.condition, attrs := head.attrs.toList
      span := c.spanAt c.offset (reach lineEnd children) }
  return (.mk line (diverts.map .divert ++ children), (head.outcome.worse o₁).worse o₂)

/-- Moves to the dash of a further choice of the same depth, if there is one. -/
def nextChoice (depth : Nat) : Parse Bool := do
  mapLexer Lexer.skipBlankLines
  let l ← lexer
  let dash := l.skipIndent
  if !l.cursor.atEnd && l.indentDepth = depth
      && BlockOpening.ofCursor dash.cursor = .choices then
    mapLexer fun _ => dash
    return true
  else return false

/-- The choices from here on at the same depth. -/
def choiceList (body : BodyParser) : (fuel depth : Nat) → Parse (List Choice × Outcome)
  | 0, _ => return ([], .parsed)
  | fuel + 1, depth => do
    let (c, o) ← choice body depth
    if ← nextChoice depth then
      let (cs, o') ← choiceList body fuel depth
      return (c :: cs, o.worse o')
    else return ([c], o)

/-- Consecutive choices. -/
def choices (body : BodyParser) (depth : Nat) : Parse (Block × Outcome) := do
  let c ← cursor
  let (cs, o) ← choiceList body (c.limit - c.offset) depth
  let stop := (cs.getLast?.map (·.span.stop)).getD c.offset
  return (.choices cs [] (c.spanAt c.offset stop), o)

/-! ## Sequences -/

/-- The block at the cursor, behind its indentation, with what was taken out of it. -/
def openedBlock (body : BodyParser) (depth : Nat) : Parse (List Block × Outcome) := do
  match BlockOpening.ofCursor (← cursor) with
  | .header => let (b, o) ← header body depth; return ([b], o)
  | .code => let (b, o) ← codeBlock; return ([b], o)
  | .branch => let (b, o) ← branch body depth; return ([b], o)
  | .choices => let (b, o) ← choices body depth; return ([b], o)
  | .paragraph => paragraph

/-- Gives attributes to the first of some blocks. -/
def attach (as : List Attribute) : List Block → List Block
  | [] => []
  | b :: bs => b.withAttrs as :: bs

/-- The attributes at the cursor and the block that they belong to. -/
def block (body : BodyParser) (depth : Nat) : Parse (List Block × Outcome) := do
  let c ← cursor
  let (attrs, o) ← attributeLines (c.limit - c.offset + 1) depth
  let l ← lexer
  if l.cursor.atEnd || l.indentDepth < depth then
    if let some a := attrs.getLast? then
      report (.warning .badAttribute a.span "attribute is not attached to any block")
    return ([], o)
  else
    mapLexer Lexer.skipIndent
    let (blocks, o') ← openedBlock body depth
    return (attach attrs blocks, o.worse o')

/-- The blocks from here on that are indented by at least `depth` levels, up to a header of depth
at most `stop`. -/
def sequence : (fuel : Nat) → BodyParser
  | 0, _, _ => return ([], .parsed)
  | fuel + 1, depth, stop => do
    mapLexer Lexer.skipBlankLines
    let l ← lexer
    if l.cursor.atEnd || l.indentDepth < depth
        || (0 < l.headerDepth && l.headerDepth ≤ stop) then
      return ([], .parsed)
    else
      let (bs, o) ← block (sequence fuel) depth
      if (← offset) = l.cursor.offset then finishLine
      let (rest, o') ← sequence fuel depth stop
      return (bs ++ rest, o.worse o')

end Parse

/-! ## Files -/

/-- What parsing a file gives. -/
structure Parsed where
  document : Document
  outcome : Outcome
  diagnostics : List Diagnostic
deriving Repr, Inhabited

/-- Drops the errors after the first `limit` ones; 0 keeps them all. -/
def keepErrors (limit : Nat) (ds : List Diagnostic) : List Diagnostic :=
  if limit = 0 then ds else go limit ds
where
  /-- Keeps `n` more errors. -/
  go : (n : Nat) → List Diagnostic → List Diagnostic
    | _, [] => []
    | n, d :: ds =>
      if d.severity != .error then d :: go n ds
      else match n with
        | 0 => go 0 ds
        | n + 1 => d :: go n ds

/-- Parses a file, reporting at most `maxErrors` errors if that is not 0. -/
def parse (file : File) (layout : Layout := {}) (maxErrors : Nat := 0) : Parsed :=
  let lexer := Lexer.ofFile file layout
  let ((blocks, outcome), s) :=
    (Parse.sequence (lexer.cursor.limit + 1) 0 0).run { lexer }
  { document := ⟨file.id, blocks⟩, outcome, diagnostics := keepErrors maxErrors s.log.toList }

end Storyline.Markup
