import Storyline.Markup.Parser
import Storyline.Proofs.Unbounded

/-!
# The markup parser without fuel

The recursive functions of the parser once more, with the same names, but without any fuel: where
they did not end they would give nothing.  What never calls itself is taken as it is.  The functions
that call each other are answers to calls: those that read a line (`LineCall`), and those that read
blocks (`BlockCall`).  One round of `sequence` is a call of its own, since every round gets on.
-/

namespace Storyline.Markup

namespace Unbounded

open Parse (lexer cursor offset mapLexer mapCursor moveTo eat skipSpaces textEnd eatLineEnding
  report restOfLine finishLine takeAttribute attributeLine codeSpan scriptSpan inlineDivert
  literalOpening codeBlock matchCondition matchMode ChoiceHead choiceAttribute nextChoice attach)

/-! ## Attributes and texts -/

/-- The calls of functions that read attributes and texts, by what they give. -/
inductive LineCall : Type → Type 1 where
  /-- The attribute lines from here on, as long as they are indented by `depth` levels. -/
  | attributeLines (depth : Nat) : LineCall (List Attribute × Outcome)
  /-- Reads the attributes of a choice. -/
  | choiceHead (head : ChoiceHead) : LineCall ChoiceHead
  /-- Reads on from a draft that started at `start`, up to `stop` or the end of the style. -/
  | textFrom (stop : Nat) (closer : Option Style) (start : Nat) (draft : Draft) (out : Outcome) :
    LineCall TextResult
  /-- One step of reading a text: what stands at the cursor is added to the draft. -/
  | textStep (stop : Nat) (draft : Draft) : LineCall (Draft × Outcome)
  /-- A styled text, if its end is found; otherwise nothing happened. -/
  | styledSpan (stop : Nat) (style : Style) : LineCall (Option (Inline × Outcome))
  /-- The text of a style, which starts at the cursor. -/
  | textInside (stop : Nat) (style : Style) : LineCall TextResult

/-- What a call does, by the answers to the calls that it makes. -/
def LineCall.answer {α : Type} : LineCall α → Unbounded ParserState α
  | .attributeLines depth => do
    mapLexer Lexer.skipBlankLines
    let l ← lexer
    if l.cursor.atEnd || l.indentDepth < depth then return ([], .parsed)
    match ← attributeLine with
    | none => return ([], .parsed)
    | some (a, o) =>
      let (as, o') ← attributeLines depth |>.answer
      return (a :: as, o.worse o')
  | .choiceHead head => do
    match ← takeAttribute with
    | none => return head
    | some (a, o) =>
      let head ← choiceAttribute { head with outcome := head.outcome.worse o } a
      skipSpaces
      choiceHead head |>.answer
  | .textFrom stop closer start draft out => do
    let c ← cursor
    if stop ≤ c.offset then
      return ⟨draft.text (c.spanFrom start), closer.isNone, out⟩
    else match closer.filter (Style.closesAt c) with
      | some s =>
        mapCursor (·.skip s.delimiter.length)
        return ⟨draft.text (c.spanFrom start), true, out⟩
      | none =>
        let (draft, o) ← textStep stop draft |>.answer
        textFrom stop closer start draft (out.worse o) |>.answer
  | .textStep stop draft => do
    let c ← cursor
    match Opening.ofCursor c stop with
    | .literal =>
      mapCursor Cursor.next
      return (draft.write c.peek, .parsed)
    | .escape =>
      let c := c.next
      if c.offset < stop then
        moveTo c.next.offset
        return (draft.write c.peek, .parsed)
      else
        moveTo c.offset
        return (draft.write '\\', .parsed)
    | .styled style =>
      match ← (styledSpan stop style |>.answer) with
      | some (e, o) => return (draft.insert e, o)
      | none => return (← literalOpening draft .unclosedDelimiter style.delimiter, .recovered)
    | .code =>
      match ← codeSpan stop with
      | some e => return (draft.insert e, .parsed)
      | none => return (← literalOpening draft .unclosedDelimiter [0x60], .recovered)
    | .script =>
      match ← scriptSpan stop with
      | some e => return (draft.insert e, .parsed)
      | none => return (← literalOpening draft .unclosedScript [0x7B], .recovered)
    | .join =>
      mapCursor (·.skip 2)
      return (draft.insert (.join (c.spanAt c.offset (← offset))), .parsed)
    | .divert =>
      let o ← inlineDivert stop
      if o = .parsed && (draft.run.back? = some (' ' : UInt8) || draft.isEmpty) then
        mapCursor fun c =>
          { c with offset := max c.offset (min stop (c.skipWhile Bytes.isGap).offset) }
      return (draft, o)
  | .styledSpan stop style => do
    let saved ← get
    let start := saved.lexer.cursor.offset
    let c := saved.lexer.cursor.skip style.delimiter.length
    if (c.positionOf? style.delimiter stop).isNone then return none
    moveTo c.offset
    let r ← textInside stop style |>.answer
    if r.closed then
      return some (.styled style r.text.parts r.text.tail r.text.span
        (c.spanAt start (← offset)), r.outcome)
    else
      set saved
      return none
  | .textInside stop style => do
    textFrom stop (some style) (← offset) {} .parsed |>.answer
partial_fixpoint

def attributeLines (depth : Nat) : Unbounded ParserState (List Attribute × Outcome) :=
  LineCall.attributeLines depth |>.answer

def choiceHead (head : ChoiceHead) : Unbounded ParserState ChoiceHead :=
  LineCall.choiceHead head |>.answer

def textFrom (stop : Nat) (closer : Option Style) (start : Nat) (draft : Draft) (out : Outcome) :
    Unbounded ParserState TextResult :=
  LineCall.textFrom stop closer start draft out |>.answer

def textStep (stop : Nat) (draft : Draft) : Unbounded ParserState (Draft × Outcome) :=
  LineCall.textStep stop draft |>.answer

def styledSpan (stop : Nat) (style : Style) :
    Unbounded ParserState (Option (Inline × Outcome)) :=
  LineCall.styledSpan stop style |>.answer

def textInside (stop : Nat) (style : Style) : Unbounded ParserState TextResult :=
  LineCall.textInside stop style |>.answer

/-- Reads the rest of the line as text: the text, the diverts taken out of it, and how it went. -/
def lineText : Unbounded ParserState (Text × List Divert × Outcome) := do
  let before := (← get).lifted
  let stop ← textEnd
  let start ← offset
  let r ← textFrom stop none start {} .parsed
  let diverts := (← get).lifted.toList.drop before.size
  modify fun s => { s with lifted := before }
  let text := if diverts.isEmpty then r.text
    else { r.text with tail := r.text.tail.trimRight Bytes.isGap }
  return (text, diverts, r.outcome)

/-- A line of text and the diverts taken out of it; a line of diverts alone gives no paragraph. -/
def paragraph : Unbounded ParserState (List Block × Outcome) := do
  let c ← cursor
  let (text, diverts, o) ← lineText
  let stop ← offset
  finishLine
  let blocks := (if text.isEmpty then [] else [.paragraph { text, span := c.spanAt c.offset stop }])
    ++ diverts.map .divert
  return (blocks, if blocks.isEmpty then .failed else o)

/-! ## Blocks -/

/-- The calls of functions that read blocks, by what they give. -/
inductive BlockCall : Type → Type 1 where
  /-- A header and the blocks up to the next header that is not below it. -/
  | header (depth : Nat) : BlockCall (Block × Outcome)
  /-- A match and the blocks below it; the choices among them are its arms. -/
  | branch (depth : Nat) : BlockCall (Block × Outcome)
  /-- A choice and the blocks below it, which the diverts of its own line come before. -/
  | choice (depth : Nat) : BlockCall (Choice × Outcome)
  /-- The choices from here on at the same depth. -/
  | choiceList (depth : Nat) : BlockCall (List Choice × Outcome)
  /-- Consecutive choices. -/
  | choices (depth : Nat) : BlockCall (Block × Outcome)
  /-- The block at the cursor, behind its indentation, with what was taken out of it. -/
  | openedBlock (depth : Nat) : BlockCall (List Block × Outcome)
  /-- The attributes at the cursor and the block that they belong to. -/
  | block (depth : Nat) : BlockCall (List Block × Outcome)
  /-- One round of `sequence`: a block, or a line that no block was read from. -/
  | round (depth : Nat) : BlockCall (List Block × Outcome)
  /-- The blocks from here on that are indented by at least `depth` levels, up to a header of depth
  at most `stop`. -/
  | sequence (depth stop : Nat) : BlockCall (List Block × Outcome)

/-- What a call does, by the answers to the calls that it makes. -/
def BlockCall.answer {α : Type} : BlockCall α → Unbounded ParserState α
  | .header depth => do
    let c ← cursor
    let marks := c.runLength (· = '#')
    mapCursor (·.skip marks)
    let _ ← eat ' '
    let (title, titleSpan) ← restOfLine
    let lineEnd ← offset
    eatLineEnding
    let (children, o) ← sequence depth marks |>.answer
    let span := c.spanAt c.offset (reach lineEnd children)
    return (.header { title, titleSpan, depth := marks, span } children, o)
  | .branch depth => do
    let c ← cursor
    let (condition, o₁) ← matchCondition
    let (modifier, span) ← restOfLine
    let (mode, o₂) ← matchMode modifier span
    let lineEnd ← offset
    eatLineEnding
    let (below, o₃) ← sequence (depth + 1) 0 |>.answer
    let arms := below.flatMap fun | .choices cs .. => cs | _ => []
    let children := below.filter fun b => b.kind != .choices
    let line : MatchLine :=
      { condition := condition.name, conditionSpan := condition.span, modifier, mode
        span := c.spanAt c.offset (reach lineEnd below) }
    return (.branch line arms children, (o₁.worse o₂).worse o₃)
  | .choice depth => do
    let c ← cursor
    mapCursor Cursor.next
    skipSpaces
    let head ← choiceHead {}
    let (text, diverts, o₁) ← lineText
    let lineEnd ← offset
    finishLine
    if text.isEmpty && head.condition.isNone && diverts.isEmpty then
      report (.warning .emptyChoice (c.spanAt c.offset lineEnd) "empty choice")
    let (children, o₂) ← sequence (depth + 1) 0 |>.answer
    let line : ChoiceLine :=
      { text, condition := head.condition, attrs := head.attrs.toList
        span := c.spanAt c.offset (reach lineEnd children) }
    return (.mk line (diverts.map .divert ++ children), (head.outcome.worse o₁).worse o₂)
  | .choiceList depth => do
    let (c, o) ← choice depth |>.answer
    if ← nextChoice depth then
      let (cs, o') ← choiceList depth |>.answer
      return (c :: cs, o.worse o')
    else return ([c], o)
  | .choices depth => do
    let c ← cursor
    let (cs, o) ← choiceList depth |>.answer
    let stop := (cs.getLast?.map (·.span.stop)).getD c.offset
    return (.choices cs [] (c.spanAt c.offset stop), o)
  | .openedBlock depth => do
    match BlockOpening.ofCursor (← cursor) with
    | .header => let (b, o) ← header depth |>.answer; return ([b], o)
    | .code => let (b, o) ← codeBlock; return ([b], o)
    | .branch => let (b, o) ← branch depth |>.answer; return ([b], o)
    | .choices => let (b, o) ← choices depth |>.answer; return ([b], o)
    | .paragraph => paragraph
  | .block depth => do
    let (attrs, o) ← attributeLines depth
    let l ← lexer
    if l.cursor.atEnd || l.indentDepth < depth then
      if let some a := attrs.getLast? then
        report (.warning .badAttribute a.span "attribute is not attached to any block")
      return ([], o)
    else
      mapLexer Lexer.skipIndent
      let (blocks, o') ← openedBlock depth |>.answer
      return (attach attrs blocks, o.worse o')
  | .round depth => do
    let start ← offset
    let (bs, o) ← block depth |>.answer
    if (← offset) = start then finishLine
    return (bs, o)
  | .sequence depth stop => do
    mapLexer Lexer.skipBlankLines
    let l ← lexer
    if l.cursor.atEnd || l.indentDepth < depth
        || (0 < l.headerDepth && l.headerDepth ≤ stop) then
      return ([], .parsed)
    else
      let (bs, o) ← round depth |>.answer
      let (rest, o') ← sequence depth stop |>.answer
      return (bs ++ rest, o.worse o')
partial_fixpoint

def header (depth : Nat) : Unbounded ParserState (Block × Outcome) :=
  BlockCall.header depth |>.answer

def branch (depth : Nat) : Unbounded ParserState (Block × Outcome) :=
  BlockCall.branch depth |>.answer

def choice (depth : Nat) : Unbounded ParserState (Choice × Outcome) :=
  BlockCall.choice depth |>.answer

def choiceList (depth : Nat) : Unbounded ParserState (List Choice × Outcome) :=
  BlockCall.choiceList depth |>.answer

def choices (depth : Nat) : Unbounded ParserState (Block × Outcome) :=
  BlockCall.choices depth |>.answer

def openedBlock (depth : Nat) : Unbounded ParserState (List Block × Outcome) :=
  BlockCall.openedBlock depth |>.answer

def block (depth : Nat) : Unbounded ParserState (List Block × Outcome) :=
  BlockCall.block depth |>.answer

def round (depth : Nat) : Unbounded ParserState (List Block × Outcome) :=
  BlockCall.round depth |>.answer

def sequence (depth stop : Nat) : Unbounded ParserState (List Block × Outcome) :=
  BlockCall.sequence depth stop |>.answer

end Unbounded

/-- Where the parser of a file starts. -/
def ParserState.atStart (file : File) (layout : Layout) : ParserState :=
  { lexer := .ofFile file layout }

/-- Parses a file without fuel. -/
def Unbounded.parse (file : File) (layout : Layout) (maxErrors : Nat) : Option Parsed :=
  (Unbounded.sequence 0 0 (.atStart file layout)).map fun ((blocks, outcome), s) =>
    { document := ⟨file.id, blocks⟩, outcome, diagnostics := keepErrors maxErrors s.log.toList }

end Storyline.Markup
