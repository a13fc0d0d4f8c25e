import Storyline.Source.Span

/-!
# The tree of a story file

A story file is a list of blocks.  Headers hold the blocks below them, choices and matches hold
the blocks indented under them, and texts interleave literal runs with inline elements.  Every
node knows its span.
-/

namespace Storyline.Markup

/-! ## Text -/

/-- Emphasis put around a text by a pair of delimiters. -/
inductive Style where
  | bold
  | italics
  | underline
deriving DecidableEq, Repr, Inhabited

namespace Style

/-- What stands before and after a styled text. -/
def delimiter : Style → Bytes
  | bold => "**"
  | italics => "*"
  | underline => "__"

end Style

/-- The kinds of inline elements. -/
inductive InlineKind where
  | bold
  | italics
  | underline
  | code
  | join
  | script
deriving DecidableEq, Repr, Inhabited

namespace InlineKind

/-- All kinds; the place in this list is the number of a kind in documents. -/
def all : List InlineKind := [bold, italics, underline, code, join, script]

/-- The name of a kind. -/
def name : InlineKind → String
  | bold => "bold"
  | italics => "italics"
  | underline => "underline"
  | code => "code"
  | join => "join"
  | script => "script"

end InlineKind

/-- An element inside a text. -/
inductive Inline where
  /-- A text between two delimiters; `parts`, `tail` and `inner` are its parts, its last literal
  run and its span. -/
  | styled (style : Style) (parts : List (Bytes × Inline)) (tail : Bytes) (inner span : Span)
  /-- Text between backquotes, taken as it is. -/
  | code (raw : Bytes) (inner span : Span)
  /-- The mark `<>`, which joins the lines around it. -/
  | join (span : Span)
  /-- A script between braces. -/
  | script (raw : Bytes) (inner span : Span)
deriving Repr, Inhabited

/-- Literal runs and inline elements in turn, and a last literal run. -/
structure Text where
  parts : List (Bytes × Inline)
  tail : Bytes
  span : Span
deriving Repr, Inhabited

namespace Inline

/-- The kind of an inline element. -/
def kind : Inline → InlineKind
  | styled .bold .. => .bold
  | styled .italics .. => .italics
  | styled .underline .. => .underline
  | code .. => .code
  | join .. => .join
  | script .. => .script

/-- The place of an inline element, delimiters included. -/
def span : Inline → Span
  | styled _ _ _ _ s | code _ _ s | join s | script _ _ s => s

/-- The text inside an inline element. -/
def text? : Inline → Option Text
  | styled _ parts tail inner _ => some ⟨parts, tail, inner⟩
  | code raw inner _ => some ⟨[], raw, inner⟩
  | join _ | script .. => none

mutual

/-- The element without markup; scripts keep their braces. -/
def plain : Inline → Bytes
  | styled _ parts tail _ _ => plainParts parts ++ tail
  | code raw _ _ => raw
  | join _ => []
  | script raw _ _ => "\x7b" ++ raw ++ "\x7d"

/-- Literal runs and elements without markup. -/
def plainParts : List (Bytes × Inline) → Bytes
  | [] => []
  | (before, e) :: rest => before ++ e.plain ++ plainParts rest

end

mutual

/-- The element as it is written, delimiters included. -/
def source : Inline → Bytes
  | styled s parts tail _ _ => s.delimiter ++ sourceParts parts ++ tail ++ s.delimiter
  | code raw _ _ => [0x60] ++ raw ++ [0x60]
  | join _ => "<>"
  | script raw _ _ => "\x7b" ++ raw ++ "\x7d"

/-- Literal runs and elements as they are written. -/
def sourceParts : List (Bytes × Inline) → Bytes
  | [] => []
  | (before, e) :: rest => before ++ e.source ++ sourceParts rest

end

end Inline

namespace Text

/-- Whether there is nothing in the text. -/
def isEmpty (t : Text) : Bool := t.parts.isEmpty && t.tail.isEmpty

/-- The text without markup. -/
def plain (t : Text) : Bytes := Inline.plainParts t.parts ++ t.tail

/-- The text as it is written. -/
def source (t : Text) : Bytes := Inline.sourceParts t.parts ++ t.tail

end Text

/-! ## Blocks -/

/-- An annotation `@name(a, b)`. -/
structure Attribute where
  name : Bytes
  /-- The parameters, or nothing if there are no parentheses. -/
  params : Option (List Bytes)
  /-- What stands between the parentheses. -/
  raw : Bytes
  span : Span
deriving DecidableEq, Repr, Inhabited

/-- A header line. -/
structure Heading where
  title : Bytes
  titleSpan : Span
  /-- How many `#` it starts with. -/
  depth : Nat
  attrs : List Attribute := []
  /-- The header with everything below it. -/
  span : Span
deriving DecidableEq, Repr, Inhabited

/-- One line of text. -/
structure Paragraph where
  text : Text
  attrs : List Attribute := []
  span : Span
deriving Repr, Inhabited

/-- A fenced block. -/
structure CodeBlock where
  language : Bytes
  code : Bytes
  attrs : List Attribute := []
  span : Span
deriving DecidableEq, Repr, Inhabited

/-- A part of a dotted path. -/
structure Segment where
  name : Bytes
  span : Span
deriving DecidableEq, Repr, Inhabited

/-- A jump to another header. -/
structure Divert where
  path : List Segment
  /-- Whether the story comes back afterwards. -/
  temporary : Bool
  attrs : List Attribute := []
  span : Span
deriving DecidableEq, Repr, Inhabited

/-- How a match reads its condition. -/
inductive MatchMode where
  | default
  | if
  | not
deriving DecidableEq, Repr, Inhabited

/-- The name of a mode. -/
def MatchMode.name : MatchMode → String
  | .default => "default"
  | .if => "if"
  | .not => "not"

/-- All modes. -/
def MatchMode.all : List MatchMode := [.default, .if, .not]

/-- The line `@{condition} modifier`. -/
structure MatchLine where
  condition : Bytes
  conditionSpan : Span
  modifier : Bytes
  mode : MatchMode
  attrs : List Attribute := []
  /-- The match with everything below it. -/
  span : Span
deriving DecidableEq, Repr, Inhabited

/-- What guards a choice. -/
structure Condition where
  /-- The word `if` or `not`. -/
  modifier : Bytes
  text : Bytes
  span : Span
deriving DecidableEq, Repr, Inhabited

/-- The line of a choice. -/
structure ChoiceLine where
  text : Text
  condition : Option Condition
  attrs : List Attribute
  /-- The choice with everything below it. -/
  span : Span
deriving Repr, Inhabited

mutual

/-- A block of a story file. -/
inductive Block where
  | paragraph (p : Paragraph)
  | code (c : CodeBlock)
  | choices (choices : List Choice) (attrs : List Attribute) (span : Span)
  | divert (d : Divert)
  /-- A match with the choices below it, its arms, and the other blocks below it. -/
  | branch (line : MatchLine) (arms : List Choice) (children : List Block)
  | header (heading : Heading) (children : List Block)
deriving Repr, Inhabited

/-- A choice with the blocks below it. -/
inductive Choice where
  | mk (line : ChoiceLine) (children : List Block)
deriving Repr, Inhabited

end

namespace Choice

/-- The line of a choice. -/
def line : Choice → ChoiceLine
  | mk line _ => line

/-- The blocks below a choice. -/
def children : Choice → List Block
  | mk _ children => children

/-- The place of a choice. -/
def span (c : Choice) : Span := c.line.span

end Choice

/-- The kinds of blocks. -/
inductive BlockKind where
  | paragraph
  | code
  | choices
  | divert
  | branch
  | header
deriving DecidableEq, Repr, Inhabited

namespace BlockKind

/-- All kinds; the place in this list is the number of a kind in documents. -/
def all : List BlockKind := [paragraph, code, choices, divert, branch, header]

/-- The name of a kind. -/
def name : BlockKind → String
  | paragraph => "paragraph"
  | code => "code"
  | choices => "choices"
  | divert => "divert"
  | branch => "match"
  | header => "header"

end BlockKind

namespace Block

/-- The kind of a block. -/
def kind : Block → BlockKind
  | paragraph _ => .paragraph
  | code _ => .code
  | choices .. => .choices
  | divert _ => .divert
  | branch .. => .branch
  | header .. => .header

/-- The place of a block with everything below it. -/
def span : Block → Span
  | paragraph p => p.span
  | code c => c.span
  | choices _ _ s => s
  | divert d => d.span
  | branch m _ _ => m.span
  | header h _ => h.span

/-- The attributes of a block. -/
def attrs : Block → List Attribute
  | paragraph p => p.attrs
  | code c => c.attrs
  | choices _ as _ => as
  | divert d => d.attrs
  | branch m _ _ => m.attrs
  | header h _ => h.attrs

/-- The block with other attributes. -/
def withAttrs (as : List Attribute) : Block → Block
  | paragraph p => .paragraph { p with attrs := as }
  | code c => .code { c with attrs := as }
  | choices cs _ s => .choices cs as s
  | divert d => .divert { d with attrs := as }
  | branch m arms children => .branch { m with attrs := as } arms children
  | header h children => .header { h with attrs := as } children

end Block

/-- The tree of one file. -/
structure Document where
  file : FileId
  blocks : List Block
deriving Repr, Inhabited

end Storyline.Markup
