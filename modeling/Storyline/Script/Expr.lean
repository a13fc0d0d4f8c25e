import Storyline.Script.Token

/-!
# Script expressions

The tree of a script expression, with the span of every node.  A script is a list of
expressions, its statements.

`Expr.missing` stands where a substitution of a template holds no readable expression; the parser
puts it nowhere else.
-/

namespace Storyline.Script

/-- The kind of a value written out. -/
inductive LiteralKind where
  | string
  | number
  | bool
  | null
  | undefined
deriving DecidableEq, Repr, Inhabited

/-- The name of a literal kind. -/
def LiteralKind.name : LiteralKind → String
  | .string => "string"
  | .number => "number"
  | .bool => "bool"
  | .null => "null"
  | .undefined => "undefined"

/-- An expression. -/
inductive Expr where
  /-- A value: how it is written, and the text, digits or word that it means. -/
  | literal (span : Span) (kind : LiteralKind) (raw value : Bytes)
  | identifier (span : Span) (name : Bytes)
  | binary (span : Span) (op : TokenKind) (left right : Expr)
  /-- An operator before its operand. -/
  | unary (span : Span) (op : TokenKind) (operand : Expr)
  /-- An operator after its operand. -/
  | trailing (span : Span) (op : TokenKind) (operand : Expr)
  /-- A property by name, `base.name`. -/
  | member (span : Span) (base : Expr) (name : Bytes) (nameSpan : Span)
  /-- A property by value, `base[index]`. -/
  | index (span : Span) (base index : Expr)
  | call (span : Span) (callee : Expr) (args : List Expr)
  | array (span : Span) (elems : List Expr)
  /-- A construction `new callee`, with an argument list if `hasArgs`. -/
  | construct (span : Span) (callee : Expr) (args : List Expr) (hasArgs : Bool)
  | ternary (span : Span) (cond yes no : Expr)
  /-- A template: texts, each followed by a substituted expression, and a last text. -/
  | template (span : Span) (parts : List (Bytes × Expr)) (tail : Bytes)
  /-- An expression in parentheses. -/
  | group (span : Span) (inner : Expr)
  /-- An expression that could not be read. -/
  | missing
deriving Repr, Inhabited

namespace Expr

/-- The place of an expression. -/
def span : Expr → Span
  | literal s .. | identifier s .. | binary s .. | unary s .. | trailing s .. | member s ..
  | index s .. | call s .. | array s .. | construct s .. | ternary s .. | template s ..
  | group s .. => s
  | missing => ⟨0, 0, 0⟩

/-- What an expression is, in a word. -/
inductive Kind where
  | literal
  | identifier
  | binary
  | unary
  | access
  | call
  | array
  | construct
  | ternary
  | template
  | group
deriving DecidableEq, Repr, Inhabited

namespace Kind

/-- All kinds in the order of their declaration. -/
def all : List Kind :=
  [literal, identifier, binary, unary, access, call, array, construct, ternary, template, group]

/-- The name of a kind. -/
def name : Kind → String
  | literal => "literal"
  | identifier => "identifier"
  | binary => "binary"
  | unary => "unary"
  | access => "access"
  | call => "call"
  | array => "array"
  | construct => "new"
  | ternary => "ternary"
  | template => "template"
  | group => "group"

end Kind

/-- The kind of an expression. -/
def kind? : Expr → Option Kind
  | literal .. => some .literal
  | identifier .. => some .identifier
  | binary .. => some .binary
  | unary .. | trailing .. => some .unary
  | member .. | index .. => some .access
  | call .. => some .call
  | array .. => some .array
  | construct .. => some .construct
  | ternary .. => some .ternary
  | template .. => some .template
  | group .. => some .group
  | missing => none

/-- Whether an expression was read. -/
def isPresent (e : Expr) : Bool := e.kind?.isSome

/-- The direct sub-expressions in source order, missing ones left out. -/
def children (e : Expr) : List Expr :=
  let all := match e with
    | binary _ _ l r => [l, r]
    | unary _ _ x => [x]
    | trailing _ _ x => [x]
    | member _ b _ _ => [b]
    | index _ b i => [b, i]
    | call _ c args => c :: args
    | array _ xs => xs
    | construct _ c args _ => c :: args
    | ternary _ c a b => [c, a, b]
    | template _ parts _ => parts.map Prod.snd
    | group _ x => [x]
    | literal .. | identifier .. | missing => []
  all.filter isPresent

/-- An expression without the parentheses around it. -/
def unparen : Expr → Expr
  | group _ inner => inner.unparen
  | e => e

end Expr

/-- A script: its statements in order. -/
abbrev Statements := List Expr

end Storyline.Script
