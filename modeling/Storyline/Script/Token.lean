import Storyline.Diagnostic.Basic

/-!
# Script tokens

The vocabulary of the script language: names, literals, nine reserved words and fifty-one
operators and punctuation marks.  Each reserved word and symbol knows its spelling, and no two
share one.
-/

namespace Storyline.Script

/-- Words that are not names. -/
inductive Keyword where
  | true
  | false
  | null
  | undefined
  | new
  | typeof
  | void
  | in
  | instanceof
deriving DecidableEq, Repr, Inhabited

namespace Keyword

/-- All reserved words. -/
def all : List Keyword :=
  [.true, .false, .null, .undefined, .new, .typeof, .void, .in, .instanceof]

/-- The spelling of a reserved word. -/
def text : Keyword → String
  | .true => "true"
  | .false => "false"
  | .null => "null"
  | .undefined => "undefined"
  | .new => "new"
  | .typeof => "typeof"
  | .void => "void"
  | .in => "in"
  | .instanceof => "instanceof"

/-- The reserved word with a spelling. -/
def ofBytes? (s : Bytes) : Option Keyword := all.find? fun k => (k.text : Bytes) = s

end Keyword

/-- Operators and punctuation. -/
inductive Symbol where
  | plus
  | minus
  | star
  | starStar
  | slash
  | percent
  | plusPlus
  | minusMinus
  | assign
  | plusAssign
  | minusAssign
  | starAssign
  | slashAssign
  | percentAssign
  | starStarAssign
  | coalesceAssign
  | andAssign
  | orAssign
  | equal
  | strictEqual
  | notEqual
  | strictNotEqual
  | less
  | lessEqual
  | greater
  | greaterEqual
  | shiftLeft
  | shiftRight
  | shiftRightUnsigned
  | ampersand
  | pipe
  | caret
  | tilde
  | bang
  | and
  | or
  | coalesce
  | question
  | colon
  | semicolon
  | comma
  | dot
  | ellipsis
  | leftParen
  | rightParen
  | leftBracket
  | rightBracket
  | leftBrace
  | rightBrace
deriving DecidableEq, Repr, Inhabited

namespace Symbol

/-- The spelling of a symbol. -/
def text : Symbol → String
  | plus => "+"
  | minus => "-"
  | star => "*"
  | starStar => "**"
  | slash => "/"
  | percent => "%"
  | plusPlus => "++"
  | minusMinus => "--"
  | assign => "="
  | plusAssign => "+="
  | minusAssign => "-="
  | starAssign => "*="
  | slashAssign => "/="
  | percentAssign => "%="
  | starStarAssign => "**="
  | coalesceAssign => "??="
  | andAssign => "&&="
  | orAssign => "||="
  | equal => "=="
  | strictEqual => "==="
  | notEqual => "!="
  | strictNotEqual => "!=="
  | less => "<"
  | lessEqual => "<="
  | greater => ">"
  | greaterEqual => ">="
  | shiftLeft => "<<"
  | shiftRight => ">>"
  | shiftRightUnsigned => ">>>"
  | ampersand => "&"
  | pipe => "|"
  | caret => "^"
  | tilde => "~"
  | bang => "!"
  | and => "&&"
  | or => "||"
  | coalesce => "??"
  | question => "?"
  | colon => ":"
  | semicolon => ";"
  | comma => ","
  | dot => "."
  | ellipsis => "..."
  | leftParen => "("
  | rightParen => ")"
  | leftBracket => "["
  | rightBracket => "]"
  | leftBrace => "\x7b"
  | rightBrace => "\x7d"

/-- All symbols in the order of their declaration. -/
def all : List Symbol := [
  plus, minus, star, starStar, slash, percent, plusPlus, minusMinus,
  assign, plusAssign, minusAssign, starAssign, slashAssign, percentAssign, starStarAssign,
  coalesceAssign, andAssign, orAssign,
  equal, strictEqual, notEqual, strictNotEqual, less, lessEqual, greater, greaterEqual,
  shiftLeft, shiftRight, shiftRightUnsigned, ampersand, pipe, caret, tilde, bang, and, or,
  coalesce, question, colon, semicolon, comma, dot, ellipsis,
  leftParen, rightParen, leftBracket, rightBracket, leftBrace, rightBrace]

/-- All symbols, longer ones first, so that the first whose spelling fits is the longest. -/
def longestFirst : List Symbol := [
  shiftRightUnsigned, strictEqual, strictNotEqual, starStarAssign, coalesceAssign, andAssign,
  orAssign, ellipsis,
  starStar, plusPlus, minusMinus, plusAssign, minusAssign, starAssign, slashAssign,
  percentAssign, equal, notEqual, lessEqual, greaterEqual, shiftLeft, shiftRight, and, or,
  coalesce,
  plus, minus, star, slash, percent, assign, less, greater, ampersand, pipe, caret, tilde, bang,
  question, colon, semicolon, comma, dot, leftParen, rightParen, leftBracket, rightBracket,
  leftBrace, rightBrace]

/-- Whether the symbol assigns to its left operand. -/
def isAssign : Symbol → Bool
  | assign | plusAssign | minusAssign | starAssign | slashAssign | percentAssign
  | starStarAssign | coalesceAssign | andAssign | orAssign => true
  | _ => false

end Symbol

/-- The category of a token. -/
inductive TokenKind where
  | invalid
  | endOfScript
  | identifier
  | number
  | string
  | template
  | keyword (k : Keyword)
  | symbol (s : Symbol)
deriving DecidableEq, Repr, Inhabited

namespace TokenKind

/-- All categories: the six general ones, the reserved words, then the symbols. -/
def all : List TokenKind :=
  [invalid, endOfScript, identifier, number, string, template]
    ++ Keyword.all.map keyword ++ Symbol.all.map symbol

/-- The name of a category; for reserved words and symbols their spelling. -/
def name : TokenKind → String
  | invalid => "invalid"
  | endOfScript => "end of script"
  | identifier => "identifier"
  | number => "number"
  | string => "string"
  | template => "template"
  | keyword k => k.text
  | symbol s => s.text

/-- Whether the category is an assignment operator. -/
def isAssign : TokenKind → Bool
  | symbol s => s.isAssign
  | _ => false

/-- Whether the category is that of a value written out. -/
def isLiteral : TokenKind → Bool
  | number | string | template => true
  | keyword .true | keyword .false | keyword .null | keyword .undefined => true
  | _ => false

end TokenKind

/-- A token with its place and spelling. -/
structure Token where
  kind : TokenKind
  span : Span
  text : Bytes
deriving DecidableEq, Repr, Inhabited

/-- A token together with what was reported while it was read. -/
structure Lexeme where
  token : Token
  notices : List Diagnostic
deriving DecidableEq, Repr, Inhabited

end Storyline.Script
