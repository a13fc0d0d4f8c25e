import Storyline.Script.Token
import Storyline.Script.Expr
import Storyline.Script.Literal

/-!
# Parsing scripts

Precedence climbing over a list of tokens with one token of lookahead.  The parser never fails:
what it cannot read is reported and skipped, and the statements that could be read are kept.

Binary operators bind with strengths from 2 (assignment) to 13 (power).  Assignments and powers
group to the right, all others to the left; the conditional `? :` binds like an assignment.

A token's own faults are reported when the token is first looked at, so the reports of the lexer
and of the parser come in the order of reading.

The functions are recursive in a `fuel` that bounds the depth of the calls; every call that does
not consume a token is one of a few on the way to one that does, so a fuel proportional to the
length of the text is never used up.
-/

namespace Storyline.Script

/-! ## Operator precedence -/

/-- How tightly a binary operator binds, and to which side it groups. -/
structure Binding where
  strength : Nat
  toTheRight : Bool
deriving DecidableEq, Repr, Inhabited

/-- The strength of assignments and of `? :`. -/
def assignmentStrength : Nat := 2

/-- The binding of a symbol used as a binary operator. -/
def Symbol.binding? : Symbol → Option Binding
  | .assign | .plusAssign | .minusAssign | .starAssign | .slashAssign | .percentAssign
  | .starStarAssign | .coalesceAssign | .andAssign | .orAssign => some ⟨assignmentStrength, true⟩
  | .or | .coalesce => some ⟨3, false⟩
  | .and => some ⟨4, false⟩
  | .pipe => some ⟨5, false⟩
  | .caret => some ⟨6, false⟩
  | .ampersand => some ⟨7, false⟩
  | .equal | .notEqual | .strictEqual | .strictNotEqual => some ⟨8, false⟩
  | .less | .lessEqual | .greater | .greaterEqual => some ⟨9, false⟩
  | .shiftLeft | .shiftRight | .shiftRightUnsigned => some ⟨10, false⟩
  | .plus | .minus => some ⟨11, false⟩
  | .star | .slash | .percent => some ⟨12, false⟩
  | .starStar => some ⟨13, true⟩
  | _ => none

namespace TokenKind

/-- The binding of a token used as a binary operator. -/
def binding? : TokenKind → Option Binding
  | symbol s => s.binding?
  | keyword .in | keyword .instanceof => some ⟨9, false⟩
  | _ => none

/-- Whether a token may stand before its operand. -/
def isPrefixOperator : TokenKind → Bool
  | symbol .bang | symbol .minus | symbol .plus | symbol .tilde
  | symbol .plusPlus | symbol .minusMinus => true
  | keyword .typeof | keyword .void => true
  | _ => false

/-- Whether a token may follow a point as a property name. -/
def isPropertyName : TokenKind → Bool
  | identifier | keyword _ => true
  | _ => false

end TokenKind

/-! ## The state of a parser -/

/-- Where a parser stands. -/
structure ParserState where
  /-- The whole text, for the substitutions of templates. -/
  source : Content
  file : FileId
  /-- How many errors the parser reports at most; 0 means all of them. -/
  maxErrors : Nat
  /-- The tokens to come; the last one is the end of the script. -/
  rest : List Lexeme
  /-- Whether the next token was looked at. -/
  seen : Bool := false
  /-- The place of the last good token. -/
  last : Span
  /-- What was reported, in order. -/
  log : Array Diagnostic := #[]
  /-- How many errors the parser itself has reported. -/
  errors : Nat := 0
deriving Repr, Inhabited

/-- Parsing: reads and changes the parser's state. -/
abbrev Parse := StateM ParserState

namespace Parse

/-! ## Tokens -/

/-- The next token.  Looking at it for the first time reports its faults. -/
def peek : Parse Token := do
  let s ← get
  match s.rest with
  | [] => return ⟨.endOfScript, s.last, []⟩
  | l :: _ =>
    unless s.seen do
      set { s with seen := true, log := s.log ++ l.notices }
    return l.token

/-- Consumes the next token; the end of the script stays. -/
def advance : Parse Token := do
  let t ← peek
  unless t.kind = .endOfScript do
    modify fun s => { s with
      rest := s.rest.tail
      seen := false
      last := if t.kind = .invalid then s.last else t.span }
  return t

/-- Whether the next token has a kind. -/
def at? (k : TokenKind) : Parse Bool := return (← peek).kind = k

/-- Reports an error, unless there were enough. -/
def report (code : Code) (span : Span) (message : Bytes) : Parse Unit :=
  modify fun s =>
    if 0 < s.maxErrors ∧ s.maxErrors ≤ s.errors then s
    else { s with errors := s.errors + 1, log := s.log.push (.error code span message) }

/-- The place of the next token; at the end, the place right after the last good token. -/
def here : Parse Span := do
  let t ← peek
  if t.kind = .endOfScript then
    let s ← get
    return ⟨s.file, s.last.stop, s.last.stop⟩
  else return t.span

/-- Reports an error at the next token. -/
def complain (code : Code) (message : Bytes) : Parse Unit := do
  report code (← here) message

/-- Consumes a token of a kind, or reports that it is not there. -/
def expect (k : TokenKind) (code : Code) (message : Bytes) : Parse (Option Token) := do
  if ← at? k then return some (← advance)
  else
    complain code message
    return none

/-- Consumes a property name, or reports that there is none. -/
def expectName : Parse (Option Token) := do
  if (← peek).kind.isPropertyName then return some (← advance)
  else
    complain .expectIdentifier "expected property name after '.'"
    return none

/-! ## Expressions -/

mutual

/-- An expression whose binary operators all bind more tightly than `floor`. -/
def binary : (fuel floor : Nat) → Parse (Option Expr)
  | 0, _ => return none
  | fuel + 1, floor => do
    match ← unary fuel with
    | none => return none
    | some left => return some (← climb fuel floor left)

/-- Extends `left` by the operators to its right that bind more tightly than `floor`. -/
def climb : (fuel floor : Nat) → (left : Expr) → Parse Expr
  | 0, _, left => return left
  | fuel + 1, floor, left => do
    let op ← peek
    if op.kind = .symbol .question then
      if assignmentStrength ≤ floor then return left
      else
        let left ← ternary fuel left
        climb fuel floor left
    else match op.kind.binding? with
      | none => return left
      | some b =>
        if b.strength ≤ floor then return left
        else
          let _ ← advance
          match ← binary fuel (if b.toTheRight then b.strength - 1 else b.strength) with
          | none =>
            complain .expectExpression ("expected expression after '" ++ op.text ++ "'")
            return left
          | some right =>
            climb fuel floor (.binary (left.span.cover right.span) op.kind left right)

/-- The conditional with condition `cond`; the condition alone if it cannot be read. -/
def ternary : (fuel : Nat) → (cond : Expr) → Parse Expr
  | 0, cond => return cond
  | fuel + 1, cond => do
    let _ ← advance
    match ← binary fuel (assignmentStrength - 1) with
    | none =>
      complain .expectExpression "expected expression after '?'"
      return cond
    | some yes =>
      match ← expect (.symbol .colon) .unexpectedToken "expected ':' in conditional expression" with
      | none => return cond
      | some _ =>
        match ← binary fuel (assignmentStrength - 1) with
        | none =>
          complain .expectExpression "expected expression after ':'"
          return cond
        | some no => return .ternary (cond.span.cover no.span) cond yes no

/-- Operators before an operand, or an operand with what follows it. -/
def unary : (fuel : Nat) → Parse (Option Expr)
  | 0 => return none
  | fuel + 1 => do
    let t ← peek
    if t.kind.isPrefixOperator then
      let _ ← advance
      match ← unary fuel with
      | none =>
        complain .expectExpression ("expected operand after '" ++ t.text ++ "'")
        return none
      | some x => return some (.unary (t.span.cover x.span) t.kind x)
    else
      match ← primary fuel with
      | none => return none
      | some x => return some (← chain fuel x)

/-- Extends `base` by properties, indices, calls and one trailing operator. -/
def chain : (fuel : Nat) → (base : Expr) → Parse Expr
  | 0, base => return base
  | fuel + 1, base => do
    let t ← peek
    if t.kind = .symbol .dot then
      let _ ← advance
      match ← expectName with
      | none => return base
      | some name => chain fuel (.member (base.span.cover name.span) base name.text name.span)
    else if t.kind = .symbol .leftBracket then
      let _ ← advance
      let i? ← binary fuel 0
      let closing ← expect (.symbol .rightBracket) .unclosedBracket "expected ']'"
      match i? with
      | none =>
        complain .expectExpression "expected index expression"
        return base
      | some i =>
        let stop := (closing.map Token.span).getD i.span
        chain fuel (.index (base.span.cover stop) base i)
    else if t.kind = .symbol .leftParen then
      let (args, stop) ← arguments fuel
      chain fuel (.call (base.span.cover stop) base args)
    else if t.kind = .symbol .plusPlus || t.kind = .symbol .minusMinus then
      let op ← advance
      return .trailing (base.span.cover op.span) op.kind base
    else return base

/-- An argument list, and the place where it ends. -/
def arguments : (fuel : Nat) → Parse (List Expr × Span)
  | 0 => return ([], ⟨0, 0, 0⟩)
  | fuel + 1 => do
    let opening ← advance
    let (args, stop) ← listUntil fuel (.symbol .rightParen) .unclosedParen "expected ')'"
    return (args, if stop.isEmpty then opening.span else stop)

/-- Expressions with commas between them up to a closing token, and the place where they end. -/
def listUntil : (fuel : Nat) → (closing : TokenKind) → Code → Bytes → Parse (List Expr × Span)
  | 0, _, _, _ => return ([], ⟨0, 0, 0⟩)
  | fuel + 1, closing, code, message => do
    let xs ← items fuel closing #[]
    let last := (← get).last
    let stop ← expect closing code message
    return (xs, (stop.map Token.span).getD last)

/-- Adds expressions with commas between them to `acc`. -/
def items : (fuel : Nat) → (closing : TokenKind) → Array Expr → Parse (List Expr)
  | 0, _, acc => return acc.toList
  | fuel + 1, closing, acc => do
    let t ← peek
    if t.kind = closing || t.kind = .endOfScript then return acc.toList
    else
      match ← binary fuel 0 with
      | none => return acc.toList
      | some x =>
        if ← at? (.symbol .comma) then
          let _ ← advance
          items fuel closing (acc.push x)
        else return (acc.push x).toList

/-- A literal, a name, or something in brackets. -/
def primary : (fuel : Nat) → Parse (Option Expr)
  | 0 => return none
  | fuel + 1 => do
    let t ← peek
    match t.kind with
    | .number =>
      let _ ← advance
      return some (.literal t.span .number t.text (numberValue t.text))
    | .string =>
      let _ ← advance
      return some (.literal t.span .string t.text (stringValue t.text))
    | .keyword .true =>
      let _ ← advance
      return some (.literal t.span .bool t.text t.text)
    | .keyword .false =>
      let _ ← advance
      return some (.literal t.span .bool t.text t.text)
    | .keyword .null =>
      let _ ← advance
      return some (.literal t.span .null t.text t.text)
    | .keyword .undefined =>
      let _ ← advance
      return some (.literal t.span .undefined t.text t.text)
    | .template =>
      let _ ← advance
      return some (← template fuel t)
    | .identifier =>
      let _ ← advance
      return some (.identifier t.span t.text)
    | .symbol .leftParen =>
      let _ ← advance
      let inner? ← binary fuel 0
      let closing ← expect (.symbol .rightParen) .unclosedParen "expected ')'"
      match inner? with
      | none => return none
      | some inner =>
        let stop := (closing.map Token.span).getD inner.span
        return some (.group (t.span.cover stop) inner)
    | .symbol .leftBracket =>
      let _ ← advance
      let (xs, stop) ← listUntil fuel (.symbol .rightBracket) .unclosedBracket "expected ']'"
      return some (.array (t.span.cover stop) xs)
    | .keyword .new => construct fuel
    | .endOfScript =>
      complain .expectExpression "expected expression"
      return none
    | .invalid =>
      let _ ← advance
      return none
    | _ =>
      report .unexpectedToken t.span ("unexpected '" ++ t.text ++ "'")
      let _ ← advance
      return none

/-- The word `new`, what is constructed, and its arguments if there are any. -/
def construct : (fuel : Nat) → Parse (Option Expr)
  | 0 => return none
  | fuel + 1 => do
    let word ← advance
    let callee? ← if ← at? (.keyword .new) then construct fuel else primary fuel
    match callee? with
    | none => return none
    | some first =>
      let callee ← properties fuel first
      if ← at? (.symbol .leftParen) then
        let (args, stop) ← arguments fuel
        return some (.construct (word.span.cover stop) callee args true)
      else return some (.construct (word.span.cover callee.span) callee [] false)

/-- Extends `base` by properties only. -/
def properties : (fuel : Nat) → (base : Expr) → Parse Expr
  | 0, base => return base
  | fuel + 1, base => do
    if ← at? (.symbol .dot) then
      let _ ← advance
      match ← expectName with
      | none => return base
      | some name => properties fuel (.member (base.span.cover name.span) base name.text name.span)
    else return base

/-- The template of a template token. -/
def template : (fuel : Nat) → (t : Token) → Parse Expr
  | 0, t => return .template t.span [] []
  | fuel + 1, t => do
    let shape := templateOf t.span.start t.text
    let parts ← substitutions fuel shape.parts #[]
    match shape.unclosed with
    | none => pure ()
    | some pos =>
      report .unclosedTemplate ⟨(← get).file, pos, t.span.stop⟩
        "missing closing '\x7d' in template substitution"
    return .template t.span parts shape.tail

/-- Reads the substitutions of a template, adding them to `acc`. -/
def substitutions : (fuel : Nat) → List TemplatePart → Array (Bytes × Expr) →
    Parse (List (Bytes × Expr))
  | 0, _, acc => return acc.toList
  | _ + 1, [], acc => return acc.toList
  | fuel + 1, p :: ps, acc => do
    let x ← substitution fuel p.start p.stop
    substitutions fuel ps (acc.push (p.text, x))

/-- The expression between two offsets of the source.  The tokens around it stay as they are. -/
def substitution : (fuel : Nat) → (start stop : Nat) → Parse Expr
  | 0, _, _ => return .missing
  | fuel + 1, start, stop => do
    let outer ← get
    set { outer with
      rest := lexemesIn outer.source outer.file start stop
      seen := false
      last := ⟨outer.file, start, start⟩ }
    let x ← binary fuel 0
    let t ← peek
    unless t.kind = .endOfScript do
      report .unexpectedToken t.span ("unexpected '" ++ t.text ++ "' in template substitution")
    modify fun s => { s with rest := outer.rest, seen := outer.seen, last := outer.last }
    return x.getD .missing

end

/-- Statements up to the end of the script, added to `acc`. -/
def statements : (fuel : Nat) → Array Expr → Parse Statements
  | 0, acc => return acc.toList
  | fuel + 1, acc => do
    let t ← peek
    if t.kind = .endOfScript then return acc.toList
    else if t.kind = .symbol .semicolon then
      let _ ← advance
      statements fuel acc
    else
      match ← binary fuel 0 with
      | none => statements fuel acc
      | some x =>
        let t ← peek
        if t.kind = .symbol .semicolon || t.kind = .endOfScript then
          statements fuel (acc.push x)
        else
          unless t.kind = .invalid do
            report .unexpectedToken t.span ("unexpected '" ++ t.text ++ "' after expression")
          let _ ← advance
          statements fuel (acc.push x)

end Parse

/-- A parsed script with what was reported about it. -/
structure Parsed where
  script : Statements
  diagnostics : List Diagnostic
deriving Repr, Inhabited

/-- Calls that a text of a given length can nest. -/
def parseFuel (length : Nat) : Nat := 16 * length + 16

/-- Parses a script; spans count from its start.  At most `maxErrors` errors of the parser are
reported, or all of them if that is 0.

Offsets in a script are words, so that no cursor can be put on a text of 2^32 bytes or more, and
such a text has no reading.  Scripts are cut out of files, which are shorter than that; what is said
of a script by itself is meant of shorter texts as well, also where the statement holds of all. -/
def parse (text : Bytes) (file : FileId) (maxErrors : Nat) : Parsed :=
  let start : ParserState := {
    source := text.toArray, file, maxErrors
    rest := lexemes file 0 text
    last := ⟨file, 0, 0⟩ }
  let (script, final) := (Parse.statements (parseFuel text.length) #[]).run start
  ⟨script, final.log.toList⟩

end Storyline.Script
