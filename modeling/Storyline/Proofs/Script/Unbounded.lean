import Storyline.Proofs.Unbounded
import Storyline.Script.Parser

/-!
# The script parser without fuel

The functions of the parser once more, with the same names, but without any fuel: where they did not
end they would give nothing.  All of them are answers to calls (`Call`), since they call each other.
One round of `statements` is a call of its own, since every round has to get on.
-/

namespace Storyline.Script

namespace Unbounded

open Parse (peek advance at? report complain expect expectName)

/-! ## Calls -/

/-- The calls of functions of the parser, by what they give. -/
inductive Call : Type → Type 1 where
  /-- An expression whose binary operators all bind more tightly than `floor`. -/
  | binary (floor : Nat) : Call (Option Expr)
  /-- Extends `left` by the operators to its right that bind more tightly than `floor`. -/
  | climb (floor : Nat) (left : Expr) : Call Expr
  /-- The conditional with condition `cond`; the condition alone if it cannot be read. -/
  | ternary (cond : Expr) : Call Expr
  /-- Operators before an operand, or an operand with what follows it. -/
  | unary : Call (Option Expr)
  /-- Extends `base` by properties, indices, calls and one trailing operator. -/
  | chain (base : Expr) : Call Expr
  /-- An argument list, and the place where it ends. -/
  | arguments : Call (List Expr × Span)
  /-- Expressions with commas between them up to a closing token, and the place where they end. -/
  | listUntil (closing : TokenKind) (code : Code) (message : Bytes) : Call (List Expr × Span)
  /-- Adds expressions with commas between them to `acc`. -/
  | items (closing : TokenKind) (acc : Array Expr) : Call (List Expr)
  /-- A literal, a name, or something in brackets. -/
  | primary : Call (Option Expr)
  /-- The word `new`, what is constructed, and its arguments if there are any. -/
  | construct : Call (Option Expr)
  /-- Extends `base` by properties only. -/
  | properties (base : Expr) : Call Expr
  /-- The template of a template token. -/
  | template (t : Token) : Call Expr
  /-- Reads the substitutions of a template, adding them to `acc`. -/
  | substitutions (ps : List TemplatePart) (acc : Array (Bytes × Expr)) : Call (List (Bytes × Expr))
  /-- The expression between two offsets of the source.  The tokens around it stay as they are. -/
  | substitution (start stop : Nat) : Call Expr
  /-- One statement, or one semicolon between statements; a statement that can be read is added to
  `acc`. -/
  | round (acc : Array Expr) : Call (Array Expr)
  /-- Statements up to the end of the script, added to `acc`. -/
  | statements (acc : Array Expr) : Call Statements

/-- What a call does, by the answers to the calls that it makes. -/
def Call.answer {α : Type} : Call α → Unbounded ParserState α
  | .binary floor => do
    match ← (unary |>.answer) with
    | none => return none
    | some left => return some (← climb floor left |>.answer)
  | .climb floor left => do
    let op ← peek
    if op.kind = .symbol .question then
      if assignmentStrength ≤ floor then return left
      else
        let left ← ternary left |>.answer
        climb floor left |>.answer
    else match op.kind.binding? with
      | none => return left
      | some b =>
        if b.strength ≤ floor then return left
        else
          let _ ← advance
          match ← (binary (if b.toTheRight then b.strength - 1 else b.strength) |>.answer) with
          | none =>
            complain .expectExpression ("expected expression after '" ++ op.text ++ "'")
            return left
          | some right =>
            climb floor (.binary (left.span.cover right.span) op.kind left right) |>.answer
  | .ternary cond => do
    let _ ← advance
    match ← (binary (assignmentStrength - 1) |>.answer) with
    | none =>
      complain .expectExpression "expected expression after '?'"
      return cond
    | some yes =>
      match ← expect (.symbol .colon) .unexpectedToken "expected ':' in conditional expression" with
      | none => return cond
      | some _ =>
        match ← (binary (assignmentStrength - 1) |>.answer) with
        | none =>
          complain .expectExpression "expected expression after ':'"
          return cond
        | some no => return .ternary (cond.span.cover no.span) cond yes no
  | .unary => do
    let t ← peek
    if t.kind.isPrefixOperator then
      let _ ← advance
      match ← (unary |>.answer) with
      | none =>
        complain .expectExpression ("expected operand after '" ++ t.text ++ "'")
        return none
      | some x => return some (.unary (t.span.cover x.span) t.kind x)
    else
      match ← (primary |>.answer) with
      | none => return none
      | some x => return some (← chain x |>.answer)
  | .chain base => do
    let t ← peek
    if t.kind = .symbol .dot then
      let _ ← advance
      match ← expectName with
      | none => return base
      | some name => chain (.member (base.span.cover name.span) base name.text name.span) |>.answer
    else if t.kind = .symbol .leftBracket then
      let _ ← advance
      let i? ← binary 0 |>.answer
      let closing ← expect (.symbol .rightBracket) .unclosedBracket "expected ']'"
      match i? with
      | none =>
        complain .expectExpression "expected index expression"
        return base
      | some i =>
        let stop := (closing.map Token.span).getD i.span
        chain (.index (base.span.cover stop) base i) |>.answer
    else if t.kind = .symbol .leftParen then
      let (args, stop) ← arguments |>.answer
      chain (.call (base.span.cover stop) base args) |>.answer
    else if t.kind = .symbol .plusPlus || t.kind = .symbol .minusMinus then
      let op ← advance
      return .trailing (base.span.cover op.span) op.kind base
    else return base
  | .arguments => do
    let opening ← advance
    let (args, stop) ← listUntil (.symbol .rightParen) .unclosedParen "expected ')'" |>.answer
    return (args, if stop.isEmpty then opening.span else stop)
  | .listUntil closing code message => do
    let xs ← items closing #[] |>.answer
    let last := (← get).last
    let stop ← expect closing code message
    return (xs, (stop.map Token.span).getD last)
  | .items closing acc => do
    let t ← peek
    if t.kind = closing || t.kind = .endOfScript then return acc.toList
    else
      match ← (binary 0 |>.answer) with
      | none => return acc.toList
      | some x =>
        if ← at? (.symbol .comma) then
          let _ ← advance
          items closing (acc.push x) |>.answer
        else return (acc.push x).toList
  | .primary => do
    let t ← peek
    match t.kind with
    | .number =>
      let _ ← advance
      return some (.literal t.span .number t.text (numberValue t.text))
    | .string =>
      let _ ← advance
      return some (.literal t.span .string t.text (stringValue t.text))
    | .keyword .true =>
      let _ ← advance
      return some (.literal t.span .bool t.text t.text)
    | .keyword .false =>
      let _ ← advance
      return some (.literal t.span .bool t.text t.text)
    | .keyword .null =>
      let _ ← advance
      return some (.literal t.span .null t.text t.text)
    | .keyword .undefined =>
      let _ ← advance
      return some (.literal t.span .undefined t.text t.text)
    | .template =>
      let _ ← advance
      return some (← template t |>.answer)
    | .identifier =>
      let _ ← advance
      return some (.identifier t.span t.text)
    | .symbol .leftParen =>
      let _ ← advance
      let inner? ← binary 0 |>.answer
      let closing ← expect (.symbol .rightParen) .unclosedParen "expected ')'"
      match inner? with
      | none => return none
      | some inner =>
        let stop := (closing.map Token.span).getD inner.span
        return some (.group (t.span.cover stop) inner)
    | .symbol .leftBracket =>
      let _ ← advance
      let (xs, stop) ← listUntil (.symbol .rightBracket) .unclosedBracket "expected ']'" |>.answer
      return some (.array (t.span.cover stop) xs)
    | .keyword .new => construct |>.answer
    | .endOfScript =>
      complain .expectExpression "expected expression"
      return none
    | .invalid =>
      let _ ← advance
      return none
    | _ =>
      report .unexpectedToken t.span ("unexpected '" ++ t.text ++ "'")
      let _ ← advance
      return none
  | .construct => do
    let word ← advance
    let nested ← at? (.keyword .new)
    let callee? ← (if nested then construct |>.answer else primary |>.answer :
      Unbounded ParserState (Option Expr))
    match callee? with
    | none => return none
    | some first =>
      let callee ← properties first |>.answer
      if ← at? (.symbol .leftParen) then
        let (args, stop) ← arguments |>.answer
        return some (.construct (word.span.cover stop) callee args true)
      else return some (.construct (word.span.cover callee.span) callee [] false)
  | .properties base => do
    if ← at? (.symbol .dot) then
      let _ ← advance
      match ← expectName with
      | none => return base
      | some name =>
        properties (.member (base.span.cover name.span) base name.text name.span) |>.answer
    else return base
  | .template t => do
    let shape := templateOf t.span.start t.text
    let parts ← substitutions shape.parts #[] |>.answer
    match shape.unclosed with
    | none => pure ()
    | some pos =>
      report .unclosedTemplate ⟨(← get).file, pos, t.span.stop⟩
        "missing closing '\x7d' in template substitution"
    return .template t.span parts shape.tail
  | .substitutions ps acc => do
    match ps with
    | [] => return acc.toList
    | p :: ps =>
      let x ← substitution p.start p.stop |>.answer
      substitutions ps (acc.push (p.text, x)) |>.answer
  | .substitution start stop => do
    let outer ← get
    set { outer with
      rest := lexemesIn outer.source outer.file start stop
      seen := false
      last := ⟨outer.file, start, start⟩ }
    let x ← binary 0 |>.answer
    let t ← peek
    unless t.kind = .endOfScript do
      report .unexpectedToken t.span ("unexpected '" ++ t.text ++ "' in template substitution")
    modify fun s => { s with rest := outer.rest, seen := outer.seen, last := outer.last }
    return x.getD .missing
  | .round acc => do
    let t ← peek
    if t.kind = .symbol .semicolon then
      let _ ← advance
      return acc
    else
      match ← (binary 0 |>.answer) with
      | none => return acc
      | some x =>
        let t ← peek
        if t.kind = .symbol .semicolon || t.kind = .endOfScript then return acc.push x
        else
          unless t.kind = .invalid do
            report .unexpectedToken t.span ("unexpected '" ++ t.text ++ "' after expression")
          let _ ← advance
          return acc.push x
  | .statements acc => do
    let t ← peek
    if t.kind = .endOfScript then return acc.toList
    else
      let acc ← round acc |>.answer
      statements acc |>.answer
partial_fixpoint

/-! ## The functions -/

def binary (floor : Nat) : Unbounded ParserState (Option Expr) :=
  Call.binary floor |>.answer

def climb (floor : Nat) (left : Expr) : Unbounded ParserState Expr :=
  Call.climb floor left |>.answer

def ternary (cond : Expr) : Unbounded ParserState Expr :=
  Call.ternary cond |>.answer

def unary : Unbounded ParserState (Option Expr) :=
  Call.unary |>.answer

def chain (base : Expr) : Unbounded ParserState Expr :=
  Call.chain base |>.answer

def arguments : Unbounded ParserState (List Expr × Span) :=
  Call.arguments |>.answer

def listUntil (closing : TokenKind) (code : Code) (message : Bytes) :
    Unbounded ParserState (List Expr × Span) :=
  Call.listUntil closing code message |>.answer

def items (closing : TokenKind) (acc : Array Expr) : Unbounded ParserState (List Expr) :=
  Call.items closing acc |>.answer

def primary : Unbounded ParserState (Option Expr) :=
  Call.primary |>.answer

def construct : Unbounded ParserState (Option Expr) :=
  Call.construct |>.answer

def properties (base : Expr) : Unbounded ParserState Expr :=
  Call.properties base |>.answer

def template (t : Token) : Unbounded ParserState Expr :=
  Call.template t |>.answer

def substitutions (ps : List TemplatePart) (acc : Array (Bytes × Expr)) :
    Unbounded ParserState (List (Bytes × Expr)) :=
  Call.substitutions ps acc |>.answer

def substitution (start stop : Nat) : Unbounded ParserState Expr :=
  Call.substitution start stop |>.answer

def round (acc : Array Expr) : Unbounded ParserState (Array Expr) :=
  Call.round acc |>.answer

def statements (acc : Array Expr) : Unbounded ParserState Statements :=
  Call.statements acc |>.answer

end Unbounded

/-- Where the parser of a script starts. -/
def ParserState.atStart (text : Bytes) (file : FileId) (maxErrors : Nat) : ParserState where
  source := text.toArray
  file := file
  maxErrors := maxErrors
  rest := lexemes file 0 text
  last := ⟨file, 0, 0⟩

/-- Parses a script without fuel. -/
def Unbounded.parse (text : Bytes) (file : FileId) (maxErrors : Nat) : Option Parsed :=
  (Unbounded.statements #[] (.atStart text file maxErrors)).map fun (script, final) =>
    ⟨script, final.log.toList⟩

end Storyline.Script
