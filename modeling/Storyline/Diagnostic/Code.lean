import Storyline.Text.Bytes

/-!
# Severities and codes

A code names the kind of problem.  Its number tells the area: 1000s are characters and tokens,
2000s syntax, 3000s meaning across files and 5000s the project itself.
-/

namespace Storyline

/-- How much a diagnostic matters.  Three ranks have names; anything graver than an error counts as
one. -/
structure Severity where
  rank : Nat
deriving DecidableEq, Repr, Inhabited

namespace Severity

def info : Severity := ⟨0⟩
def warning : Severity := ⟨1⟩
def error : Severity := ⟨2⟩

/-- The name of a severity. -/
def name (s : Severity) : String :=
  match s.rank with
  | 0 => "info"
  | 1 => "warning"
  | 2 => "error"
  | _ => "unknown"

/-- Whether the severity is that of an error, or graver. -/
def isFatal (s : Severity) : Bool := error.rank ≤ s.rank

end Severity

/-- The kind of a problem, by its number. -/
structure Code where
  number : Nat
deriving DecidableEq, Repr, Inhabited

namespace Code

/-! ## Characters and tokens -/

def unknownCharacter : Code := ⟨1001⟩
def unterminatedString : Code := ⟨1002⟩
def invalidDigit : Code := ⟨1003⟩
def duplicatePoint : Code := ⟨1004⟩
def trailingSeparator : Code := ⟨1005⟩
def badNumber : Code := ⟨1006⟩

/-! ## Syntax -/

def unexpectedToken : Code := ⟨2001⟩
def unclosedDelimiter : Code := ⟨2002⟩
def unclosedParen : Code := ⟨2003⟩
def unclosedBracket : Code := ⟨2004⟩
def unclosedCodeBlock : Code := ⟨2005⟩
def unclosedScript : Code := ⟨2006⟩
def unclosedTemplate : Code := ⟨2007⟩
def expectExpression : Code := ⟨2008⟩
def expectIdentifier : Code := ⟨2009⟩
def emptyDivert : Code := ⟨2010⟩
def badAttribute : Code := ⟨2011⟩
def emptyChoice : Code := ⟨2012⟩

/-! ## Meaning -/

def unknownPath : Code := ⟨3001⟩
def unknownSubPath : Code := ⟨3002⟩
def kindConflict : Code := ⟨3003⟩

/-! ## Project -/

def manifestInvalid : Code := ⟨5001⟩

/-! ## Text -/

/-- Numbers with a description of their own. -/
def titles : List (Nat × String) := [
    (0, "Unknown error"),
    (1000, "Lexical information"),
    (1001, "Unknown character"),
    (1002, "Unterminated string literal"),
    (1003, "Invalid digit for number base"),
    (1004, "Duplicate decimal point"),
    (1005, "Trailing numeric separator"),
    (1006, "Malformed number"),
    (2000, "Syntax information"),
    (2001, "Unexpected token"),
    (2002, "Missing closing symbol"),
    (2003, "Unclosed parenthesis"),
    (2004, "Unclosed bracket"),
    (2005, "Unclosed code block"),
    (2006, "Unclosed script span"),
    (2007, "Unclosed template substitution"),
    (2008, "Expected expression"),
    (2009, "Expected identifier"),
    (2010, "Divert without a path"),
    (2011, "Malformed attribute"),
    (2012, "Choice without text"),
    (3000, "Semantic information"),
    (3001, "Unknown path"),
    (3002, "Unknown sub-path"),
    (3003, "Conflicting variable type"),
    (3004, "Variable is not an object"),
    (5000, "Project information"),
    (5001, "Invalid project manifest"),
    (5002, "Unreadable story file")]

/-- What a code stands for, in a few words; a number without a description is an unknown error. -/
def title (c : Code) : String := (titles.lookup c.number).getD "Unknown error"

/-- The printed name of a code: its area and number. -/
def id (c : Code) : Bytes :=
  let n := c.number
  if 1000 ≤ n ∧ n < 2000 then "LEX" ++ Bytes.ofNat n
  else if 2000 ≤ n ∧ n < 3000 then "SYN" ++ Bytes.ofNat n
  else if 3000 ≤ n ∧ n < 4000 then "SEM" ++ Bytes.ofNat n
  else if 5000 ≤ n ∧ n < 6000 then "PRJ" ++ Bytes.ofNat n
  else "E0000"

/-- A code with its description. -/
def describe (c : Code) : Bytes := "[" ++ c.id ++ "]: " ++ c.title

end Code

end Storyline
