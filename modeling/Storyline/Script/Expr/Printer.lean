import Storyline.Script.Expr

/-!
# Writing expressions

Normalised script text: one space around binary operators, none inside brackets, literals as
they were written.  Statements are joined by a semicolon and a space.
-/

namespace Storyline.Script

namespace Expr

mutual

/-- The text of an expression. -/
def format : Expr → Bytes
  | literal _ _ raw _ => raw
  | identifier _ name => name
  | binary _ op l r => l.format ++ " " ++ op.name ++ " " ++ r.format
  | unary _ op x =>
    let gap : Bytes := if op = .keyword .typeof || op = .keyword .void then " " else ""
    op.name ++ gap ++ x.format
  | trailing _ op x => x.format ++ op.name
  | member _ b name _ => b.format ++ "." ++ name
  | index _ b i => b.format ++ "[" ++ i.format ++ "]"
  | call _ c args => c.format ++ "(" ++ formatList args ++ ")"
  | array _ xs => "[" ++ formatList xs ++ "]"
  | construct _ c args hasArgs =>
    "new " ++ c.format ++ (if hasArgs then "(" ++ formatList args ++ ")" else [])
  | ternary _ c a b => c.format ++ " ? " ++ a.format ++ " : " ++ b.format
  | template _ parts tail => [0x60] ++ formatParts parts ++ tail ++ [0x60]
  | group _ x => "(" ++ x.format ++ ")"
  | missing => "<?>"

/-- Expressions with commas between them. -/
def formatList : List Expr → Bytes
  | [] => []
  | [x] => x.format
  | x :: y :: rest => x.format ++ ", " ++ formatList (y :: rest)

/-- Texts and substitutions of a template. -/
def formatParts : List (Bytes × Expr) → Bytes
  | [] => []
  | (text, x) :: rest => text ++ "$\x7b" ++ x.format ++ "\x7d" ++ formatParts rest

end

end Expr

/-- The text of a whole script. -/
def Statements.format (s : Statements) : Bytes := Bytes.join "; " (s.map Expr.format)

end Storyline.Script
