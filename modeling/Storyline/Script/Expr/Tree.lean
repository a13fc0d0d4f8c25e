import Storyline.Json.Basic
import Storyline.Script.Expr

/-!
# Trees of expressions

An expression as JSON, for tools that look at how a script was read.  Each node has its kind, its
place, and its parts by name; an expression that could not be read is null.
-/

namespace Storyline

/-- A span inside a known file, as its two offsets. -/
def Span.rangeJson (s : Span) : Json := .array [.nat s.start, .nat s.stop]

namespace Script.Expr

/-- A node of the tree. -/
def treeNode (e : Expr) (parts : List (String × Json)) : Json :=
  let head := [("k", .str ((e.kind?.map Expr.Kind.name).getD "")), ("span", e.span.rangeJson)]
  .record (head ++ parts)

mutual

/-- The tree of an expression. -/
def toJson : Expr → Json
  | e@(.literal _ k raw v) =>
    treeNode e [("lit", .str k.name), ("raw", .text raw), ("value", .text v)]
  | e@(.identifier _ n) => treeNode e [("name", .text n)]
  | e@(.binary _ op l r) =>
    treeNode e [("op", .str op.name), ("left", l.toJson), ("right", r.toJson)]
  | e@(.unary _ op x) =>
    treeNode e [("op", .str op.name), ("operand", x.toJson), ("postfix", .bool false)]
  | e@(.trailing _ op x) =>
    treeNode e [("op", .str op.name), ("operand", x.toJson), ("postfix", .bool true)]
  | e@(.member _ b n s) => treeNode e
    [("base", b.toJson), ("computed", .bool false), ("name", .text n), ("name_span", s.rangeJson)]
  | e@(.index _ b i) =>
    treeNode e [("base", b.toJson), ("computed", .bool true), ("index", i.toJson)]
  | e@(.call _ c args) => treeNode e [("callee", c.toJson), ("args", .array (listJson args))]
  | e@(.array _ xs) => treeNode e [("elems", .array (listJson xs))]
  | e@(.construct _ c args hasArgs) => treeNode e
    [("callee", c.toJson), ("args", .array (listJson args)), ("has_args", .bool hasArgs)]
  | e@(.ternary _ c a b) =>
    treeNode e [("cond", c.toJson), ("then", a.toJson), ("else", b.toJson)]
  | e@(.template _ parts tail) =>
    treeNode e [("spans", .array (partsJson parts)), ("tail", .text tail)]
  | e@(.group _ x) => treeNode e [("inner", x.toJson)]
  | .missing => .null

/-- The trees of expressions. -/
def listJson : List Expr → List Json
  | [] => []
  | x :: rest => x.toJson :: listJson rest

/-- The trees of the substitutions of a template, with the texts before them. -/
def partsJson : List (Bytes × Expr) → List Json
  | [] => []
  | (text, x) :: rest => .record [("text", .text text), ("expr", x.toJson)] :: partsJson rest

end

end Script.Expr

end Storyline
