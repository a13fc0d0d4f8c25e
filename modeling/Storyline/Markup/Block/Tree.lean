import Storyline.Markup.Block
import Storyline.Script.Expr.Tree

/-!
# Trees of blocks

A document as JSON, for tools that look at how a story file was read.  Each node has its kind, its
place, and its parts by name.
-/

namespace Storyline.Markup

namespace Inline

mutual

/-- The tree of an inline element. -/
def toJson : Inline → Json
  | e@(.styled _ parts tail inner _) => head e [("text", textJson (partsJson parts) tail inner)]
  | e@(.code raw inner _) => head e [("text", textJson [] raw inner)]
  | e@(.join _) => head e []
  | e@(.script raw inner _) => head e [("raw", .text raw), ("raw_span", inner.rangeJson)]
where
  /-- A node with its kind and place. -/
  head (e : Inline) (parts : List (String × Json)) : Json :=
    .record ([("k", .str e.kind.name), ("span", e.span.rangeJson)] ++ parts)
  /-- The tree of a text whose parts have theirs. -/
  textJson (parts : List Json) (tail : Bytes) (span : Span) : Json :=
    .record [("parts", .array parts), ("tail", .text tail), ("span", span.rangeJson)]

/-- The trees of inline elements, with the literal runs before them. -/
def partsJson : List (Bytes × Inline) → List Json
  | [] => []
  | (before, e) :: rest =>
    .record [("before", .text before), ("inline", e.toJson)] :: partsJson rest

end

end Inline

/-- The tree of a text. -/
def Text.toJson (t : Text) : Json := Inline.toJson.textJson (Inline.partsJson t.parts) t.tail t.span

/-- The tree of an attribute; without parentheses there are no parameters. -/
def Attribute.toJson (a : Attribute) : Json :=
  .record [("name", .text a.name), ("raw", .text a.raw), ("span", a.span.rangeJson),
    ("params", match a.params with | some ps => .array (ps.map .text) | none => .null)]

/-- The line of a choice, with the trees of the blocks below it. -/
def ChoiceLine.toJson (c : ChoiceLine) (children : List Json) : Json :=
  let condition : Json := match c.condition with
    | some k => .record
        [("modifier", .text k.modifier), ("text", .text k.text), ("span", k.span.rangeJson)]
    | none => .null
  .record [("text", c.text.toJson), ("plain", .text c.text.plain), ("children", .array children),
    ("condition", condition), ("attrs", .array (c.attrs.map Attribute.toJson)),
    ("span", c.span.rangeJson)]

namespace Block

/-- A node with its kind, place and attributes. -/
def treeNode (b : Block) (parts : List (String × Json)) : Json :=
  .record ([("k", .str b.kind.name), ("span", b.span.rangeJson),
    ("attrs", .array (b.attrs.map Attribute.toJson))] ++ parts)

mutual

/-- The tree of a block. -/
def toJson : Block → Json
  | b@(.paragraph p) => treeNode b [("text", p.text.toJson), ("plain", .text p.text.plain)]
  | b@(.code c) => treeNode b [("language", .text c.language), ("code", .text c.code)]
  | b@(.choices cs _ _) => treeNode b [("choices", .array (choicesJson cs))]
  | b@(.divert d) => treeNode b [("path", .array (d.path.map (.text ·.name))),
      ("path_spans", .array (d.path.map (·.span.rangeJson))), ("temporary", .bool d.temporary)]
  | b@(.branch m arms cs) => treeNode b [("condition", .text m.condition),
      ("condition_span", m.conditionSpan.rangeJson), ("modifier", .text m.modifier),
      ("mode", .str m.mode.name), ("arms", .array (choicesJson arms)),
      ("children", .array (listJson cs))]
  | b@(.header h cs) => treeNode b [("title", .text h.title), ("title_span", h.titleSpan.rangeJson),
      ("depth", .nat h.depth), ("children", .array (listJson cs))]

/-- The trees of blocks. -/
def listJson : List Block → List Json
  | [] => []
  | b :: rest => b.toJson :: listJson rest

/-- The trees of choices. -/
def choicesJson : List Choice → List Json
  | [] => []
  | .mk line children :: rest => line.toJson (listJson children) :: choicesJson rest

end

end Block

end Storyline.Markup
