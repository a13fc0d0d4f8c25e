import Storyline.Markup.Block

/-!
# Walking through a document

`visits` lists every block of a document once, each with the innermost header around it: a block
comes before what is below it, the arms of a match before its other blocks.  The scripts and the
diverts of a document are read off that list; scripts are then put in source order.
-/

namespace Storyline.Markup

/-- A block and the innermost header around it. -/
structure Visit where
  block : Block
  owner : Option Heading
deriving Repr, Inhabited

mutual

/-- A block and everything below it. -/
def visitBlock (owner : Option Heading) : Block → List Visit
  | .header h children => ⟨.header h children, owner⟩ :: visitBlocks (some h) children
  | .choices cs as s => ⟨.choices cs as s, owner⟩ :: visitChoices owner cs
  | .branch m arms children =>
    ⟨.branch m arms children, owner⟩ :: (visitChoices owner arms ++ visitBlocks owner children)
  | .paragraph p => [⟨.paragraph p, owner⟩]
  | .code c => [⟨.code c, owner⟩]
  | .divert d => [⟨.divert d, owner⟩]

/-- Blocks in order, each with everything below it. -/
def visitBlocks (owner : Option Heading) : List Block → List Visit
  | [] => []
  | b :: bs => visitBlock owner b ++ visitBlocks owner bs

/-- What is below a choice. -/
def visitChoice (owner : Option Heading) : Choice → List Visit
  | .mk _ children => visitBlocks owner children

/-- What is below choices, in order. -/
def visitChoices (owner : Option Heading) : List Choice → List Visit
  | [] => []
  | c :: cs => visitChoice owner c ++ visitChoices owner cs

end

/-! ## Scripts -/

/-- Where a script stands. -/
inductive ScriptOrigin where
  | inline
  | match
  | condition
deriving DecidableEq, Repr, Inhabited

/-- The name of an origin. -/
def ScriptOrigin.name : ScriptOrigin → String
  | .inline => "inline"
  | .match => "match"
  | .condition => "condition"

/-- A script of a document: its text and the span of that text in the file. -/
structure ScriptRef where
  origin : ScriptOrigin
  raw : Bytes
  span : Span
deriving DecidableEq, Repr, Inhabited

namespace Inline

mutual

/-- The scripts inside an element. -/
def scripts : Inline → List ScriptRef
  | styled _ parts _ _ _ => scriptsOf parts
  | script raw inner _ => [⟨.inline, raw, inner⟩]
  | code .. => []
  | join _ => []

/-- The scripts of the elements of a text, in order. -/
def scriptsOf : List (Bytes × Inline) → List ScriptRef
  | [] => []
  | (_, e) :: rest => e.scripts ++ scriptsOf rest

end

end Inline

/-- The scripts of a text. -/
def Text.scripts (t : Text) : List ScriptRef := Inline.scriptsOf t.parts

/-- The scripts on the line of a choice. -/
def ChoiceLine.scripts (c : ChoiceLine) : List ScriptRef :=
  (c.condition.map fun k => ⟨.condition, k.text, k.span⟩).toList ++ c.text.scripts

/-- The scripts that belong to a block itself and to the lines of its choices. -/
def Block.ownScripts : Block → List ScriptRef
  | .paragraph p => p.text.scripts
  | .choices cs _ _ => cs.flatMap fun c => c.line.scripts
  | .branch m arms _ =>
    ⟨.match, m.condition, m.conditionSpan⟩ :: arms.flatMap fun c => c.line.scripts
  | .code _ | .divert _ | .header .. => []

namespace Document

/-- All blocks of a document with their owners. -/
def visits (d : Document) : List Visit := visitBlocks none d.blocks

/-- The scripts of a document in source order. -/
def scripts (d : Document) : List ScriptRef :=
  (d.visits.flatMap fun v => v.block.ownScripts).mergeSort fun a b => a.span.start ≤ b.span.start

/-! ## Diverts and headers -/

/-- The diverts of a document with the innermost headers around them. -/
def diverts (d : Document) : List (Divert × Option Heading) :=
  d.visits.filterMap fun v =>
    match v.block with
    | .divert x => some (x, v.owner)
    | _ => none

/-- The headers of a document that stand in no other block. -/
def headers (d : Document) : List (Heading × List Block) :=
  d.blocks.filterMap fun b =>
    match b with
    | .header h children => some (h, children)
    | _ => none

end Document

end Storyline.Markup
