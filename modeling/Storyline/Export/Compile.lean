import Storyline.Diagnostic.Basic
import Storyline.Export.Datum
import Storyline.Markup.Block
import Storyline.Outline.Basic
import Storyline.Variables.Snapshot

/-!
# Compiling documents

The tree of a file as the data that an editor reads.  A header keeps the headers directly below it
apart from its other blocks, each under its canonical name; of those with the same name the last
one counts.
-/

namespace Storyline.Export

open Markup

/-- A variable that a script assigns, and what the whole project knows it to hold. -/
structure ScriptVariable where
  name : Bytes
  kind : Variables.Kind
deriving DecidableEq, Repr, Inhabited

/-- What the script with its text at an offset assigns. -/
abbrev Assigned := (start : Nat) → List ScriptVariable

/-- Members by name, in the order of their names; of those with the same name the last one. -/
def lastByName {α : Type} (members : List (Bytes × α)) : List (Bytes × α) :=
  Bytes.sortOn (·.1) (go members)
where
  /-- The members that no later one hides. -/
  go : List (Bytes × α) → List (Bytes × α)
    | [] => []
    | m :: ms => if ms.any (·.1 = m.1) then go ms else m :: go ms

/-! ## Pieces -/

/-- A place in a file. -/
def range (s : Span) : Datum := .ofFields [("start", .nat s.start), ("end", .nat s.stop)]

/-- Attributes; without parentheses they have no parameters. -/
def attributes (as : List Attribute) : Datum :=
  .list (as.map fun a => .ofFields
    [("name", .text a.name), ("parameters", .list ((a.params.getD []).map .text)),
      ("range", range a.span)])

/-- The variables that a script assigns. -/
def scriptVariables (vs : List ScriptVariable) : Datum :=
  .list (vs.map fun v => .ofFields [("name", .text v.name), ("kind", .nat v.kind.tag)])

/-- The number of a kind of inline elements. -/
def inlineNumber (k : InlineKind) : Datum := .nat (InlineKind.all.idxOf k)

/-- The number of a kind of blocks. -/
def blockNumber (k : BlockKind) : Datum := .nat (BlockKind.all.idxOf k)

/-- A text with its place. -/
def textWith (parts : List Datum) (tail : Bytes) (span : Span) : Datum :=
  .ofFields [("parts", .list parts), ("tail", .text tail), ("range", range span)]

/-- What guards a choice. -/
def condition : Option Condition → Datum
  | none => .null
  | some c => .ofFields [("modifier", .text c.modifier), ("text", .text c.text)]

/-! ## Text -/

mutual

/-- An inline element. -/
def inline (assigned : Assigned) : Inline → Datum
  | .script raw inner span => .ofFields
    [("kind", inlineNumber .script), ("text", .text raw),
      ("magicVariables", scriptVariables (assigned inner.start)), ("range", range span)]
  | .join span => .ofFields [("kind", inlineNumber .join), ("range", range span)]
  | .code raw inner span => .ofFields
    [("kind", inlineNumber .code), ("text", textWith [] raw inner), ("range", range span)]
  | .styled style parts tail inner span => .ofFields
    [("kind", inlineNumber (Inline.styled style [] tail inner span).kind),
      ("text", textWith (textParts assigned parts) tail inner), ("range", range span)]

/-- The parts of a text. -/
def textParts (assigned : Assigned) : List (Bytes × Inline) → List Datum
  | [] => []
  | (before, e) :: rest =>
    .ofFields [("before", .text before), ("text", inline assigned e)] :: textParts assigned rest

end

/-- A text. -/
def text (assigned : Assigned) (t : Text) : Datum :=
  textWith (textParts assigned t.parts) t.tail t.span

/-! ## Blocks -/

mutual

/-- A block. -/
def block (assigned : Assigned) : Block → Datum
  | .header h children => .ofFields
    [("title", .text h.title), ("canonicalTitle", .text (Outline.canonical h.title)),
      ("childPaths", .record (lastByName (headers assigned children))), ("range", range h.span),
      ("children", .list (others assigned children)), ("attributes", attributes h.attrs)]
  | .paragraph p => .ofFields
    [("kind", blockNumber .paragraph), ("parts", .list (textParts assigned p.text.parts)),
      ("tail", .text p.text.tail), ("range", range p.span), ("attributes", attributes p.attrs)]
  | .code c => .ofFields
    [("kind", blockNumber .code), ("code", .text c.code), ("language", .text c.language),
      ("range", range c.span), ("attributes", attributes c.attrs)]
  | .choices cs as span => .ofFields
    [("kind", blockNumber .choices), ("choices", .list (choices assigned cs)),
      ("range", range span), ("attributes", attributes as)]
  | .divert d => .ofFields
    [("kind", blockNumber .divert), ("path", .list (d.path.map fun s => .text s.name)),
      ("temporary", .bool d.temporary), ("range", range d.span), ("attributes", attributes d.attrs)]
  | .branch m arms children => .ofFields
    [("kind", blockNumber .branch), ("condition", .text m.condition),
      ("modifier", .text m.modifier), ("arms", .list (choices assigned arms)),
      ("range", range m.span), ("attributes", attributes m.attrs),
      ("children", .list (blocks assigned children))]

/-- Blocks in order. -/
def blocks (assigned : Assigned) : List Block → List Datum
  | [] => []
  | b :: bs => block assigned b :: blocks assigned bs

/-- The headers among blocks, each with its canonical name. -/
def headers (assigned : Assigned) : List Block → List (Bytes × Datum)
  | [] => []
  | .header h children :: bs =>
    (Outline.canonical h.title, block assigned (.header h children)) :: headers assigned bs
  | _ :: bs => headers assigned bs

/-- The blocks that are no headers. -/
def others (assigned : Assigned) : List Block → List Datum
  | [] => []
  | .header .. :: bs => others assigned bs
  | b :: bs => block assigned b :: others assigned bs

/-- A choice. -/
def choice (assigned : Assigned) : Choice → Datum
  | .mk line children => .ofFields
    [("text", text assigned line.text), ("children", .list (blocks assigned children)),
      ("range", range line.span), ("attributes", attributes line.attrs),
      ("condition", condition line.condition)]

/-- Choices in order. -/
def choices (assigned : Assigned) : List Choice → List Datum
  | [] => []
  | c :: cs => choice assigned c :: choices assigned cs

end

/-! ## Documents -/

/-- Reports; nothing if there are none. -/
def diagnostics (ds : List Diagnostic) : Datum :=
  if ds.isEmpty then .null
  else .list (ds.map fun d => .ofFields [("message", .text d.message), ("range", range d.span)])

/-- A compiled file. -/
def file (assigned : Assigned) (doc : Document) (ds : List Diagnostic) : Datum := .ofFields
  [("ast", .list (blocks assigned doc.blocks)), ("diagnostics", diagnostics ds)]

/-- A compiled file of a project, with its path. -/
def projectFile (path : Bytes) (assigned : Assigned) (doc : Document) (ds : List Diagnostic) :
    Datum := .ofFields
  [("path", .text path), ("ast", .list (blocks assigned doc.blocks)),
    ("diagnostics", diagnostics ds)]

mutual

/-- A variable of a project. -/
def entry : Variables.Entry → Datum
  | ⟨name, kind, conflict, _, props⟩ =>
    .ofFields ([("name", .text name), ("kind", .nat kind.tag), ("conflict", .bool conflict)]
      ++ match entries props with
        | [] => []
        | ps => [("properties", .list ps)])

/-- Variables in order. -/
def entries : List Variables.Entry → List Datum
  | [] => []
  | e :: es => entry e :: entries es

end

/-- A compiled project. -/
def project (files : List Datum) (vars : List Variables.Entry) : Datum := .ofFields
  [("files", .list files), ("variables", .list (entries vars))]

end Storyline.Export
