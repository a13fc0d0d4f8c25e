import Storyline.Export.Compile
import Storyline.Script.Expr.Printer
import Storyline.Script.Parser
import Storyline.Text.Glyph

/-!
# Stories as JavaScript programs

A program is one array of header trees, built by calling functions that the page around it
provides.  Texts become template literals: styles become tags, scripts become substitutions, and
whatever else stands in a text is escaped so that it can neither open a substitution nor end the
literal.
-/

namespace Storyline.Program

open Markup
open Export (Assigned ScriptVariable)

/-- The names of the functions that a program calls. -/
structure Names where
  path : Bytes := "Path"
  paragraph : Bytes := "Paragraph"
  codeBlock : Bytes := "Codeblock"
  choiceGroup : Bytes := "ChoiceGroup"
  branch : Bytes := "Match"
  divert : Bytes := "divert"
  temporaryDivert : Bytes := "tempDivert"
  script : Bytes := "Js"
deriving DecidableEq, Repr, Inhabited

/-! ## Literals -/

/-- A text as a string literal. -/
def quote (s : Bytes) : Bytes := "\"" ++ Json.spell .plain s ++ "\""

/-- Items with commas between them, in brackets. -/
def listOf (items : List Bytes) : Bytes := "[" ++ Bytes.join "," items ++ "]"

/-- Items with commas between them, in braces. -/
def recordOf (items : List Bytes) : Bytes := "\x7b" ++ Bytes.join "," items ++ "\x7d"

/-- Text inside a template literal: backslashes, backquotes and what would open a substitution
get a backslash. -/
def escapeTemplate : Bytes → Bytes
  | [] => []
  | b :: rest =>
    if b = '\\' || b = 0x60 || (b = '$' && rest.head? = some 0x7B) then
      ('\\' : UInt8) :: b :: escapeTemplate rest
    else b :: escapeTemplate rest

/-- A script in its standard form; one that cannot be read stays as it is written. -/
def rebuild (code : Bytes) : Bytes :=
  let parsed := Script.parse code 0 0
  if parsed.diagnostics.isEmpty then Script.Statements.format parsed.script else code.trimBlank

/-! ## Text -/

/-- The variables that a script assigns. -/
def scriptVariables (vs : List ScriptVariable) : Bytes :=
  listOf (vs.map fun v => recordOf ["name:" ++ quote v.name, "type:" ++ Bytes.ofNat v.kind.tag])

/-- A text inside a tag. -/
def tagged (tag : Bytes) (inner : Bytes) : Bytes :=
  "<" ++ tag ++ ">" ++ inner ++ "</" ++ tag ++ ">"

/-- The tag of a style. -/
def styleTag : Style → Bytes
  | .bold => "b"
  | .italics => "i"
  | .underline => "u"

mutual

/-- An inline element inside a template literal. -/
def inline (names : Names) (assigned : Assigned) : Inline → Bytes
  | .styled style parts tail _ _ =>
    tagged (styleTag style) (textParts names assigned parts ++ escapeTemplate tail)
  | .code raw _ _ => tagged "code" (escapeTemplate raw)
  | .join _ => []
  | .script raw inner _ =>
    "$\x7b" ++ names.script ++ "(" ++ quote (rebuild raw) ++ ","
      ++ scriptVariables (assigned inner.start) ++ ")\x7d"

/-- Literal runs and inline elements inside a template literal. -/
def textParts (names : Names) (assigned : Assigned) : List (Bytes × Inline) → Bytes
  | [] => []
  | (before, e) :: rest =>
    escapeTemplate before ++ inline names assigned e ++ textParts names assigned rest

end

/-- A text as a template literal. -/
def template (names : Names) (assigned : Assigned) (t : Text) : Bytes :=
  [0x60] ++ textParts names assigned t.parts ++ escapeTemplate t.tail ++ [0x60]

/-! ## Blocks -/

/-- Attributes with their parameters. -/
def attributes (as : List Attribute) : Bytes :=
  listOf (as.map fun a => recordOf
    ["name:" ++ quote a.name, "params:" ++ listOf ((a.params.getD []).map quote)])

/-- What guards a choice. -/
def condition : Option Condition → Bytes
  | none => "null"
  | some c => recordOf ["modifier:" ++ quote c.modifier, "code:" ++ quote (rebuild c.text)]

/-- The text of a choice; that of an arm of a match is a script. -/
def choiceText (names : Names) (assigned : Assigned) (isArm : Bool) (t : Text) : Bytes :=
  if isArm then quote (rebuild t.plain) else template names assigned t

mutual

/-- A block. -/
def block (names : Names) (assigned : Assigned) : Block → Bytes
  | .header h children =>
    names.path ++ "(" ++ recordOf
      ["title:" ++ quote h.title, "canonicalTitle:" ++ quote (Outline.canonical h.title),
        "childPaths:" ++ recordOf (headers names assigned children),
        "children:" ++ listOf (others names assigned children)] ++ ")"
  | .paragraph p =>
    names.paragraph ++ "(" ++ template names assigned p.text ++ "," ++ attributes p.attrs ++ ")"
  | .code c =>
    names.codeBlock ++ "(" ++ quote c.code ++ "," ++ quote c.language ++ ","
      ++ attributes c.attrs ++ ")"
  | .choices cs as _ =>
    names.choiceGroup ++ "(" ++ listOf (choices names assigned false cs) ++ ","
      ++ attributes as ++ ")"
  | .branch m arms children =>
    names.branch ++ "(" ++ quote (rebuild m.condition) ++ ","
      ++ listOf (choices names assigned true arms) ++ "," ++ listOf (blocks names assigned children)
      ++ "," ++ quote m.modifier ++ ")"
  | .divert d =>
    (if d.temporary then names.temporaryDivert else names.divert) ++ "("
      ++ listOf (d.path.map fun s => quote s.name) ++ ")"

/-- Blocks in order. -/
def blocks (names : Names) (assigned : Assigned) : List Block → List Bytes
  | [] => []
  | b :: bs => block names assigned b :: blocks names assigned bs

/-- The headers among blocks, each behind its canonical name. -/
def headers (names : Names) (assigned : Assigned) : List Block → List Bytes
  | [] => []
  | .header h children :: bs =>
    (quote (Outline.canonical h.title) ++ ":" ++ block names assigned (.header h children))
      :: headers names assigned bs
  | _ :: bs => headers names assigned bs

/-- The blocks that are no headers. -/
def others (names : Names) (assigned : Assigned) : List Block → List Bytes
  | [] => []
  | .header .. :: bs => others names assigned bs
  | b :: bs => block names assigned b :: others names assigned bs

/-- A choice. -/
def choice (names : Names) (assigned : Assigned) (isArm : Bool) : Choice → Bytes
  | .mk line children => recordOf
    ["text:" ++ choiceText names assigned isArm line.text,
      "condition:" ++ condition line.condition,
      "children:" ++ listOf (blocks names assigned children)]

/-- Choices in order. -/
def choices (names : Names) (assigned : Assigned) (isArm : Bool) : List Choice → List Bytes
  | [] => []
  | c :: cs => choice names assigned isArm c :: choices names assigned isArm cs

end

/-! ## Programs -/

/-- The top-level headers of a document.  No divert reaches a block outside of them. -/
def trees (names : Names) (assigned : Assigned) (d : Document) : List Bytes :=
  (d.blocks.filter fun b => b.kind = .header).map (block names assigned)

/-- The program of some documents. -/
def ofDocuments (names : Names) (ds : List (Document × Assigned)) : Bytes :=
  match ds.flatMap fun d => trees names d.2 d.1 with
  | [] => "[]\n"
  | ts => "[\n" ++ Bytes.join ",\n" (ts.map fun t => ("  " : Bytes) ++ t) ++ "\n]\n"

end Storyline.Program
