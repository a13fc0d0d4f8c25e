import Storyline.Json.Basic
import Storyline.Session.Basic
import Storyline.Session.Compile

/-!
# Listings of a project

The directories and files, the paths that diverts can name, and the places where variables are
assigned.
-/

namespace Storyline.Session.Tree

/-! ## Trees of directories and files -/

mutual

/-- A tree as JSON. -/
def toJson : Tree → Json
  | .node id name isDirectory children =>
    .record ([("id", .nat id), ("name", .text name), ("isDir", .bool isDirectory)]
      ++ if children.isEmpty then [] else [("children", .array (toJsonAll children))])

/-- Trees as JSON. -/
def toJsonAll : List Tree → List Json
  | [] => []
  | t :: ts => t.toJson :: toJsonAll ts

end

end Storyline.Session.Tree

namespace Storyline.Session

/-! ## Paths -/

/-- A header that a divert can name. -/
structure PathEntry where
  path : Bytes
  title : Bytes
  file : Bytes
  line : Nat
deriving DecidableEq, Repr, Inhabited

/-- The entry of a header. -/
def pathEntry (files : Repair.Files) (o : Outline) (id : NodeId) (n : Outline.Node) : PathEntry :=
  match files n.file with
  | some f => ⟨o.path id, n.title, f.path, (f.position n.span.start).line⟩
  | none => ⟨o.path id, n.title, [], 0⟩

/-- The entries of a header and those below it, at most `fuel` levels deep. -/
def pathsBelow (files : Repair.Files) (o : Outline) : (fuel : Nat) → NodeId → List PathEntry
  | 0, _ => []
  | fuel + 1, id =>
    ((o.node? id).map (pathEntry files o id)).toList
      ++ ((o.childNames id).filterMap (o.child? id)).flatMap (pathsBelow files o fuel)

/-- The entries of the headers that a path from the top level can lead to, each before those below
it. -/
def pathsIn (files : Repair.Files) (o : Outline) : List PathEntry :=
  (o.rootNames.filterMap o.root?).flatMap (pathsBelow files o o.nodes.size)

/-- The headers that diverts can name, each before those below it. -/
def paths (s : Session) : List PathEntry := pathsIn s.file? s.overview.outline

/-- One line of a listing: the last name of the path, indented by the number of those before
it. -/
def PathEntry.treeLine (e : PathEntry) : Bytes :=
  let names := e.path.splitOnByte '.'
  Bytes.repeated (names.length - 1) "  " ++ names.getLastD [] ++ "  " ++ Text.quoted e.title
    ++ "  " ++ e.file ++ ":" ++ Bytes.ofNat e.line ++ "\n"

/-- Paths one below the other, indented by depth. -/
def pathTree (es : List PathEntry) : Bytes := es.flatMap (·.treeLine)

/-- An entry as JSON. -/
def PathEntry.toJson (escaping : Json.Escaping) (e : PathEntry) : Json :=
  let text (s : Bytes) : Json := .string (Json.spell escaping s)
  .record [("path", text e.path), ("title", text e.title), ("file", text e.file),
    ("line", .nat e.line)]

/-! ## Variables -/

/-- The script around an assignment, in its standard form; those inside a text with their
braces. -/
def scriptAround (s : Session) (a : Variables.Assignment) : Bytes :=
  match s.story? a.origin with
  | none => []
  | some c =>
    let around := c.document.scripts.find? fun r =>
      r.span.start ≤ a.span.start && a.span.stop ≤ r.span.stop
    match around with
    | none => []
    | some r =>
      let text := Script.Statements.format (Script.parse r.raw a.origin 0).script
      if r.origin = .inline then "\x7b" ++ text ++ "\x7d" else text

/-- Where the variable with a dotted name is assigned, one line for each place. -/
def sites (s : Session) (name : Bytes) : Bytes :=
  match (s.store.lookup? (name.splitOnByte '.')).bind s.store.get? with
  | none => []
  | some v => v.assignments.flatMap fun a =>
    match s.file? a.origin with
    | none => []
    | some f =>
      let p := f.position a.span.start
      "    " ++ f.path ++ ":" ++ Bytes.ofNat p.line ++ ":" ++ Bytes.ofNat p.column ++ "  "
        ++ Bytes.padRight 8 a.kind.name ++ " " ++ s.scriptAround a ++ "\n"

end Storyline.Session
