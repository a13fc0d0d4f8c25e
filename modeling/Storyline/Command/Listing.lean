import Storyline.Command.Project
import Storyline.Release
import Storyline.Session.Listing

/-!
# Printing parts of a project

The variables of its scripts, the paths that diverts can name, and the compiled form of one file;
and what the program says about itself.
-/

namespace Storyline.Command

open Variables (Entry)

/-! ## Variables -/

/-- The kind of a variable in the table. -/
def shownKind (color : Bool) (e : Entry) : Bytes :=
  if e.conflict then Ink.red.paint color "conflict"
  else match e.kind with
    | .object _ => "object"
    | kind => kind.name

/-- One line of the table of variables. -/
def variableLine (color : Bool) (e : Entry) : Bytes :=
  Bytes.padRight 24 e.name ++ " " ++ Bytes.padRight 8 (shownKind color e) ++ " "
    ++ Bytes.ofNat e.assignments ++ "\n"

/-- Prints a JSON value for people, safe for web pages. -/
def printJson (j : Json) : Act Unit := Act.print (Json.webSafe j.indented ++ "\n")

/-- Lists the variables of a project. -/
def listVariables (o : Options) (args : List Bytes) : Act Unit := do
  let s := (← openProject o (targetOf args)).session
  let snapshot := s.store.snapshot
  if o.isOn "json" then printJson (.array ((Export.entries snapshot).map Datum.toJson))
  else
    let color ← Act.colored o
    let verbose := o.isOn "verbose"
    Act.print ((Entry.flatten snapshot).flatMap fun e =>
      variableLine color e ++ if verbose then s.sites e.name else [])

/-! ## Paths -/

/-- Lists the paths that diverts can name. -/
def listPaths (o : Options) (args : List Bytes) : Act Unit := do
  let format := o.text "format"
  let formats : List Bytes := ["tree", "list", "json"]
  if !formats.contains format then throw (.unknownFormat format)
  let entries := (← openProject o (targetOf args)).session.paths
  if format = ("json" : Bytes) then
    printJson (if entries.isEmpty then .null else .array (entries.map (·.toJson .plain)))
  else if format = ("list" : Bytes) then Act.print (entries.flatMap fun e => e.path ++ "\n")
  else Act.print (Session.pathTree entries)

/-! ## Files -/

/-- Data as a whole text: JSON ends its last line. -/
def wholeText (d : Datum) (format : Format) : Bytes :=
  match format with
  | .msgpack => Format.write d .msgpack
  | format => Format.write d format ++ "\n"

/-- Prints the compiled form of a file. -/
def printFile (o : Options) (args : List Bytes) : Act Unit := do
  let written := o.text "format"
  match Format.ofName? written with
  | none => throw (.exportFormat written)
  | some format =>
    let arg := args.headD []
    let p ← openProject o arg
    match p.target with
    | none => throw (.notFile arg)
    | some id =>
      let s ← Act.measure "compile" (Act.ofExcept .session (p.session.reload id))
      Act.measure "encode" (Act.print (wholeText (s.compileFile id) format))

/-! ## The program -/

/-- Prints what the program says about itself. -/
def printRelease (o : Options) : Act Unit := do
  let format := (o.text "format").lowered
  let release : Release := {}
  if format = ("json" : Bytes) then printJson (release.toJson .plain)
  else if format = ("pretty" : Bytes) then
    Act.print (release.describe (← Act.colored o) ++ "\n")
  else throw (.releaseFormat (o.text "format"))

end Storyline.Command
