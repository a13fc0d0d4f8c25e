import Storyline.Command.Project
import Storyline.Diagnostic.Printer

/-!
# Checking and repairing

`diagnose` shows what there is to say about a project or one of its files, and fails if that
includes an error.  A manifest that is not accepted is shown as a diagnostic of its own.  `repair`
makes the changes that diagnostics propose.
-/

namespace Storyline.Command

/-- Diagnostics with the files they are about and the directory that paths start from. -/
structure Findings where
  items : List Diagnostic
  files : Repair.Files
  base : Bytes

/-- A manifest that is not accepted, as a finding. -/
def manifestFindings (e : Manifest.Error) : Act Findings := do
  match (← get).disk.readFile e.path with
  | .error cause => throw (.hiddenManifest e cause)
  | .ok text =>
    let file := File.ofBytes 0 e.path text
    let shown := { file with path := Path.base e.path }
    return ⟨[e.diagnostic file], fun id => if id = 0 then some shown else none, Path.dir e.path⟩

/-- What there is to find around a path. -/
def findings (o : Options) (path : Bytes) : Act Findings := do
  match ← Act.attempt (openProject o path) with
  | .error (.manifest e) => manifestFindings e
  | .error e => throw e
  | .ok p =>
    let items ← Act.measure "check" (Act.ofExcept id p.diagnostics)
    return ⟨items, p.session.file?, p.root⟩

/-- Shows what there is to find. -/
def showFindings (o : Options) (format : Bytes) (f : Findings) : Act Unit := do
  let notes := !o.isOn "no-notes"
  let pathStyle : Diagnostic.PathStyle := if o.isOn "fullpath" then .absolute else .relative
  if format = ("json" : Bytes) then
    Act.print ((Diagnostic.listing { positions := true, pathStyle, baseDir := f.base, notes }
      f.files f.items).indented ++ "\n")
  else
    let color ← Act.colored o
    Act.print (Diagnostic.pretty
      { color, context := (o.integer "context").toNat, pathStyle, baseDir := f.base, notes,
        fixes := notes } f.files f.items)
    Act.remark o (Diagnostic.summary f.items ++ "\n")

/-- Checks a project or a file. -/
def diagnose (o : Options) (args : List Bytes) : Act Unit := do
  let format := o.text "format"
  if format != Bytes.ofString "pretty" && format != Bytes.ofString "json" then
    throw (.unknownFormat format)
  let found ← findings o (targetOf args)
  showFindings o format found
  if Diagnostic.anyFatal found.items (o.isOn "warnings-as-errors") then throw (.status 1)

/-- Saves the files that a repair changes. -/
def saveChanges (s : Session) : List Repair.Change → Act Unit
  | [] => pure ()
  | c :: rest => do
    let s ← Act.ofExcept (.save c.path) (s.save c.file c.text)
    modify fun st => { st with disk := diskOf st.disk s.storage }
    saveChanges s rest

/-- Repairs a project or a file. -/
def repair (o : Options) (args : List Bytes) : Act Unit := do
  let p ← openProject o (targetOf args)
  let items ← Act.ofExcept id p.diagnostics
  match Repair.plan (some p.session.file?) items (o.isOn "all") with
  | (_, some .noFixes) => Act.print "no fixes to apply\n"
  | (_, some f) => throw (.repair f)
  | (plan, none) =>
    Act.print (plan.applied.flatMap fun a =>
      a.path ++ ": " ++ a.title ++ " (" ++ a.code.id ++ ")\n")
    Act.remark o (plan.skipped.flatMap fun s =>
      "skipped " ++ s.title ++ ": " ++ s.reason.message ++ "\n")
    if !o.isOn "dry-run" then saveChanges p.session plan.changes

end Storyline.Command
