import Storyline.Diagnostic.Repair
import Storyline.Export.Program
import Storyline.Outline.Resolve
import Storyline.Session.Edit

/-!
# Compiling a project

What there is to say about a file beyond reading it depends on the whole project: where diverts
lead, and which variables are assigned different kinds.
-/

namespace Storyline.Session

open Variables (Assignment Kind VarId Variable)
open Export (Assigned)
open Outline (Fuzzy)

/-! ## Diagnostics -/

/-- What checking a file needs to know of the project. -/
structure Overview where
  outline : Outline
  /-- The variables whose assignments disagree, with their full names. -/
  conflicts : List (Bytes × Variable)
deriving Repr, Inhabited

/-- The overview of a project; its documents are those of its files in order. -/
def overview (s : Session) : Overview where
  outline := .ofDocuments (s.files.filterMap fun b => b.story.map (·.document))
  conflicts := s.store.conflicts.map fun (id, v) => (s.store.fullName id, v)

/-- A kind in a sentence. -/
def kindWords (k : Kind) : Bytes :=
  match k with
  | .object _ => "an object"
  | .array => "an array"
  | .map => "a map"
  | .unknown => "an unknown value"
  | .string | .number | .bool => "a " ++ k.name

/-- What is said of an assignment whose kind is not that of another one. -/
def conflictMessage (name : Bytes) (v : Variable) (here : Assignment) : Bytes :=
  let other := ((v.assignments.find? fun a => a.kind != here.kind).map (·.kind)).getD .string
  Text.quoted name ++ " is assigned " ++ kindWords here.kind ++ " here but " ++ kindWords other
    ++ " elsewhere."

/-- The reports on a file's assignments that disagree with others. -/
def conflictReports (o : Overview) (id : FileId) : List Diagnostic :=
  o.conflicts.flatMap fun (name, v) =>
    (v.assignments.filter (·.origin = id)).map fun a =>
      .error .kindConflict a.span (conflictMessage name v a)

/-- What there is to say about a file; `ordinal` says which of the project's files it is. -/
def diagnosticsOf [Fuzzy] (s : Session) (o : Overview) (ordinal : Nat) (id : FileId)
    (c : StoryFile) : List Diagnostic :=
  let bag := (Bag.withLimit s.settings.maxDiagnostics).merge c.diagnostics
  let found := o.outline.check ordinal c.document s.settings.policy ++ conflictReports o id
  (found.foldl Distinct.report { bag }).bag.sort.items.toList

/-- The files with their contents and their places among the files. -/
def contents (s : Session) : List (Nat × Blob × StoryFile) :=
  (s.files.zipIdx.filterMap fun (b, i) => b.story.map fun c => (i, b, c))

/-- What there is to say about the file with a number. -/
def diagnostics [Fuzzy] (s : Session) (id : BlobId) : Except Error (List Diagnostic) := do
  let _ ← s.fileBlob id
  return ((s.contents.find? fun p => p.2.1.id = id).map fun (i, _, c) =>
    s.diagnosticsOf s.overview i id c).getD []

/-- What there is to say about all files, in the order of their numbers. -/
def allDiagnostics [Fuzzy] (s : Session) : List Diagnostic :=
  let o := s.overview
  s.contents.flatMap fun (i, b, c) => s.diagnosticsOf o i b.id c

/-! ## Documents -/

/-- What the scripts of a file assign, and what the project knows of it. -/
def assignedIn (s : Session) (c : StoryFile) : Assigned := fun start =>
  ((c.assigned.lookup start).getD []).map fun id => ⟨s.store.fullName id, s.store.kindOf id⟩

/-- The compiled form of the file with a number. -/
def compileFile [Fuzzy] (s : Session) (id : BlobId) : Datum :=
  ((s.contents.find? fun p => p.2.1.id = id).map fun (i, _, c) =>
    Export.file (s.assignedIn c) c.document (s.diagnosticsOf s.overview i id c)).getD .null

/-- The compiled form of the project. -/
def compile [Fuzzy] (s : Session) : Datum :=
  let o := s.overview
  Export.project (s.contents.map fun (i, b, c) =>
      Export.projectFile (s.pathOf b) (s.assignedIn c) c.document (s.diagnosticsOf o i b.id c))
    s.store.snapshot

/-- The project as a program. -/
def program (s : Session) (names : Program.Names) : Bytes :=
  Program.ofDocuments names (s.contents.map fun (_, _, c) => (c.document, s.assignedIn c))

/-- The paths of the files of a project and the hashes of their texts, in one text. -/
def fingerprint (s : Session) : Bytes :=
  s.contents.flatMap fun (_, b, c) => s.pathOf b ++ 0 :: c.file.digest.bytes

/-- Identifies the content of a project. -/
def digest (s : Session) : Digest := .ofBytes s.fingerprint

/-! ## Texts -/

/-- Reads a text in place of that of a file; the storage keeps its own. -/
def recompile (s : Session) (id : BlobId) (text : Bytes) : Except Error Session := do
  let b ← s.fileBlob id
  return s.install id (s.readText b text)

/-- Writes a text to the storage and reads it. -/
def save (s : Session) (id : BlobId) (text : Bytes) : Except Error Session := do
  let b ← s.fileBlob id
  let storage ← ofStorage (s.storage.write (s.storagePath b) text)
  { s with storage }.recompile id text

/-- Reads the text of a file from the storage again. -/
def reload (s : Session) (id : BlobId) : Except Error Session := do
  let b ← s.fileBlob id
  s.recompile id (← ofStorage (s.storage.read (s.storagePath b)))

/-! ## Repairs -/

/-- The repair of a project by the fixes of its diagnostics. -/
def planRepair [Fuzzy] (s : Session) (all : Bool) : Repair.Plan × Option Repair.Failure :=
  Repair.plan (some s.file?) s.allDiagnostics all

/-- Saves the files that a repair changes. -/
def applyChanges (s : Session) : List Repair.Change → Except Error Session
  | [] => .ok s
  | c :: cs => do (← s.save c.file c.text).applyChanges cs

end Storyline.Session
