import Storyline.Command.State

/-!
# The project of a command

The argument of a command leads to a project: the one with the nearest manifest at or above it, or
without any, the directory itself with the settings of a new one.
-/

namespace Storyline.Command

open Storage (Disk)

/-- An open project and where it came from. -/
structure Project where
  /-- The absolute path of its directory. -/
  root : Bytes
  manifest : Manifest
  session : Session
  /-- The file that the command names; nothing if it names the whole project. -/
  target : Option BlobId := none
deriving Repr, Inhabited

/-- The argument of a command, or else the working directory. -/
def targetOf : List Bytes → Bytes
  | [] => "."
  | arg :: _ => if arg.trimBlank.isEmpty then "." else arg

/-- The directory and the manifest of the project around an absolute path. -/
def resolve (disk : Disk) (path : Bytes) : Except Failure (Bytes × Manifest) := do
  match ← (Manifest.find disk path).mapError .search with
  | some file => return (Path.dir file, ← (Manifest.load disk file).mapError .manifest)
  | none =>
    let node ← (disk.stat path).mapError .system
    let root := if node.isDirectory then path else Path.dir path
    return (root, Manifest.new (Path.base root))

/-- The settings of a project, with those that options override. -/
def settingsFor (o : Options) (m : Manifest) : Except Failure Settings := do
  let settings ← m.settings.mapError .setting
  let limit := o.integer "max-diagnostics"
  return if 0 < limit then { settings with maxDiagnostics := limit } else settings

/-- The storage in a directory. -/
def storageAt (disk : Disk) (root : Bytes) : Except Failure Storage :=
  (Storage.Folder.open? disk root).map Storage.folder |>.mapError .storage

/-- Opens a session on a storage and tells of it. -/
def openSession (storage : Storage) (settings : Settings) : Act Session := do
  if (← get).tracer.isEnabled then Act.tell (Session.openMarks storage [] settings)
  Act.ofExcept .session (Session.openProject storage [] settings)

/-- The file that an absolute path names in a project, if it names one. -/
def targetIn (disk : Disk) (root path : Bytes) (s : Session) : Except Failure (Option BlobId) :=
  match disk.stat path with
  | .ok (.file _) =>
    let place := Path.relative root path
    match s.lookup? place with
    | some id => .ok (some id)
    | none => .error (.notStory place root s.settings.extension)
  | _ => .ok none

/-- Opens the project around a path. -/
def openProject (o : Options) (path : Bytes) : Act Project := do
  let full ← Act.absolute path
  let disk := (← get).disk
  let (root, manifest) ← Act.ofExcept id (resolve disk full)
  let settings ← Act.ofExcept id (settingsFor o manifest)
  let storage ← Act.ofExcept id (storageAt disk root)
  let session ← Act.measure "open" (openSession storage settings)
  let target ← Act.ofExcept id (targetIn disk root full session)
  return { root, manifest, session, target }

/-- What there is to say about the file that a command names, or about the whole project. -/
def Project.diagnostics (p : Project) : Except Failure (List Diagnostic) :=
  match p.target with
  | some id => (p.session.diagnostics id).mapError .session
  | none => .ok p.session.allDiagnostics

/-- The disk of a storage, or another one if it is in memory. -/
def diskOf (other : Disk) : Storage → Disk
  | .folder f => f.disk
  | .memory _ => other

end Storyline.Command
