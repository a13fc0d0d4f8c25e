import Storyline.Session.Basic
import Storyline.Trace.Tracer

/-!
# Opening a project

The directories and story files of a project become blobs in the order of a walk through its
storage, then every file is read, and the scripts of the files are folded into the store in the
order of their numbers.  Names that start with a dot are passed over.

Opening tells of three phases: the walk through the storage, the reading of the files one by one,
and the folding of their scripts.
-/

namespace Storyline

/-- How many directories and files there are at most. -/
def Storage.size : Storage → Nat
  | memory m => m.files.length + m.directories.length
  | folder f => f.disk.entries.length

namespace Session

/-- Adds one listed name and, for a directory, whatever `below` finds inside it. -/
def scanEntry (below : BlobId → Bytes → Session → Except Error Session) (parent : BlobId)
    (directory : Bytes) (s : Session) (e : Storage.Listed) : Except Error Session :=
  if e.name.head? = some ('.' : UInt8) then .ok s
  else if !e.isDirectory && !s.settings.extension.isSuffixOf e.name then .ok s
  else
    let (id, s) := s.alloc e.name parent e.isDirectory
    if e.isDirectory then below id (Storage.child directory e.name) s else .ok s

/-- Adds what is in a directory, at most `fuel` levels deep. -/
def scan : (fuel : Nat) → (parent : BlobId) → (directory : Bytes) → Session →
    Except Error Session
  | 0, _, _, s => .ok s
  | fuel + 1, parent, directory, s =>
    match s.storage.list directory with
    | .error e => .error (.unlistable directory e)
    | .ok entries => entries.foldlM (scanEntry (scan fuel) parent directory) s

/-- The texts of files from the storage. -/
def readAll (s : Session) : List Blob → Except Error (List (BlobId × Story))
  | [] => .ok []
  | b :: bs =>
    match s.storage.read (Storage.child s.root (s.pathOf b)) with
    | .error e => .error (.unreadable (s.pathOf b) e)
    | .ok text => do
      let rest ← s.readAll bs
      return (b.id, s.readText b text) :: rest

/-- An empty session on a project. -/
def start (storage : Storage) (root : Bytes) (settings : Settings) : Except Error Session :=
  match Storage.locate? root with
  | none => .error (.outside root)
  | some place => .ok { storage, root := place, settings := settings.normalized }

/-- The session with the blobs of its project, none of them read. -/
def scanned (s : Session) : Except Error Session := scan (s.storage.size + 1) 0 s.root s

/-- The session with all its files read. -/
def loaded (s : Session) : Except Error Session := do
  let stories ← s.readAll s.files
  return stories.foldl (fun s p => s.install p.1 p.2) s

/-- Opens a project. -/
def openProject (storage : Storage) (root : Bytes) (settings : Settings) :
    Except Error Session := do
  (← (← start storage root settings).scanned).loaded

/-! ## What opening tells -/

open Trace (Mark)

/-- Whether the storage gives the text of a file. -/
def isReadable (s : Session) (b : Blob) : Bool :=
  (s.storage.read (Storage.child s.root (s.pathOf b))).toBool

/-- What reading files tells; it stops at the first one without a text. -/
def readMarks (s : Session) : List Blob → List Mark
  | [] => []
  | b :: bs =>
    let name := "parse:" ++ s.pathOf b
    if s.isReadable b then Mark.whole .file name [] ++ s.readMarks bs
    else Mark.whole .file name "unreadable"

/-- What the phases after the walk tell. -/
def loadMarks (s : Session) : List Mark :=
  let files := s.files
  .enter .phase "parse" :: s.readMarks files ++
    if files.all s.isReadable then
      .leave (Bytes.ofNat files.length ++ " files") :: Mark.whole .phase "fold" []
    else [.leave "failed"]

/-- What opening a project tells. -/
def openMarks (storage : Storage) (root : Bytes) (settings : Settings) : List Mark :=
  match start storage root settings with
  | .error _ => []
  | .ok s =>
    match s.scanned with
    | .error _ => Mark.whole .phase "scan" "failed"
    | .ok s => Mark.whole .phase "scan" [] ++ s.loadMarks

end Session

end Storyline
