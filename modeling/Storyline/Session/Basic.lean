import Storyline.Session.Story
import Storyline.Storage.Basic

/-!
# Sessions

A session is an open project: a tree of blobs, which are its directories and story files, and the
variables of all its scripts.  Blobs are numbered from 1 on in the order they appear, and a number
is never given out again; the number of a file is also the one its spans carry.  Numbers are
natural numbers; where they have to fit into 32-bit words, no blob is made behind the last word, and
what is said here is meant of projects with fewer than 2^32 directories and files.
-/

namespace Storyline

/-- Names a directory or file of a project; 0 stands for the project itself.  A word as long as there
are fewer than 2^32 of them. -/
abbrev BlobId := Nat

/-- The content of a file blob. -/
structure StoryFile where
  file : File
  document : Markup.Document
  diagnostics : List Diagnostic
  /-- For each script inside a text, where its text starts and which variables it assigns. -/
  assigned : List (Nat × List Variables.VarId)
deriving Repr, Inhabited

/-- A directory or file of a project. -/
structure Blob where
  id : BlobId
  name : Bytes
  /-- The directory it is in; 0 at the top. -/
  parent : BlobId
  /-- The directories around it, outermost first. -/
  ancestors : List BlobId
  isDirectory : Bool
  /-- What is in a directory, by name. -/
  children : List BlobId := []
  /-- The content of a file. -/
  story : Option StoryFile := none
deriving Repr, Inhabited

/-- The text of a file blob. -/
def Blob.text (b : Blob) : Bytes := (b.story.map (·.file.bytes)).getD []

/-- An open project. -/
structure Session where
  storage : Storage
  /-- Where the project is in its storage. -/
  root : Bytes
  settings : Settings
  /-- The blob with number `id` stands at `id - 1`; nothing stands for one that was deleted. -/
  blobs : Array (Option Blob) := #[]
  /-- The blobs at the top, by name. -/
  top : List BlobId := []
  store : Variables.Store := .empty
deriving Repr, Inhabited

namespace Session

/-- Why an operation on a session fails. -/
inductive Error where
  | unknownBlob (id : BlobId)
  | notDirectory (path : Bytes)
  | notFile (path : Bytes)
  | badName (name : Bytes)
  | present (name : Bytes)
  | storage (e : Storage.Error)
  /-- The root of the project is not inside its storage. -/
  | outside (root : Bytes)
  | unlistable (directory : Bytes) (e : Storage.Error)
  | unreadable (path : Bytes) (e : Storage.Error)
deriving DecidableEq, Repr, Inhabited

/-- The wording of a failure. -/
def Error.message : Error → Bytes
  | unknownBlob id => "unknown blob " ++ Bytes.ofNat id
  | notDirectory path => "blob is not a directory: " ++ path
  | notFile path => "blob is not a file: " ++ path
  | badName name => "create entry: invalid name " ++ Text.quoted name
  | present name => "create entry: " ++ Text.quoted name ++ " already exists"
  | storage e => e.message
  | outside root =>
    "open project " ++ Text.quoted root ++ ": " ++ Storage.Fault.outsideRoot.message
  | unlistable d e => "list " ++ Text.quoted d ++ ": " ++ e.message
  | unreadable p e => "read " ++ p ++ ": " ++ e.message

/-! ## Looking up -/

/-- The blob with a number. -/
def blob? (s : Session) (id : BlobId) : Option Blob :=
  if id = 0 then none else (s.blobs[id - 1]?).join

/-- The name of a blob. -/
def nameOf (s : Session) (id : BlobId) : Bytes := ((s.blob? id).map (·.name)).getD []

/-- The path of a blob below the root of the project. -/
def pathOf (s : Session) (b : Blob) : Bytes :=
  Bytes.join "/" (b.ancestors.map s.nameOf ++ [b.name])

/-- The path of a blob in the storage. -/
def storagePath (s : Session) (b : Blob) : Bytes := Storage.child s.root (s.pathOf b)

/-- The blob with a number, which has to be there. -/
def blob (s : Session) (id : BlobId) : Except Error Blob :=
  match s.blob? id with
  | some b => .ok b
  | none => .error (.unknownBlob id)

/-- The file with a number, which has to be there. -/
def fileBlob (s : Session) (id : BlobId) : Except Error Blob := do
  let b ← s.blob id
  if b.isDirectory then .error (.notFile (s.pathOf b)) else .ok b

/-- The content of the file with a number. -/
def story? (s : Session) (id : BlobId) : Option StoryFile := (s.blob? id).bind (·.story)

/-- The source of the file with a number. -/
def file? (s : Session) (id : FileId) : Option File := (s.story? id).map (·.file)

/-- The files in the order of their numbers. -/
def files (s : Session) : List Blob :=
  s.blobs.toList.filterMap fun b => b.filter fun b => !b.isDirectory

/-- The blobs in a directory; those at the top for 0. -/
def childrenOf (s : Session) (id : BlobId) : List BlobId :=
  if id = 0 then s.top else ((s.blob? id).map (·.children)).getD []

/-- The blob that the names of a path lead to from some blobs on; `found` is where they led so
far. -/
def find (s : Session) (found : BlobId) : List Bytes → Option BlobId
  | [] => some found
  | name :: rest => do
    let next ← (s.childrenOf found).find? fun id => s.nameOf id = name
    s.find next rest

/-- The blob at a path below the root of the project. -/
def lookup? (s : Session) (path : Bytes) : Option BlobId :=
  s.find 0 (Path.segments (path.trim (· = '/')))

/-! ## The tree -/

/-- A blob with everything inside it. -/
inductive Tree where
  | node (id : BlobId) (name : Bytes) (isDirectory : Bool) (children : List Tree)
deriving Repr, Inhabited

/-- The tree of a blob, at most `fuel` levels deep. -/
def treeOf (s : Session) : (fuel : Nat) → BlobId → Tree
  | 0, id => .node id (s.nameOf id) false []
  | fuel + 1, id =>
    let isDirectory := ((s.blob? id).map (·.isDirectory)).getD false
    .node id (s.nameOf id) isDirectory ((s.childrenOf id).map (s.treeOf fuel))

/-- The tree of a blob.  Directories are nested no deeper than there are blobs. -/
def tree (s : Session) (id : BlobId) : Tree := s.treeOf s.blobs.size id

/-- The trees of the blobs at the top. -/
def fileTree (s : Session) : List Tree := s.top.map s.tree

/-! ## Changing blobs -/

/-- Changes a blob. -/
def mapBlob (s : Session) (id : BlobId) (f : Blob → Blob) : Session :=
  { s with blobs := s.blobs.modify (id - 1) (Option.map f) }

/-- Changes the list of blobs in a directory; that at the top for 0. -/
def mapChildren (s : Session) (id : BlobId) (f : List BlobId → List BlobId) : Session :=
  if id = 0 then { s with top := f s.top }
  else s.mapBlob id fun b => { b with children := f b.children }

/-- Blobs by name with one more, before those whose names are not smaller. -/
def insertSorted (s : Session) (id : BlobId) (name : Bytes) (ids : List BlobId) : List BlobId :=
  let (before, after) := ids.span fun x => !Bytes.notAfter name (s.nameOf x)
  before ++ id :: after

/-- Adds a blob to a directory; gives its number. -/
def alloc (s : Session) (name : Bytes) (parent : BlobId) (isDirectory : Bool) :
    BlobId × Session :=
  let id := s.blobs.size + 1
  let ancestors := if parent = 0 then []
    else ((s.blob? parent).map (·.ancestors)).getD [] ++ [parent]
  let s' := s.mapChildren parent (s.insertSorted id name)
  (id, { s' with blobs := s'.blobs.push (some { id, name, parent, ancestors, isDirectory }) })

/-- Makes what was read from a file its content, and its assignments those of the file. -/
def install (s : Session) (id : BlobId) (story : Story) : Session :=
  let (ids, store) := s.store.replace id (story.scripts.map (·.2))
  let assigned := (story.scripts.zip ids).filterMap fun ((ref, _), vars) =>
    if ref.origin = .inline then some (ref.span.start, vars) else none
  let content : StoryFile := ⟨story.file, story.document, story.diagnostics, assigned⟩
  { s.mapBlob id (fun b => { b with story := some content }) with store }

/-- Reads a text as the content of a file. -/
def readText (s : Session) (b : Blob) (text : Bytes) : Story :=
  Story.ofText s.settings b.id (s.pathOf b) text

end Session

end Storyline
