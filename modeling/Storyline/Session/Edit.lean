import Storyline.Session.Basic

/-!
# Changing the tree of a project

Each operation changes the storage first and the session only if that went well, so one that fails
changes nothing.
-/

namespace Storyline.Session

/-- The name of a story file: a name that lacks the extension gets it. -/
def withExtension (s : Session) (name : Bytes) : Bytes :=
  if s.settings.extension.isSuffixOf name then name else name ++ s.settings.extension

/-- Whether a new entry may have a name. -/
def isNewName (name : Bytes) : Bool :=
  !(name.isEmpty || name.contains ('/' : UInt8) || name.contains ('\\' : UInt8)
    || name.head? = some ('.' : UInt8))

/-- The path in the storage of a directory; 0 is the project itself. -/
def directoryPath (s : Session) (parent : BlobId) : Except Error Bytes := do
  if parent = 0 then return s.root
  let b ← s.blob parent
  if b.isDirectory then return s.storagePath b else throw (.notDirectory (s.pathOf b))

/-- A result of the storage as one of a session. -/
def ofStorage {α : Type} (r : Except Storage.Error α) : Except Error α := r.mapError .storage

/-- The storage with a new file or directory in it. -/
def withEntry (storage : Storage) (target : Bytes) (isDirectory : Bool) :
    Except Storage.Error Storage :=
  if isDirectory then
    match storage.makeDirectory target with
    | (storage, none) => .ok storage
    | (_, some e) => .error e
  else storage.write target []

/-- Makes a file or directory in a directory; gives its tree. -/
def create (s : Session) (name : Bytes) (parent : BlobId) (isDirectory : Bool) :
    Except Error (Tree × Session) := do
  if !isNewName name then throw (.badName name)
  let name := if isDirectory then name else s.withExtension name
  let directory ← s.directoryPath parent
  if (s.childrenOf parent).any fun id => s.nameOf id = name then throw (.present name)
  let target := Storage.child directory name
  let storage ← ofStorage (withEntry s.storage target isDirectory)
  let (id, s) := { s with storage }.alloc name parent isDirectory
  let s := match isDirectory, s.blob? id with
    | false, some b => s.install id (s.readText b [])
    | _, _ => s
  return (s.tree id, s)

/-- The files in a blob, itself included, at most `fuel` levels deep, and the blobs around them;
a directory comes after what is in it. -/
def subtree (s : Session) : (fuel : Nat) → BlobId → List BlobId
  | 0, id => [id]
  | fuel + 1, id => (s.childrenOf id).flatMap (s.subtree fuel) ++ [id]

/-- All blobs in a blob, itself included. -/
def everythingIn (s : Session) (id : BlobId) : List BlobId := s.subtree s.blobs.size id

/-- Gives the source of a file the path of its blob. -/
def repath (s : Session) (id : BlobId) : Session :=
  match s.blob? id with
  | none => s
  | some b =>
    let path := Path.clean (s.pathOf b)
    s.mapBlob id fun b =>
      { b with story := b.story.map fun c => { c with file := { c.file with path } } }

/-- Gives a blob another name; gives its tree. -/
def rename (s : Session) (id : BlobId) (name : Bytes) : Except Error (Tree × Session) := do
  let b ← s.blob id
  let name := if b.isDirectory then name else s.withExtension name
  let (_, storage) ← ofStorage (s.storage.rename (s.storagePath b) name)
  let s := { s with storage }.mapChildren b.parent (·.filter (· != id))
  let s := s.mapBlob id fun b => { b with name }
  let s := s.mapChildren b.parent (s.insertSorted id name)
  let s := (s.everythingIn id).foldl repath s
  return (s.tree id, s)

/-- Drops a blob from the arena, and its assignments. -/
def drop (s : Session) (id : BlobId) : Session :=
  let isFile := ((s.blob? id).map fun b => !b.isDirectory).getD false
  { s with
    store := if isFile then s.store.removeOrigin id else s.store
    blobs := s.blobs.setIfInBounds (id - 1) none }

/-- Deletes a blob with everything inside it. -/
def delete (s : Session) (id : BlobId) : Except Error Session := do
  let b ← s.blob id
  let path := s.storagePath b
  let storage ← ofStorage
    (if b.isDirectory then s.storage.deleteDirectory path else s.storage.deleteFile path)
  let gone := s.everythingIn id
  let s := { s with storage }.mapChildren b.parent (·.filter (· != id))
  return gone.foldl drop s

end Storyline.Session
