import Storyline.Storage.Error

/-!
# Storage of a project

A project is kept in memory or in a directory of a disk; both have the same operations.  In memory
there are files by place, and the directories that are there: those around the files, and those
that were made.
-/

namespace Storyline.Storage

/-! ## Projects in memory -/

/-- A project in memory. -/
structure Memory where
  files : List (Bytes × Bytes) := []
  directories : List Bytes := [[]]
deriving DecidableEq, Repr, Inhabited

namespace Memory

/-! ## Parts -/

/-- The text of the file at a place. -/
def file? (m : Memory) (place : Bytes) : Option Bytes := m.files.lookup place

/-- Whether there is a directory at a place. -/
def hasDirectory (m : Memory) (place : Bytes) : Bool := m.directories.contains place

/-- Puts a file at a place. -/
def putFile (m : Memory) (place text : Bytes) : Memory :=
  { m with files := (m.files.filter fun f => f.1 != place) ++ [(place, text)] }

/-- Puts a directory at a place. -/
def putDirectory (m : Memory) (place : Bytes) : Memory :=
  if m.hasDirectory place then m else { m with directories := m.directories ++ [place] }

/-- The places around a place, up to the root. -/
def around (place : Bytes) : List Bytes :=
  go place.length place
where
  /-- At most `fuel` places around one, and the root. -/
  go : (fuel : Nat) → Bytes → List Bytes
    | 0, _ => [[]]
    | fuel + 1, p => if (parent p).isEmpty then [[]] else parent p :: go fuel (parent p)

/-- Puts the directories around a place. -/
def putAround (m : Memory) (place : Bytes) : Memory := (around place).foldl putDirectory m

/-- A project with files; those with paths that lead out of it are left out. -/
def ofFiles (files : List (Bytes × Bytes)) : Memory :=
  files.foldl (fun m f =>
    match locate? f.1 with
    | some place => (m.putFile place f.2).putAround place
    | none => m) {}

/-- All files by place. -/
def allFiles (m : Memory) : List (Bytes × Bytes) := Bytes.sortOn (·.1) m.files

/-! ## Operations -/

/-- Runs an operation at the place that a path names. -/
def atPlace {α : Type} (operation path : Bytes) (run : Bytes → Except Fault α) : Except Error α :=
  match locate? path with
  | none => .error ⟨operation, path, .outsideRoot⟩
  | some place => (run place).mapError fun fault => ⟨operation, path, fault⟩

/-- The text of a file. -/
def read (m : Memory) (path : Bytes) : Except Error Bytes :=
  atPlace "read" path fun place =>
    match m.file? place with
    | some text => .ok text
    | none => .error .missing

/-- Gives a file a text; its directory has to be there. -/
def write (m : Memory) (path text : Bytes) : Except Error Memory :=
  atPlace "write" path fun place =>
    if m.hasDirectory (parent place) then .ok (m.putFile place text) else .error .missing

/-- The project with everything inside the directory `source` moved to `target`. -/
def moveDirectory (m : Memory) (source target : Bytes) : Memory :=
  let (moved, stay) := m.files.partition fun f => isInside source f.1
  let (movedDirs, stayDirs) := m.directories.partition fun d => d = source || isInside source d
  let kept : Memory := ⟨stay, stayDirs⟩
  let m := moved.foldl (fun m f => m.putFile (target ++ f.1.drop source.length) f.2) kept
  movedDirs.foldl (fun m d => m.putDirectory (target ++ d.drop source.length)) m

/-- Gives an entry another name in its directory; gives its new place and whether it is a
directory. -/
def rename (m : Memory) (path name : Bytes) : Except Error ((Bytes × Bool) × Memory) :=
  if !isEntryName name then .error ⟨"rename", path, .badName name⟩
  else atPlace "rename" path fun place =>
    let target := child (parent place) name
    match m.file? place with
    | some text =>
      let rest : Memory := { m with files := m.files.filter fun f => f.1 != place }
      .ok ((target, false), rest.putFile target text)
    | none =>
      if m.hasDirectory place && !place.isEmpty then
        .ok ((target, true), m.moveDirectory place target)
      else .error .missing

/-- Drops a file. -/
def deleteFile (m : Memory) (path : Bytes) : Except Error Memory :=
  atPlace "delete" path fun place =>
    match m.file? place with
    | some _ => .ok { m with files := m.files.filter fun f => f.1 != place }
    | none => .error .missing

/-- Drops a directory with everything inside it. -/
def deleteDirectory (m : Memory) (path : Bytes) : Except Error Memory :=
  atPlace "delete" path fun place =>
    if place.isEmpty then .error .wholeProject
    else if m.hasDirectory place then
      .ok ⟨m.files.filter fun f => !isInside place f.1,
        m.directories.filter fun d => d != place && !isInside place d⟩
    else .error .missing

/-- Makes a directory and those around it. -/
def makeDirectory (m : Memory) (path : Bytes) : Except Error Memory :=
  atPlace "mkdir" path fun place => .ok ((m.putDirectory place).putAround place)

/-- The names in a directory. -/
def list (m : Memory) (path : Bytes) : Except Error (List Listed) :=
  atPlace "list" path fun place =>
    if m.hasDirectory place then
      let files := m.files.filterMap fun f =>
        if parent f.1 = place then some ⟨Path.base f.1, false⟩ else none
      let directories := m.directories.filterMap fun d =>
        if !d.isEmpty && d != place && parent d = place then some ⟨Path.base d, true⟩ else none
      .ok (Bytes.sortOn (·.name) (files ++ directories))
    else .error .missing

end Memory

/-! ## Projects on disk -/

/-- A project on disk. -/
structure Folder where
  disk : Disk
  /-- The absolute path of its root. -/
  root : Bytes
deriving DecidableEq, Repr, Inhabited

namespace Folder

/-- The project in a directory. -/
def open? (disk : Disk) (root : Bytes) : Except Error Folder :=
  match disk.stat root with
  | .error e => .error ⟨"open", root, .system e⟩
  | .ok .directory => .ok ⟨disk, root⟩
  | .ok (.file _) => .error ⟨"open", root, .notDirectory⟩

/-- The absolute path of a place. -/
def absolute (f : Folder) (place : Bytes) : Bytes := Path.join [f.root, place]

/-- Runs an operation at the place that a path names, given the place and its absolute path. -/
def atPlace {α : Type} (f : Folder) (operation path : Bytes)
    (run : (place absolute : Bytes) → Except Fault α) : Except Error α :=
  match locate? path with
  | none => .error ⟨operation, path, .outsideRoot⟩
  | some place => (run place (f.absolute place)).mapError fun fault => ⟨operation, path, fault⟩

/-- The text of a file. -/
def read (f : Folder) (path : Bytes) : Except Error Bytes :=
  f.atPlace "read" path fun _ full => (f.disk.readFile full).mapError .ofSystem

/-- Gives a file a text; its directory has to be there. -/
def write (f : Folder) (path text : Bytes) : Except Error Folder :=
  f.atPlace "write" path fun _ full =>
    match f.disk.writeFile full text with
    | .ok disk => .ok { f with disk }
    | .error e => .error (.system e)

/-- Gives an entry another name in its directory; gives its new place and whether it is a
directory. -/
def rename (f : Folder) (path name : Bytes) : Except Error ((Bytes × Bool) × Folder) :=
  if !isEntryName name then .error ⟨"rename", path, .badName name⟩
  else f.atPlace "rename" path fun place full =>
    match f.disk.stat full with
    | .error e => .error (.ofSystem e)
    | .ok node =>
      match f.disk.rename full (Path.join [Path.dir full, name]) with
      | .error e => .error (.system e)
      | .ok disk => .ok ((child (parent place) name, node.isDirectory), { f with disk })

/-- Drops a file or an empty directory. -/
def deleteFile (f : Folder) (path : Bytes) : Except Error Folder :=
  f.atPlace "delete" path fun _ full =>
    match f.disk.remove full with
    | .ok disk => .ok { f with disk }
    | .error e => .error (.ofSystem e)

/-- Drops whatever is at a place, with everything inside it. -/
def deleteDirectory (f : Folder) (path : Bytes) : Except Error Folder :=
  f.atPlace "delete" path fun place full =>
    if place.isEmpty then .error .wholeProject
    else match f.disk.removeAll full with
      | .ok disk => .ok { f with disk }
      | .error e => .error (.system e)

/-- Makes a directory and those around it.  What was made before a failure stays. -/
def makeDirectory (f : Folder) (path : Bytes) : Folder × Option Error :=
  match locate? path with
  | none => (f, some ⟨"mkdir", path, .outsideRoot⟩)
  | some place =>
    let (disk, failure) := f.disk.makeDirs (f.absolute place)
    ({ f with disk }, failure.map fun e => ⟨"mkdir", path, .system e⟩)

/-- The names in a directory. -/
def list (f : Folder) (path : Bytes) : Except Error (List Listed) :=
  f.atPlace "list" path fun _ full =>
    match f.disk.readDir full with
    | .ok names => .ok (names.map fun n => ⟨n.1, n.2⟩)
    | .error e => .error (.ofSystem e)

end Folder

end Storyline.Storage

namespace Storyline

/-! ## Projects in either -/

open Storage

/-- Where a project is kept. -/
inductive Storage where
  | memory (m : Memory)
  | folder (f : Folder)
deriving DecidableEq, Repr, Inhabited

namespace Storage

/-- The text of a file. -/
def read (path : Bytes) : Storage → Except Error Bytes
  | memory m => m.read path
  | folder f => f.read path

/-- Gives a file a text. -/
def write (path text : Bytes) : Storage → Except Error Storage
  | memory m => (m.write path text).map memory
  | folder f => (f.write path text).map folder

/-- Gives an entry another name in its directory. -/
def rename (path name : Bytes) : Storage → Except Error ((Bytes × Bool) × Storage)
  | memory m => (m.rename path name).map fun r => (r.1, memory r.2)
  | folder f => (f.rename path name).map fun r => (r.1, folder r.2)

/-- Drops a file. -/
def deleteFile (path : Bytes) : Storage → Except Error Storage
  | memory m => (m.deleteFile path).map memory
  | folder f => (f.deleteFile path).map folder

/-- Drops a directory with everything inside it. -/
def deleteDirectory (path : Bytes) : Storage → Except Error Storage
  | memory m => (m.deleteDirectory path).map memory
  | folder f => (f.deleteDirectory path).map folder

/-- Makes a directory and those around it.  What was made before a failure stays. -/
def makeDirectory (path : Bytes) : Storage → Storage × Option Error
  | memory m =>
    match m.makeDirectory path with
    | .ok m => (memory m, none)
    | .error e => (memory m, some e)
  | folder f =>
    let (f, failure) := f.makeDirectory path
    (folder f, failure)

/-- The names in a directory. -/
def list (path : Bytes) : Storage → Except Error (List Listed)
  | memory m => m.list path
  | folder f => f.list path

/-- A storage with the content of another one of its kind; its root stays. -/
def withContentOf (other : Storage) : Storage → Storage
  | memory m =>
    match other with
    | memory n => memory n
    | folder _ => memory m
  | folder f =>
    match other with
    | folder g => folder { f with disk := g.disk }
    | memory _ => folder f

end Storage

end Storyline
