import Storyline.Storage.Location

/-!
# Disks

The part of a file system that programs see: a tree of directories and files, named by absolute
paths, with the failures that operations on it can have.  A path is followed name by name: what
stands before a slash has to be a directory that is there, also if two dots lead out of it again.
-/

namespace Storyline.Storage

/-! ## Failures -/

/-- Why an operation of the system fails. -/
inductive Trouble where
  | missing
  | notDirectory
  | isDirectory
  | present
  | notEmpty
  | badName
  | longName
deriving DecidableEq, Repr, Inhabited

/-- The wording of a failure. -/
def Trouble.message : Trouble → Bytes
  | missing => "no such file or directory"
  | notDirectory => "not a directory"
  | isDirectory => "is a directory"
  | present => "file exists"
  | notEmpty => "directory not empty"
  | badName => "invalid argument"
  | longName => "file name too long"

/-- A failed operation of the system, with the paths it was given. -/
structure SystemError where
  call : Bytes
  paths : List Bytes
  trouble : Trouble
deriving DecidableEq, Repr, Inhabited

/-- The wording of a failed operation. -/
def SystemError.message (e : SystemError) : Bytes :=
  e.call ++ " " ++ Bytes.join " " e.paths ++ ": " ++ e.trouble.message

/-! ## Entries -/

/-- What a path names. -/
inductive Node where
  | directory
  | file (text : Bytes)
deriving DecidableEq, Repr, Inhabited

/-- Whether an entry is a directory. -/
def Node.isDirectory : Node → Bool
  | directory => true
  | file _ => false

/-- A file system. -/
structure Disk where
  /-- The entries by absolute paths without dots; the root is a directory that is not listed. -/
  entries : List (Bytes × Node) := []
deriving DecidableEq, Repr, Inhabited

namespace Disk

/-- The entry that is listed under a path. -/
def entry? (d : Disk) (path : Bytes) : Option Node :=
  if path = ("/" : Bytes) then some .directory else d.entries.lookup path

/-- Puts an entry at a path. -/
def put (d : Disk) (path : Bytes) (n : Node) : Disk :=
  ⟨(path, n) :: d.entries.filter fun e => e.1 != path⟩

/-- Drops an entry and everything inside it. -/
def drop (d : Disk) (path : Bytes) : Disk :=
  ⟨d.entries.filter fun e => e.1 != path && !isInside path e.1⟩

/-- The entries directly inside a directory, by name. -/
def inside (d : Disk) (path : Bytes) : List (Bytes × Node) :=
  Bytes.sortOn (·.1) ((d.entries.filter fun e => Path.dir e.1 = path).map fun e =>
    (Path.base e.1, e.2))

/-! ## Following paths -/

/-- How long a name may be. -/
def maxName : Nat := 255

/-- How long a path may be. -/
def maxPath : Nat := 4095

/-- The path of a name in a directory. -/
def under (directory name : Bytes) : Bytes :=
  if directory = ("/" : Bytes) then "/" ++ name else directory ++ "/" ++ name

/-- Follows names from the entry `here` on, which is a directory if there are any; gives the entry
and the path that it is listed under.  An empty name stays where it is, as a dot does. -/
def walk (d : Disk) : (here : Bytes) → Node → List Bytes → Except Trouble (Bytes × Node)
  | here, node, [] => .ok (here, node)
  | _, .file _, _ :: _ => .error .notDirectory
  | here, .directory, name :: rest =>
    if name.isEmpty || name = ("." : Bytes) then walk d here .directory rest
    else if name = Path.up then walk d (Path.dir here) .directory rest
    else if maxName < name.length then .error .longName
    else match d.entry? (under here name) with
      | none => .error .missing
      | some node => walk d (under here name) node rest

/-- What is wrong with a path before anything is looked up. -/
def refusal? (path : Bytes) : Option Trouble :=
  if path.contains (0 : UInt8) then some .badName
  else if path.isEmpty then some .missing
  else if maxPath < path.length then some .longName
  else none

/-- The entry that an absolute path names, and the path that it is listed under. -/
def locate (d : Disk) (path : Bytes) : Except Trouble (Bytes × Node) :=
  match refusal? path with
  | some t => .error t
  | none => d.walk "/" .directory (Path.segments path)

/-- The entry that an absolute path names. -/
def find (d : Disk) (path : Bytes) : Except Trouble Node := (d.locate path).map (·.2)

/-- Where the entry of a path is listed or would be, if it is not there yet; the directory it is in
has to be there. -/
def slot (d : Disk) (path : Bytes) : Except Trouble Bytes :=
  match refusal? path with
  | some t => .error t
  | none =>
    let names := Path.segments (path.trimRight (· = '/'))
    let name := names.getLastD []
    match d.walk "/" .directory names.dropLast with
    | .error t => .error t
    | .ok (_, .file _) => .error .notDirectory
    | .ok (here, .directory) =>
      if name.isEmpty || name = ("." : Bytes) then .ok here
      else if name = Path.up then .ok (Path.dir here)
      else if maxName < name.length then .error .longName
      else .ok (under here name)

/-! ## Operations -/

/-- A failure of an operation on one path. -/
def fail {α : Type} (call path : Bytes) (t : Trouble) : Except SystemError α :=
  .error ⟨call, [path], t⟩

/-- The entry that a path names, for a program that asks what it is. -/
def stat (d : Disk) (path : Bytes) : Except SystemError Node :=
  match d.find path with
  | .ok n => .ok n
  | .error t => fail "stat" path t

/-- The text of a file. -/
def readFile (d : Disk) (path : Bytes) : Except SystemError Bytes :=
  match d.find path with
  | .ok (.file text) => .ok text
  | .ok .directory => fail "read" path .isDirectory
  | .error t => fail "open" path t

/-- Gives a file a text; its directory has to be there.  A path with a slash at its end can only
name a directory. -/
def writeFile (d : Disk) (path text : Bytes) : Except SystemError Disk :=
  match d.slot path with
  | .error t => fail "open" path t
  | .ok place =>
    if path.getLast? = some ('/' : UInt8) || d.entry? place = some .directory then
      fail "open" path .isDirectory
    else .ok (d.put place (.file text))

/-- The names in a directory, with whether they are directories. -/
def readDir (d : Disk) (path : Bytes) : Except SystemError (List (Bytes × Bool)) :=
  match d.locate path with
  | .ok (place, .directory) => .ok ((d.inside place).map fun e => (e.1, e.2.isDirectory))
  | .ok (_, .file _) => fail "open" path .notDirectory
  | .error t => fail "open" path t

/-- Drops a file or an empty directory. -/
def remove (d : Disk) (path : Bytes) : Except SystemError Disk :=
  match d.locate path with
  | .ok (place, .file _) => .ok (d.drop place)
  | .ok (place, .directory) =>
    if (d.inside place).isEmpty then .ok (d.drop place) else fail "remove" path .notEmpty
  | .error t => fail "remove" path t

/-- Drops whatever is at a path, if anything is.  Nothing is there either if its directory is
missing, whatever its name. -/
def removeAll (d : Disk) (path : Bytes) : Except SystemError Disk :=
  match d.locate path with
  | .ok (place, _) => .ok (d.drop place)
  | .error .missing => .ok d
  | .error t =>
    match d.find (Path.dir path) with
    | .ok _ => fail "unlinkat" path t
    | .error .missing => .ok d
    | .error t => fail "open" (Path.dir path) t

/-- Makes one directory; one that is already there stays. -/
def makeDir (d : Disk) (path : Bytes) : Except Trouble Disk :=
  match d.slot path with
  | .error t => .error t
  | .ok place =>
    match d.entry? place with
    | none => .ok (d.put place .directory)
    | some .directory => .ok d
    | some (.file _) => .error .present

/-- Makes a directory and, at most `fuel` levels up, those around it.  What was made before a
failure stays. -/
def makeAll : (fuel : Nat) → Disk → (path : Bytes) → Disk × Option SystemError
  | 0, d, _ => (d, none)
  | fuel + 1, d, path =>
    match d.find path with
    | .ok .directory => (d, none)
    | .ok (.file _) => (d, some ⟨"mkdir", [path], .notDirectory⟩)
    | .error _ =>
      let (d, failure) := match Path.above? path with
        | none => (d, none)
        | some around => makeAll fuel d around
      if failure.isSome then (d, failure)
      else match d.makeDir path with
        | .ok d => (d, none)
        | .error t => (d, some ⟨"mkdir", [path], t⟩)

/-- Makes a directory and those around it.  What was made before a failure stays. -/
def makeDirs (d : Disk) (path : Bytes) : Disk × Option SystemError :=
  makeAll (path.length + 1) d path

/-- Moves an entry with everything inside it. -/
def move (d : Disk) (source target : Bytes) : Disk :=
  let (moved, stay) := (d.drop target).entries.partition fun e =>
    e.1 = source || isInside source e.1
  ⟨moved.map (fun e => (target ++ e.1.drop source.length, e.2)) ++ stay⟩

/-- Gives an entry another path.  A file takes the place of a file, and nothing takes the place of
a directory. -/
def rename (d : Disk) (source target : Bytes) : Except SystemError Disk :=
  let failed (t : Trouble) : Except SystemError Disk := .error ⟨"rename", [source, target], t⟩
  match d.locate source, d.locate target with
  | .error t, _ => failed t
  | .ok _, .ok (_, .directory) => failed .present
  | .ok (_, .directory), .ok (_, .file _) => failed .notDirectory
  | .ok (s, .file _), .ok (t, .file _) => .ok (if s = t then d else d.move s t)
  | .ok (s, _), .error .missing =>
    match d.slot target with
    | .ok t => .ok (d.move s t)
    | .error t => failed t
  | .ok _, .error t => failed t

end Disk

end Storyline.Storage
