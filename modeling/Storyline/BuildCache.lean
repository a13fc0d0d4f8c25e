import Storyline.Digest
import Storyline.Export.Msgpack

/-!
# Build caches

A cache keeps finished builds, each under the digest of everything it was made from.  An entry is a
MessagePack map; one that was written by another version of the cache counts as absent.
-/

namespace Storyline

/-- A finished build. -/
structure CachedBuild where
  /-- The version of the cache that wrote it. -/
  schema : Nat := 0
  /-- The name of the format. -/
  format : Bytes := []
  output : Bytes := []
  /-- The paths of the files it was made from, if they are known. -/
  files : Option (List Bytes) := none
  /-- How many errors it has. -/
  errors : Int := 0
deriving DecidableEq, Repr, Inhabited

namespace CachedBuild

/-- The version of this cache. -/
def currentSchema : Nat := 1

/-- The bytes of an entry. -/
def encode (b : CachedBuild) : Bytes :=
  let files := match b.files with
    | none => Msgpack.nil
    | some files => Msgpack.listHead files.length ++ files.flatMap Msgpack.text
  Msgpack.mapHead 5 ++ Msgpack.text "Schema" ++ Msgpack.word b.schema
    ++ Msgpack.text "Format" ++ Msgpack.text b.format
    ++ Msgpack.text "Output" ++ Msgpack.binary b.output
    ++ Msgpack.text "Files" ++ files
    ++ Msgpack.text "Errors" ++ Msgpack.int b.errors

/-- Reads the value of a field; what is under an unknown name is passed over. -/
def readField (name : Bytes) (b : CachedBuild) : Msgpack.Reading CachedBuild := fun s => do
  if name = ("Schema" : Bytes) then
    let (n, s) ← Msgpack.readInt "uint64" s
    return ({ b with schema := (n % 0x10000).toNat }, s)
  else if name = ("Format" : Bytes) then
    let (format, s) ← Msgpack.readText s
    return ({ b with format }, s)
  else if name = ("Output" : Bytes) then
    let (output, s) ← Msgpack.readText s
    return ({ b with output }, s)
  else if name = ("Files" : Bytes) then
    let (files, s) ← Msgpack.readTexts s
    return ({ b with files := files <|> b.files }, s)
  else if name = ("Errors" : Bytes) then
    let (n, s) ← Msgpack.readInt "int64" s
    return ({ b with errors := Msgpack.toSigned 64 (n % 0x10000000000000000).toNat }, s)
  else return (b, ← Msgpack.skip (s.length + 1) 1 s)

/-- Reads a number of names with values. -/
def readFields : (fuel n : Nat) → CachedBuild → Bytes → Except Msgpack.ReadError CachedBuild
  | _, 0, b, _ => .ok b
  | 0, _ + 1, _, _ => .error .ended
  | fuel + 1, n + 1, b, s => do
    let (name, s) ← Msgpack.readText s
    let (b, s) ← readField name b s
    readFields fuel n b s

/-- The names of the fields, in the order they have in a list. -/
def fieldNames : List Bytes := ["Schema", "Format", "Output", "Files", "Errors"]

/-- Reads the values of fields in their order. -/
def readList : List Bytes → CachedBuild → Bytes → Except Msgpack.ReadError CachedBuild
  | [], b, _ => .ok b
  | name :: names, b, s => do
    let (b, s) ← readField name b s
    readList names b s

/-- Reads an entry: a map, or a list of all values, or nothing at all. -/
def decode (s : Bytes) : Except Msgpack.ReadError CachedBuild :=
  match Msgpack.readMapHead s with
  | .ok (none, _) => .ok {}
  | .ok (some n, rest) => readFields (rest.length + 1) n {} rest
  | .error e =>
    match Msgpack.readListHead s with
    | .ok (some n, rest) =>
      if n = 0 then .ok {}
      else if n = fieldNames.length then readList fieldNames {} rest
      else .error .fieldCount
    | _ => .error e

end CachedBuild

/-- Entries by the spelling of their digests. -/
structure BuildCache where
  entries : List (Bytes × Bytes) := []
deriving DecidableEq, Repr, Inhabited

namespace BuildCache

/-- What is found under a digest. -/
inductive Lookup where
  | miss
  | hit (b : CachedBuild)
  /-- There is an entry that cannot be read. -/
  | unreadable (e : Msgpack.ReadError)
deriving DecidableEq, Repr, Inhabited

/-- The bytes of an entry. -/
def raw? (c : BuildCache) (key : Digest) : Option Bytes := c.entries.lookup key.hex

/-- Puts bytes under a digest. -/
def putRaw (c : BuildCache) (key : Digest) (bytes : Bytes) : BuildCache :=
  ⟨(key.hex, bytes) :: c.entries.filter fun e => e.1 != key.hex⟩

/-- Puts a build under a digest. -/
def put (c : BuildCache) (key : Digest) (b : CachedBuild) : BuildCache :=
  c.putRaw key { b with schema := CachedBuild.currentSchema }.encode

/-- What the bytes of an entry hold. -/
def Lookup.ofBytes (bytes : Bytes) : Lookup :=
  match CachedBuild.decode bytes with
  | .error e => .unreadable e
  | .ok b => if b.schema = CachedBuild.currentSchema then .hit b else .miss

/-- Finds a build. -/
def get (c : BuildCache) (key : Digest) : Lookup :=
  match c.raw? key with
  | none => .miss
  | some bytes => .ofBytes bytes

/-- The names of the files that hold the entries. -/
def fileNames (c : BuildCache) : List Bytes :=
  Bytes.sortOn id (c.entries.map fun e => e.1 ++ ".mp")

end BuildCache

end Storyline
