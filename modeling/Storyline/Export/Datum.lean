import Storyline.Export.Msgpack
import Storyline.Json.Writer
import Storyline.Text.Quoted

/-!
# Documents as data

Compiled documents are trees of plain data.  They are written as JSON, compact or indented, or as
MessagePack, always with the members of a record in the same order.
-/

namespace Storyline

/-- Plain data. -/
inductive Datum where
  | null
  | bool (b : Bool)
  | nat (n : Nat)
  | text (s : Bytes)
  | list (items : List Datum)
  | record (members : List (Bytes × Datum))
deriving Repr, Inhabited

namespace Datum

/-- A record with literal names. -/
def ofFields (fields : List (String × Datum)) : Datum :=
  .record (fields.map fun f => ((f.1 : Bytes), f.2))

/-! ## Writing -/

mutual

/-- The JSON value of data. -/
def toJson : Datum → Json
  | .null => .null
  | .bool b => .bool b
  | .nat n => .nat n
  | .text s => .text s
  | .list xs => .array (toJsonItems xs)
  | .record ms => .object (toJsonMembers ms)

/-- The JSON values of items. -/
def toJsonItems : List Datum → List Json
  | [] => []
  | x :: xs => x.toJson :: toJsonItems xs

/-- The JSON values of members. -/
def toJsonMembers : List (Bytes × Datum) → List (Bytes × Json)
  | [] => []
  | (k, x) :: ms => (Json.spell .plain k, x.toJson) :: toJsonMembers ms

end

mutual

/-- Writes data as MessagePack onto `acc`. -/
def packOnto (acc : Array UInt8) : Datum → Array UInt8
  | .null => acc ++ Msgpack.nil
  | .bool b => acc ++ Msgpack.bool b
  | .nat n => acc ++ Msgpack.nat n
  | .text s => acc ++ Msgpack.text s
  | .list xs => packItems (acc ++ Msgpack.listHead xs.length) xs
  | .record ms => packMembers (acc ++ Msgpack.mapHead ms.length) ms

/-- Writes items one after the other. -/
def packItems (acc : Array UInt8) : List Datum → Array UInt8
  | [] => acc
  | x :: xs => packItems (packOnto acc x) xs

/-- Writes names and values one after the other. -/
def packMembers (acc : Array UInt8) : List (Bytes × Datum) → Array UInt8
  | [] => acc
  | (k, x) :: ms => packMembers (packOnto (acc ++ Msgpack.text k) x) ms

end

end Datum

/-! ## Formats -/

/-- How documents are written. -/
inductive Format where
  | json
  | indentedJson
  | msgpack
deriving DecidableEq, Repr, Inhabited

namespace Format

/-- The format with a name. -/
def ofName? (s : Bytes) : Option Format :=
  if s.isEmpty || s = ("json" : Bytes) then some .json
  else if s = ("json-indent" : Bytes) || s = ("pretty" : Bytes) then some .indentedJson
  else if s = ("msgpack" : Bytes) then some .msgpack
  else none

/-- What is said of a name that no format has. -/
def unknownMessage (s : Bytes) : Bytes := "unknown format " ++ Text.quoted s

/-- Data written in a format. -/
def write (d : Datum) : Format → Bytes
  | json => d.toJson.compact
  | indentedJson => d.toJson.indented
  | msgpack => (d.packOnto #[]).toList

end Format

end Storyline
