import Storyline.Text.Glyph

/-!
# Values of TOML

A TOML document is a table: names with values, in the order they were written.  A table may be
written in pieces, and an array of tables grows by one table at a time, so that a path of names
leads through the last table of such an array.
-/

namespace Storyline.Toml

/-- The names that lead to a value. -/
abbrev Key := List Bytes

/-- A value. -/
inductive Value where
  | text (s : Bytes)
  | integer (n : Int)
  /-- A floating-point number, as it is spelled. -/
  | float (spelling : Bytes)
  | boolean (b : Bool)
  /-- A date, a time or both, as they are spelled. -/
  | moment (spelling : Bytes)
  | array (items : List Value)
  | table (fields : List (Bytes × Value))
  /-- An array of tables that is written table by table. -/
  | tables (elements : List (List (Bytes × Value)))
deriving Repr, Inhabited

/-- Names with their values. -/
abbrev Table := List (Bytes × Value)

namespace Table

/-- The value of a name. -/
def get? (t : Table) (name : Bytes) : Option Value := t.lookup name

/-- Gives a name a value, in its old place if it has one. -/
def put (t : Table) (name : Bytes) (v : Value) : Table :=
  if (t.get? name).isSome then t.map fun f => if f.1 = name then (name, v) else f
  else t ++ [(name, v)]

/-- The table that a value stands for on the way along a path. -/
def ofValue? : Value → Option Table
  | .table t => some t
  | .tables ts => ts.getLast?
  | _ => none

/-- The table that a path leads to. -/
def at? (t : Table) : Key → Option Table
  | [] => some t
  | name :: rest => ((t.get? name).bind ofValue?).bind fun inner => at? inner rest

/-- Changes the table that a path leads to; nothing happens if it leads to none. -/
def modifyAt (f : Table → Table) : Key → Table → Table
  | [], t => f t
  | name :: rest, t =>
    match t.get? name with
    | some (.table inner) => t.put name (.table (modifyAt f rest inner))
    | some (.tables ts) =>
      t.put name (.tables (ts.dropLast ++ (ts.getLast?.map (modifyAt f rest)).toList))
    | _ => t

end Table

/-! ## Spelling of names and texts -/

/-- A byte that a name may have without quotes. -/
def isBare (b : UInt8) : Bool := Bytes.isLetter b || Bytes.isDigit b || b = '_' || b = '-'

/-- How a byte is written between double quotes. -/
def escapedByte (b : UInt8) : Bytes :=
  if b = '"' then "\\\""
  else if b = '\\' then "\\\\"
  else if b = 8 then "\\b"
  else if b = '\t' then "\\t"
  else if b = '\n' then "\\n"
  else if b = 12 then "\\f"
  else if b = '\r' then "\\r"
  else if b < 32 || b = 127 then "\\u" ++ Bytes.hexPadded 4 b.toNat
  else [b]

/-- A text between double quotes. -/
def quotedText (s : Bytes) : Bytes := "\"" ++ s.flatMap escapedByte ++ "\""

/-- A name, between quotes if it needs them. -/
def spelledName (name : Bytes) : Bytes :=
  if !name.isEmpty && name.all isBare then name else quotedText name

/-- A key with dots between its names. -/
def Key.spelled (k : Key) : Bytes := Bytes.join "." (k.map spelledName)

end Storyline.Toml
