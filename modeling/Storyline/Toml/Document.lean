import Storyline.Toml.Error

/-!
# Documents in the making

While a document is read, tables are opened, closed and opened again.  Beside the table that has
been read so far, three things have to be known: which table is open, which tables came into being
only because a longer key passes through them, and which keys had an array.  A table of the second
kind may still be defined in its own right, once; a key that had an array may be given anything.
-/

namespace Storyline.Toml

/-- What is known about the value of a key. -/
structure KeyInfo where
  isArray : Bool
  line : Nat
deriving DecidableEq, Repr, Inhabited

/-- A document that is being read. -/
structure Draft where
  /-- What is left to read. -/
  rest : List Glyph
  line : Nat := 1
  root : Table := []
  /-- The key of the table that is open. -/
  context : Key := []
  /-- The name that is being given a value. -/
  name : Bytes := []
  /-- The line of the last key. -/
  keyLine : Nat := 0
  /-- All keys, in the order they were written. -/
  keys : Array Key := #[]
  /-- What is known about keys, by their spelling. -/
  info : List (Bytes × KeyInfo) := []
  /-- The spellings of keys whose tables are only passed through. -/
  implicits : List Bytes := []
deriving Repr, Inhabited

/-- The spelling of the key that was read last. -/
def Draft.lastKey (d : Draft) : Bytes :=
  if d.name.isEmpty then d.context.spelled
  else if d.context.isEmpty then d.name
  else d.context.spelled ++ "." ++ d.name

/-- Reading a document. -/
abbrev Reader := StateT Draft (Except Error)

namespace Reader

/-- Stops with a mistake on a line. -/
def failOn {α : Type} (line : Nat) (m : Mistake) : Reader α := do
  throw ⟨line, (← get).lastKey, m⟩

/-- Stops with a mistake about the last key. -/
def failKey {α : Type} (m : Mistake) : Reader α := do failOn (← get).keyLine m

/-- Lets the table of a key be defined later. -/
def markImplicit (k : Key) : Reader Unit :=
  modify fun d => { d with implicits := k.spelled :: d.implicits }

/-- Notes that the table of a key has been defined. -/
def unmarkImplicit (k : Key) : Reader Unit :=
  modify fun d => { d with implicits := d.implicits.filter (· != k.spelled) }

/-- Notes what is known about the value of a name in the open table; without a name, about the
table itself. -/
def describe (name : Bytes) (isArray : Bool) (line : Nat) : Reader Unit :=
  modify fun d =>
    let key := d.context ++ (if name.isEmpty then [] else [name])
    let spelled := Key.spelled (if key.isEmpty then [[]] else key)
    { d with info := (spelled, ⟨isArray, line⟩) :: d.info.filter (·.1 != spelled) }

/-- Puts a value into the table that a path leads to. -/
def put (path : Key) (name : Bytes) (v : Value) : Reader Unit :=
  modify fun d => { d with root := Table.modifyAt (·.put name v) path d.root }

/-- The first part of a path that leads to something other than a table. -/
def blocked? (root : Table) : (walked : Key) → Key → Option Key
  | _, [] => none
  | walked, name :: rest =>
    match root.at? (walked ++ [name]) with
    | some _ => blocked? root (walked ++ [name]) rest
    | none => some (walked ++ [name])

/-- Gives a name of the open table a value. -/
def assign (name : Bytes) (v : Value) : Reader Unit := do
  let d ← get
  match blocked? d.root [] d.context with
  | some key => failKey (.alreadyDefined key)
  | none =>
    let key := d.context ++ [name]
    let present := ((d.root.at? d.context).bind (·.get? name)).isSome
    if !present then put d.context name v
    else if ((d.info.lookup key.spelled).map (·.isArray)).getD false then do
      unmarkImplicit key
      put d.context name v
    else if d.implicits.contains key.spelled then unmarkImplicit key
    else failKey (.alreadyDefined key)

/-- Makes the tables on the way to a key, as far as they are missing. -/
def passThrough : (walked : Key) → Key → Reader Unit
  | _, [] => pure ()
  | walked, name :: rest => do
    let d ← get
    let key := walked ++ [name]
    match (d.root.at? walked).bind (·.get? name) with
    | none => do
      markImplicit key
      put walked name (.table [])
    | some v => if (Table.ofValue? v).isNone then failKey (.alreadyValue key)
    passThrough key rest

/-- Opens the table of a key; for an array of tables, a new one at its end. -/
def enter (key : Key) (inArray : Bool) : Reader Unit := do
  let around := key.dropLast
  let name := key.getLastD []
  passThrough [] around
  modify fun d => { d with context := around }
  if inArray then
    match ((← get).root.at? around).bind (·.get? name) with
    | none => put around name (.tables [[]])
    | some (.tables ts) => put around name (.tables (ts ++ [[]]))
    | some _ => failKey (.notTables key)
  else assign name (.table [])
  modify fun d => { d with context := key }

/-- Gives the last name of a key a value in the open table, after opening the tables of the names
before it. -/
def startKey (key : Key) : Reader Unit := do
  modify fun d => { d with name := key.getLastD [] }
  for step in key.dropLast do
    let inner := (← get).context ++ [step]
    markImplicit inner
    enter inner false
  modify fun d => { d with keys := d.keys.push (d.context ++ [d.name]) }

/-- Gives the current name its value. -/
def finishKey (v : Value) (isArray : Bool) (line : Nat) : Reader Unit := do
  let name := (← get).name
  assign name v
  describe name isArray line

end Reader

end Storyline.Toml
