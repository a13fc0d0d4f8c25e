import Storyline.Text.Bytes
import Storyline.Source.Span
import Storyline.Text.Path

/-!
# The variables of a project

A store lists the variables of a project, globals and properties of objects alike, and for each
object the variable that it was made for, its home.  Variables and objects are named by numbers
from 1 on; they are never dropped, so a number keeps its meaning, while the assignments of a file
come and go.  The numbers are natural numbers and never go round; where they have to fit into 32-bit
words, what is said here is meant of stores with fewer than 2^32 variables and objects.

Nothing is searched for in these lists.  A variable is found by its owner and its name in the table
of the owner, where owner 0 are the globals, and an object by its home in one more table.  Whatever
is added to a list goes into its table at once, so a store carries the proof that its tables are
those of its lists.

What a variable is known to hold is its kind.  A reference names its object, so two references are
the same kind only if they are to the same object.
-/

namespace Storyline.Variables

/-! ## Kinds of variables -/

/-- Names an object; 0 is none.  A word as long as there are fewer than 2^32 objects. -/
abbrev ObjectId := Nat

/-- What a variable holds. -/
inductive Kind where
  | string
  | number
  | bool
  | array
  | object (id : ObjectId)
  | unknown
  | map
deriving DecidableEq, Repr, Inhabited

namespace Kind

/-- One kind for each tag; the place in this list is the tag in compiled documents. -/
def all (id : ObjectId) : List Kind := [string, number, bool, array, object id, unknown, map]

/-- The tag of a kind in compiled documents. -/
def tag : Kind → Nat
  | string => 0
  | number => 1
  | bool => 2
  | array => 3
  | object _ => 4
  | unknown => 5
  | map => 6

/-- The name of a kind. -/
def name : Kind → Bytes
  | string => "string"
  | number => "number"
  | bool => "bool"
  | array => "array"
  | object id => "object#" ++ Bytes.ofNat id
  | unknown => "unknown"
  | map => "map"

/-- The object that a kind refers to. -/
def object? : Kind → Option ObjectId
  | object id => if id = 0 then none else some id
  | _ => none

/-- The kind if both are the same, otherwise unknown. -/
def agree (a b : Kind) : Kind := if a = b then a else unknown

end Kind

/-! ## The store -/

/-- Names a variable; 0 is none.  A word as long as there are fewer than 2^32 variables. -/
abbrev VarId := Nat

/-- One place where a variable receives a kind. -/
structure Assignment where
  /-- The file that the assignment is in. -/
  origin : FileId
  kind : Kind
  span : Span
deriving DecidableEq, Repr, Inhabited

/-- A global or a property. -/
structure Variable where
  name : Bytes
  /-- The object that a property belongs to; 0 for globals. -/
  owner : ObjectId
  assignments : List Assignment := []
deriving DecidableEq, Repr, Inhabited

namespace Variable

/-- The kind that all assignments agree on, if there are any and they do. -/
def commonKind? (v : Variable) : Option Kind :=
  match v.assignments with
  | [] => none
  | a :: rest => if rest.all (·.kind = a.kind) then some a.kind else none

/-- The kind that all assignments agree on; unknown if there is none. -/
def kind (v : Variable) : Kind := v.commonKind?.getD .unknown

/-- Whether the assignments disagree. -/
def isConflicted (v : Variable) : Bool := v.commonKind?.isNone && 1 < v.assignments.length

end Variable

/-! ## Tables -/

/-- The variables of an owner: their numbers by name, and their names in the order they were made. -/
structure Names where
  ids : List (Bytes × VarId) := []
  order : List Bytes := []
deriving DecidableEq, Repr, Inhabited

namespace Names

/-- The variable with a name. -/
def find? (t : Names) (name : Bytes) : Option VarId := t.ids.lookup name

/-- Puts a variable under its name. -/
def add (t : Names) (name : Bytes) (id : VarId) : Names :=
  { ids := (name, id) :: t.ids, order := t.order ++ [name] }

end Names

/-- The variables of all owners. -/
structure Tables where
  globals : Names := {}
  /-- The properties of the objects that have any. -/
  props : List (ObjectId × Names) := []
deriving DecidableEq, Repr, Inhabited

namespace Tables

/-- The variables of an owner. -/
def table (t : Tables) (owner : ObjectId) : Names :=
  if owner = 0 then t.globals else (t.props.lookup owner).getD {}

/-- Puts a variable into the table of its owner. -/
def add (t : Tables) (owner : ObjectId) (name : Bytes) (id : VarId) : Tables :=
  if owner = 0 then { t with globals := t.globals.add name id }
  else { t with
    props := (owner, (t.table owner).add name id) :: t.props.filter fun p => p.1 != owner }

/-- The tables of variables with these owners and names, in the order of their numbers. -/
def ofLabels (labels : List (ObjectId × Bytes)) : Tables :=
  (labels.zipIdx 1).foldl (fun t (l, id) => t.add l.1 l.2 id) {}

theorem ofLabels_concat (labels : List (ObjectId × Bytes)) (l : ObjectId × Bytes) :
    ofLabels (labels ++ [l]) = (ofLabels labels).add l.1 l.2 (labels.length + 1) := by
  simp [ofLabels, List.zipIdx_append, Nat.add_comm]

end Tables

/-- The owner and the name of a variable, which never change. -/
def Variable.label (v : Variable) : ObjectId × Bytes := (v.owner, v.name)

theorem map_label_modify (vars : List Variable) (i : Nat) {f : Variable → Variable}
    (hf : ∀ v, (f v).label = v.label) :
    (vars.modify i f).map Variable.label = vars.map Variable.label := by
  apply List.ext_getElem?
  intro j
  rw [List.getElem?_map, List.getElem?_map, List.getElem?_modify, Option.map_eq_map, Option.map_map]
  refine Option.map_congr fun v _ => ?_
  by_cases hi : i = j <;> simp [hi, hf]

/-- Which object was made for a variable, for objects with these homes. -/
def objectIdsOf (homes : List VarId) : List (VarId × ObjectId) := (homes.zipIdx 1).reverse

theorem objectIdsOf_concat (homes : List VarId) (id : VarId) :
    objectIdsOf (homes ++ [id]) = (id, homes.length + 1) :: objectIdsOf homes := by
  simp [objectIdsOf, List.zipIdx_append, Nat.add_comm]

/-! ## The store -/

/-- The variables and objects of a project. -/
structure Store extends Tables where
  /-- The variable with number `id` stands at `id - 1`. -/
  vars : Array Variable := #[]
  /-- The home of the object with number `id` stands at `id - 1`. -/
  homes : Array VarId := #[]
  /-- The objects by their homes. -/
  objectIds : List (VarId × ObjectId) := []
  /-- The tables have all variables, and nothing else. -/
  tables_eq : toTables = .ofLabels (vars.toList.map Variable.label) := by exact rfl
  /-- The objects by their homes are all objects. -/
  objectIds_eq : objectIds = objectIdsOf homes.toList := by exact rfl
deriving DecidableEq, Repr

namespace Store

/-- The store without variables. -/
def empty : Store := {}

instance : Inhabited Store := ⟨empty⟩

/-! ## Looking up -/

/-- The variable with a number. -/
def get? (s : Store) (id : VarId) : Option Variable :=
  if id = 0 then none else s.vars[id - 1]?

/-- The variable with an owner and a name. -/
def find? (s : Store) (owner : ObjectId) (name : Bytes) : Option VarId :=
  (s.table owner).find? name

/-- The global with a name. -/
def global? (s : Store) (name : Bytes) : Option VarId := s.find? 0 name

/-- The property of an object with a name. -/
def property? (s : Store) (object : ObjectId) (name : Bytes) : Option VarId :=
  if object = 0 then none else s.find? object name

/-- What a variable is known to hold. -/
def kindOf (s : Store) (id : VarId) : Kind := ((s.get? id).map Variable.kind).getD .unknown

/-- The variable at the end of a chain of properties that starts at `id`. -/
def follow? (s : Store) (id : VarId) : List Bytes → Option VarId
  | [] => some id
  | name :: rest => do
    let object ← (s.kindOf id).object?
    s.follow? (← s.property? object name) rest

/-- The variable with a dotted name, given as its parts. -/
def lookup? (s : Store) : List Bytes → Option VarId
  | [] => none
  | name :: rest => do s.follow? (← s.global? name) rest

/-- The variable that an object was made for. -/
def home? (s : Store) (object : ObjectId) : Option VarId :=
  if object = 0 then none else s.homes[object - 1]?

/-- The object that was made for a variable. -/
def objectAt? (s : Store) (id : VarId) : Option ObjectId := s.objectIds.lookup id

/-- The dotted name of a variable: properties are named through the homes of their objects. -/
def fullName (s : Store) (id : VarId) : Bytes :=
  go (s.homes.size + 1) id
where
  /-- The name through at most `fuel` owners. -/
  go : (fuel : Nat) → VarId → Bytes
    | fuel, id =>
      match s.get? id with
      | none => []
      | some v =>
        match fuel, s.home? v.owner with
        | fuel + 1, some home => go fuel home ++ "." ++ v.name
        | _, _ => v.name

/-! ## Changing -/

/-- A store with one more variable. -/
def grown (s : Store) (owner : ObjectId) (name : Bytes) : Store where
  toTables := s.toTables.add owner name (s.vars.size + 1)
  vars := s.vars.push { name, owner }
  homes := s.homes
  objectIds := s.objectIds
  tables_eq := by
    simp [s.tables_eq, Tables.ofLabels_concat, Variable.label]
  objectIds_eq := s.objectIds_eq

/-- The variable with an owner and a name, made if there is none. -/
def declare (s : Store) (owner : ObjectId) (name : Bytes) : VarId × Store :=
  match s.find? owner name with
  | some id => (id, s)
  | none => (s.vars.size + 1, s.grown owner name)

/-- A store with one more object. -/
def housed (s : Store) (id : VarId) : Store :=
  { s with
    homes := s.homes.push id
    objectIds := (id, s.homes.size + 1) :: s.objectIds
    objectIds_eq := by
      simp [s.objectIds_eq, objectIdsOf_concat] }

/-- The object that was made for a variable, made now if there is none.  A variable keeps its
object when files are dropped, so that properties assigned by other files stay reachable. -/
def homeObject (s : Store) (id : VarId) : ObjectId × Store :=
  match s.objectAt? id with
  | some object => (object, s)
  | none => (s.homes.size + 1, s.housed id)

/-- Adds an assignment to a variable. -/
def assign (s : Store) (id : VarId) (a : Assignment) : Store :=
  { s with
    vars := s.vars.modify (id - 1) fun v => { v with assignments := v.assignments ++ [a] }
    tables_eq := by
      rw [s.tables_eq, Array.toList_modify, map_label_modify]
      exact fun v => rfl }

/-- Whether a file already assigns a reference to an object. -/
def refers (s : Store) (id : VarId) (object : ObjectId) (file : FileId) : Bool :=
  ((s.get? id).map fun v =>
    v.assignments.any fun a => a.origin = file && a.kind = .object object).getD false

/-- Drops the assignments of a file. -/
def removeOrigin (s : Store) (file : FileId) : Store :=
  { s with
    vars := s.vars.map fun v =>
      { v with assignments := v.assignments.filter fun a => a.origin != file }
    tables_eq := by
      rw [s.tables_eq, Array.toList_map, List.map_map]
      rfl }

/-! ## Conflicts -/

/-- The numbers of the variables whose assignments disagree, in the order they were made. -/
def conflicts (s : Store) : List (VarId × Variable) :=
  ((List.range s.vars.size).map (· + 1)).filterMap fun id =>
    (s.get? id).bind fun v => if v.isConflicted then some (id, v) else none

end Store

end Storyline.Variables
