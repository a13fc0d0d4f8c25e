import Storyline.Variables.Store

/-!
# Snapshots

A snapshot lists the assigned variables by name, the properties of an object below the variable
that refers to it.  An object that is reached through itself is not listed again.
-/

namespace Storyline.Variables

/-- A variable in a snapshot. -/
structure Entry where
  name : Bytes
  kind : Kind
  /-- Whether its assignments disagree. -/
  conflict : Bool
  /-- How many assignments it has. -/
  assignments : Nat
  props : List Entry
deriving Repr, Inhabited

namespace Store

/-- The variables of an owner, by name. -/
def owned (s : Store) (owner : ObjectId) : List Variable :=
  (Bytes.sortOn id (s.table owner).order).filterMap fun name => (s.find? owner name).bind s.get?

/-- The assigned variables of an owner; `path` are the objects around it. -/
def entries (s : Store) : (fuel : Nat) → (owner : ObjectId) → (path : List ObjectId) → List Entry
  | 0, _, _ => []
  | fuel + 1, owner, path =>
    (s.owned owner).filterMap fun v =>
      if v.assignments.isEmpty then none
      else
        let props := match v.kind.object? with
          | some o => if path.contains o then [] else s.entries fuel o (o :: path)
          | none => []
        some ⟨v.name, v.kind, v.commonKind?.isNone, v.assignments.length, props⟩

/-- All assigned variables.  A path of distinct objects is no longer than there are objects. -/
def snapshot (s : Store) : List Entry := s.entries (s.homes.size + 1) 0 []

end Store

namespace Entry

mutual

/-- An entry under its full name and then its properties, none of them nested; `before` is the
name of what it belongs to, with the dot. -/
def flat (before : Bytes) : Entry → List Entry
  | ⟨name, kind, conflict, assignments, props⟩ =>
    ⟨before ++ name, kind, conflict, assignments, []⟩ :: flatAll (before ++ name ++ ".") props

/-- Entries under their full names, none of them nested. -/
def flatAll (before : Bytes) : List Entry → List Entry
  | [] => []
  | e :: rest => e.flat before ++ flatAll before rest

end

/-- Entries under their full names, none of them nested. -/
def flatten (es : List Entry) : List Entry := flatAll [] es

end Entry

end Storyline.Variables
