import Storyline.Diagnostic.Basic
import Storyline.Outline.Basic

/-!
# Resolving diverts

A path is followed name by name, from the top-level headers in its scope to the headers below.
If that fails, the policy may allow to start again right below the header around the divert; if
that fails too, the first failure is what is reported.

With the failure one of the names that the path could have gone on with may be suggested.  How names
are compared is left open (`Fuzzy`): any way will do that only finds names it was given.
-/

namespace Storyline.Outline

open Markup (Heading Document Divert)

/-! ## Suggestions -/

/-- A name that may have been meant, and how far it is from the one that was written. -/
structure Rank where
  target : Bytes
  distance : Int
deriving DecidableEq, Repr, Inhabited

/-- A way to compare names. -/
class Fuzzy where
  /-- The targets in which a name occurs, with their distances from it. -/
  ranked : (name : Bytes) → (targets : List Bytes) → List Rank
  /-- Whether a name occurs in a target. -/
  occursIn : (name target : Bytes) → Bool
  /-- Ranks by distance; those at the same distance may come in any order. -/
  sort : List Rank → List Rank

/-- What is relied on of a way to compare names. -/
structure Fuzzy.Sound [Fuzzy] : Prop where
  /-- Only targets that were given are found. -/
  target_mem : ∀ name targets, ∀ r ∈ Fuzzy.ranked name targets, r.target ∈ targets
  /-- Putting ranks in order neither adds nor drops any. -/
  sort_perm : ∀ ranks, (Fuzzy.sort ranks).Perm ranks

/-- The candidate closest to a name.  If the name occurs in none of them, a candidate that occurs in
the name will do, and the less of the name is left over the closer it is.  No name is no
suggestion. -/
def suggest? [Fuzzy] (name : Bytes) (candidates : List Bytes) : Option Bytes :=
  if name.isEmpty || candidates.isEmpty then none
  else
    let found := Fuzzy.ranked name candidates
    let ranks := if found.isEmpty then
        (candidates.filter fun c => !c.isEmpty && Fuzzy.occursIn c name).map fun c =>
          ⟨c, (name.length : Int) - c.length⟩
      else found
    ((Fuzzy.sort ranks).head?.map (·.target)).filter fun c => !c.isEmpty

/-! ## Failures -/

/-- Why a path leads nowhere. -/
structure Failure where
  /-- Which part of the path is the first one that is not there. -/
  index : Nat
  /-- The whole path in canonical form. -/
  segments : List Bytes
  /-- The names that were there instead. -/
  candidates : List Bytes
deriving DecidableEq, Repr, Inhabited

namespace Failure

/-- The part of a path that is not there. -/
def segment (f : Failure) : Bytes := f.segments.getD f.index []

/-- The part of a path before the one that is not there; empty if that is the first. -/
def parent (f : Failure) : Bytes := if f.index = 0 then [] else f.segments.getD (f.index - 1) []

/-- What is said of a failure; `written` is the path as the author wrote it. -/
def message (f : Failure) (written : List Bytes) : Bytes :=
  let segment := written.getD f.index f.segment
  if f.index = 0 then Text.quoted segment ++ " is not a path."
  else
    Text.quoted segment ++ " is not a sub-path of "
      ++ Text.quoted (written.getD (f.index - 1) f.parent) ++ "."

/-- The name that may have been meant. -/
def suggestion? [Fuzzy] (f : Failure) : Option Bytes := suggest? f.segment f.candidates

end Failure

/-! ## Walking -/

/-- Follows the names of a path from the header `id` on, or tells how many were found and which
names were there instead. -/
def descend (o : Outline) (id : NodeId) (found : Nat) :
    List Bytes → Except (Nat × List Bytes) NodeId
  | [] => .ok id
  | name :: rest =>
    match o.child? id name with
    | some next => descend o next (found + 1) rest
    | none => .error (found, o.childNames id)

/-- Follows the names of a path that starts with one of the headers `level`. -/
def walk (o : Outline) (level : List NodeId) : List Bytes → Except (Nat × List Bytes) NodeId
  | [] => .ok 0
  | name :: rest =>
    match o.lastNamed? level name with
    | some next => descend o next 1 rest
    | none => .error (0, Bytes.sortOn id (firstNames (o.namesOf level)))

/-- Where a divert is written: its file, and the header around it as a node. -/
structure Site where
  file : FileId
  owner : Option NodeId := none
deriving DecidableEq, Repr, Inhabited

/-- The header that a path leads to. -/
def resolve (o : Outline) (segments : List Bytes) (site : Site) (temporary : Bool)
    (policy : Policy) : Except Failure NodeId :=
  let names := segments.map canonical
  match o.walk (o.rootsIn (policy.scopeFor temporary) site.file) names with
  | .ok id => .ok id
  | .error (index, candidates) =>
    let failure : Failure := ⟨index, names, candidates⟩
    match site.owner with
    | some owner =>
      if policy.localFallback then
        match o.walk (o.below owner) names with
        | .ok id => .ok id
        | .error _ => .error failure
      else .error failure
    | none => .error failure

/-! ## Checking -/

/-- The report on a divert that leads nowhere. -/
def report [Fuzzy] (d : Divert) (f : Failure) : Diagnostic :=
  let span := (d.path[f.index]?.map (·.span)).getD d.span
  let code := if f.index = 0 then Code.unknownPath else .unknownSubPath
  let plain := Diagnostic.error code span (f.message (d.path.map (·.name)))
  match f.suggestion? with
  | none => plain
  | some guess =>
    let way := Bytes.join "." (f.segments.take f.index)
    let full := if way.isEmpty then guess else way ++ "." ++ guess
    { plain with
      notes := [⟨span, "did you mean '" ++ full ++ "'?"⟩]
      fixes := [Fix.replace ("replace with '" ++ guess ++ "'") span guess] }

/-- The reports on the diverts of a document that lead nowhere; `ordinal` says which document of
the outline it is. -/
def check [Fuzzy] (o : Outline) (ordinal : Nat) (doc : Document) (policy : Policy) :
    List Diagnostic :=
  doc.diverts.filterMap fun (d, owner) =>
    let site : Site := ⟨doc.file, owner.bind (o.nodeOf? ordinal)⟩
    match o.resolve (d.path.map (·.name)) site d.temporary policy with
    | .ok _ => none
    | .error f => some (report d f)

end Storyline.Outline
