import Mathlib
import Storyline.Proofs.Variables.Representation

/-!
# What a snapshot shows

A snapshot and a lookup go through the same objects, but only the snapshot has to end where objects
contain themselves: it opens no object that it is inside of.  So it has an entry at a path of names
if and only if looking the path up finds an assigned variable and goes through no object twice
(`snapshot_shows`).

What is left to be opened is the measure of the recursion (`remaining`): the objects that some
variable refers to, less those around.  Every object that is opened is one of them, so that the
recursion ends in every store, and a fuel of one more than the objects of the store is enough where
references are to objects of the store.
-/

namespace Storyline.Variables

/-! ## Paths of entries -/

namespace Entry

/-- An entry at a path of names: it has the last name, and stands below an entry at the names
before. -/
inductive At : List Entry → List Bytes → Entry → Prop
  | here {es : List Entry} {e : Entry} (he : e ∈ es) : At es [e.name] e
  | inside {es : List Entry} {outer e : Entry} {rest : List Bytes} (houter : outer ∈ es)
    (he : At outer.props rest e) : At es (outer.name :: rest) e

/-- Entries that are strictly sorted by name, and so are the properties of each. -/
inductive Sorted : List Entry → Prop
  | intro {es : List Entry} (here : es.Pairwise fun e e' => e.name < e'.name)
    (below : ∀ e ∈ es, Sorted e.props) : Sorted es

/-- Whether an entry tells what a variable is known to hold: the kind that its assignments agree on,
unknown if they do not, whether they disagree, and how many there are. -/
structure Tells (e : Entry) (v : Variable) : Prop where
  kind : e.kind = v.commonKind?.getD .unknown
  conflict : e.conflict = true ↔ ∃ a ∈ v.assignments, ∃ b ∈ v.assignments, a.kind ≠ b.kind
  assignments : e.assignments = v.assignments.length

theorem not_at_nil {p : List Bytes} {e : Entry} : ¬At [] p e := by
  intro h
  cases h with
  | here he => cases he
  | inside houter => cases houter

end Entry

/-! ## The recursion without fuel -/

/-- The assigned variables of an owner, by a recursion that may not end; `path` are the objects
around it. -/
def Store.entries? (s : Store) (owner : ObjectId) (path : List ObjectId) : Option (List Entry) :=
  (s.listed owner).mapM fun v => do
    let props ← match v.kind.object? with
      | some o => if path.contains o then some [] else s |>.entries? o (o :: path)
      | none => some []
    return ⟨v.name, v.kind, v.commonKind?.isNone, v.assignments.length, props⟩
partial_fixpoint

theorem mapM_eq_some {α β : Type} {f : α → Option β} {g : α → β} {xs : List α}
    (h : ∀ x ∈ xs, f x = some (g x)) : xs.mapM f = some (xs.map g) := by
  induction xs with
  | nil => rfl
  | cons x xs ih =>
    obtain ⟨hx, hxs⟩ := List.forall_mem_cons.1 h
    rw [List.mapM_cons, hx, ih hxs]
    rfl

namespace Store

variable {s : Store} {o : ObjectId} {id : VarId} {v : Variable} {path : List ObjectId}

/-! ## Objects that are left to be opened -/

/-- The objects that variables are known to hold. -/
def referenced (s : Store) : Finset ObjectId :=
  (s.vars.toList.filterMap fun v => v.kind.object?).toFinset

/-- How many objects can be opened inside those of a path. -/
def remaining (s : Store) (path : List ObjectId) : Nat := {o ∈ s.referenced | o ∉ path}.card

theorem mem_referenced : o ∈ s.referenced ↔ ∃ v ∈ s.vars, v.kind.object? = some o := by
  simp [referenced]

/-- Opening an object leaves fewer of them. -/
theorem remaining_lt (hv : v ∈ s.vars) (ho : v.kind.object? = some o) (hpath : o ∉ path) :
    s.remaining (o :: path) < s.remaining path := by
  refine Finset.card_lt_card (Finset.ssubset_iff_of_subset ?_ |>.2 ⟨o, ?_, ?_⟩)
  · intro x hx
    simp only [Finset.mem_filter, List.mem_cons, not_or] at hx ⊢
    exact ⟨hx.1, hx.2.2⟩
  · exact Finset.mem_filter.2 ⟨mem_referenced.2 ⟨v, hv, ho⟩, hpath⟩
  · simp

theorem mem_vars_of_mem_listed (hv : v ∈ s.listed o) : v ∈ s.vars :=
  mem_vars_iff.2 (get?_of_mem_listed hv).1

/-- The recursion ends, with what it gives on any fuel above what is left. -/
theorem entries?_eq : (fuel : Nat) → {o : ObjectId} → {path : List ObjectId} →
    s.remaining path < fuel → s.entries? o path = some (s.entries fuel o path)
  | 0, _, _, h => absurd h (Nat.not_lt_zero _)
  | fuel + 1, o, path, h => by
    rw [entries?, entries_succ]
    refine mapM_eq_some fun v hv => ?_
    cases ho : v.kind.object? with
    | none => simp [entryOf, ho]
    | some x =>
      by_cases hx : x ∈ path
      · simp [entryOf, ho, hx]
      · have hlt := remaining_lt (mem_vars_of_mem_listed hv) ho hx
        have hfuel : s.remaining (x :: path) < fuel := by omega
        have hopened := entries?_eq fuel (o := x) hfuel
        simp [entryOf, ho, hx, hopened]

theorem kindOf_eq (hv : s.get? id = some v) : s.kindOf id = v.kind := by
  rw [kindOf, hv]
  rfl

theorem remaining_le (hs : s.Closed) : s.remaining path ≤ s.homes.size := by
  have hsub : s.referenced ⊆ Finset.Icc 1 s.homes.size := by
    intro o ho
    obtain ⟨v, hv, ho⟩ := mem_referenced.1 ho
    obtain ⟨id, hid⟩ := mem_vars_iff.1 hv
    obtain ⟨home, hhome⟩ := hs.object id o (by rw [kindOf_eq hid, ho])
    exact Finset.mem_Icc.2
      ⟨Nat.pos_of_ne_zero (ne_zero_of_home? hhome), le_size_of_home? hhome⟩
  calc
    s.remaining path ≤ s.referenced.card := Finset.card_filter_le _ _
    _ ≤ (Finset.Icc 1 s.homes.size).card := Finset.card_le_card hsub
    _ = s.homes.size := by simp

/-! ## Looking up from an owner -/

/-- The variable that names lead to from an owner. -/
def seek? (s : Store) (owner : ObjectId) : List Bytes → Option VarId
  | [] => none
  | name :: rest => do s.follow? (← s.find? owner name) rest

theorem lookup?_eq_seek? (s : Store) (p : List Bytes) : s.lookup? p = s.seek? 0 p := by
  cases p <;> rfl

/-- The object that the variable is known to hold to which names lead from an owner. -/
def objectFrom? (s : Store) (owner : ObjectId) (p : List Bytes) : Option ObjectId :=
  (s.seek? owner p).bind fun id => (s.kindOf id).object?

/-- The objects that the proper prefixes of a path lead to from an owner, those of shorter ones
first. -/
def objectsFrom (s : Store) (owner : ObjectId) (p : List Bytes) : List ObjectId :=
  p.inits.dropLast.filterMap (s.objectFrom? owner)

/-- The objects that the proper prefixes of a path refer to, those of shorter ones first. -/
def objectsBefore (s : Store) (p : List Bytes) : List ObjectId :=
  p.inits.dropLast.filterMap fun q => (s.lookup? q).bind fun id => (s.kindOf id).object?

theorem objectsBefore_eq (s : Store) (p : List Bytes) : s.objectsBefore p = s.objectsFrom 0 p := by
  simp only [objectsBefore, objectsFrom, lookup?_eq_seek?]
  rfl

section Names

variable {n m : Bytes} {rest : List Bytes}

theorem seek?_singleton (s : Store) (o : ObjectId) (n : Bytes) : s.seek? o [n] = s.find? o n := by
  cases h : s.find? o n <;> simp [seek?, h, follow?]

theorem object?_ne_zero {k : Kind} (h : k.object? = some o) : o ≠ 0 := by
  cases k with
  | object x =>
    simp only [Kind.object?] at h
    split at h
    · cases h
    · next hx => exact Option.some.inj h ▸ hx
  | string | number | bool | array | unknown | map => cases h

/-- Behind its first name a path is looked up from the object that the first variable holds. -/
theorem seek?_cons_cons (hn : s.find? o n = some id) :
    s.seek? o (n :: m :: rest)
      = (s.kindOf id).object?.bind fun inner => s.seek? inner (m :: rest) := by
  cases hk : (s.kindOf id).object? with
  | none => simp [seek?, hn, follow?, hk]
  | some inner => simp [seek?, hn, follow?, hk, property?, object?_ne_zero hk]

theorem objectsFrom_singleton (s : Store) (o : ObjectId) (n : Bytes) :
    s.objectsFrom o [n] = [] := by
  simp [objectsFrom, objectFrom?, seek?]

theorem objectsFrom_cons_cons {inner : ObjectId} (hn : s.find? o n = some id)
    (hk : (s.kindOf id).object? = some inner) :
    s.objectsFrom o (n :: m :: rest) = inner :: s.objectsFrom inner (m :: rest) := by
  have hfirst : s.objectFrom? o [n] = some inner := by
    rw [objectFrom?, seek?_singleton, hn, Option.bind_some, hk]
  have hnone (owner : ObjectId) : s.objectFrom? owner [] = none := rfl
  have hlater : (fun q => s.objectFrom? o (n :: m :: q))
      = fun q => s.objectFrom? inner (m :: q) := by
    funext q
    rw [objectFrom?, seek?_cons_cons hn, hk, Option.bind_some, objectFrom?]
  have hinits : rest.inits ≠ [] := by cases rest <;> simp
  simp [objectsFrom, List.dropLast_cons_of_ne_nil, hinits, hfirst, hnone,
    ← List.map_dropLast, List.filterMap_map, Function.comp_def, hlater]

end Names

/-! ## Entries and lookups -/

theorem tells_entryOf (hv : v.assignments ≠ []) (fuel : Nat) (path : List ObjectId) :
    (s.entryOf fuel path v).Tells v where
  kind := rfl
  conflict := by
    show v.commonKind?.isNone = true ↔ _
    rw [Option.isNone_iff_eq_none, commonKind?_eq, Option.eq_none_iff_forall_ne_some]
    simp only [ne_eq, agreed?_eq_some_iff, hv, not_false_eq_true, true_and]
    obtain ⟨a, ha⟩ := List.exists_mem_of_ne_nil _ hv
    constructor
    · intro h
      obtain ⟨b, hb, hne⟩ := by simpa using h a.kind
      exact ⟨b, hb, a, ha, hne⟩
    · rintro ⟨b, hb, c, hc, hne⟩ k hall
      exact hne ((hall b hb).trans (hall c hc).symm)
  assignments := rfl

/-- An entry tells about the variable at its path; the objects on the way are different from each
other and from those around. -/
theorem exists_of_at (hs : s.WellFormed) {es : List Entry} {p : List Bytes} {e : Entry}
    (h : Entry.At es p e) : ∀ {fuel o path}, es = s.entries fuel o path →
      ∃ id v, s.seek? o p = some id ∧ s.get? id = some v ∧ v.assignments ≠ [] ∧ e.Tells v
        ∧ (s.objectsFrom o p).Nodup ∧ ∀ x ∈ s.objectsFrom o p, x ∉ path := by
  -- an entry comes from an assigned variable of the owner
  have hentry {e : Entry} {fuel : Nat} {o : ObjectId} {path : List ObjectId}
      (he : e ∈ s.entries fuel o path) : ∃ fuel' id v, fuel = fuel' + 1
        ∧ e = s.entryOf fuel' path v ∧ s.get? id = some v ∧ v.assignments ≠ []
        ∧ s.find? o e.name = some id := by
    cases fuel with
    | zero => cases he
    | succ fuel =>
      rw [entries_succ, List.mem_map] at he
      obtain ⟨v, hv, rfl⟩ := he
      obtain ⟨⟨id, hid⟩, rfl, hne⟩ := get?_of_mem_listed hv
      exact ⟨fuel, id, v, rfl, rfl, hid, hne, hs.find?_eq_some_iff.2 ⟨v, hid, rfl, rfl⟩⟩
  -- By induction on the way down; an entry at its end is the variable that the last name was given
  -- to.
  induction h with
  | here he =>
    rintro fuel o path rfl
    obtain ⟨fuel, id, v, rfl, rfl, hid, hne, hfind⟩ := hentry he
    refine ⟨id, v, by rw [seek?_singleton, hfind], hid, hne, tells_entryOf hne _ _, ?_⟩
    rw [objectsFrom_singleton]
    exact ⟨.nil, List.forall_mem_nil _⟩
  | @inside _ outer e rest houter hbelow ih =>
    rintro fuel o path rfl
    obtain ⟨fuel, id, v, rfl, rfl, hid, -, hfind⟩ := hentry houter
    -- only an object that is not around has entries below it
    obtain ⟨inner, hk, hpath, hprops⟩ : ∃ inner, v.kind.object? = some inner ∧ inner ∉ path
        ∧ (s.entryOf fuel path v).props = s.entries fuel inner (inner :: path) := by
      cases hk : v.kind.object? with
      | none =>
        rw [props_of_no_object s fuel path hk] at hbelow
        exact absurd hbelow Entry.not_at_nil
      | some inner =>
        by_cases hpath : inner ∈ path
        · simp only [entryOf, hk, List.contains_iff_mem, hpath, if_true] at hbelow
          exact absurd hbelow Entry.not_at_nil
        · exact ⟨inner, rfl, hpath, by simp [entryOf, hk, hpath]⟩
    obtain ⟨id', v', hseek, hid', hne', htells, hnodup, hdisjoint⟩ := ih hprops
    obtain ⟨m, rest, rfl⟩ : ∃ m rest', rest = m :: rest' := by
      cases rest with
      | nil => cases hseek
      | cons m rest => exact ⟨m, rest, rfl⟩
    have hheld : (s.kindOf id).object? = some inner := by rw [kindOf_eq hid, hk]
    refine ⟨id', v', ?_, hid', hne', htells, ?_⟩
    · rw [seek?_cons_cons hfind, hheld, Option.bind_some, hseek]
    · rw [objectsFrom_cons_cons hfind hheld, List.nodup_cons, List.forall_mem_cons]
      refine ⟨⟨fun hmem => ?_, hnodup⟩, hpath, fun x hx hin => ?_⟩
      · exact hdisjoint inner hmem List.mem_cons_self
      · exact hdisjoint x hx (List.mem_cons_of_mem _ hin)

/-- There is an entry at every path that leads to an assigned variable, if the objects on the way
are different from each other and from those around. -/
-- By induction on the names, as the look-up takes them; each object on the way leaves one less to
-- enter.
theorem exists_at (hs : s.WellFormed) : (p : List Bytes) → {fuel : Nat} → {o : ObjectId} →
    {path : List ObjectId} → {id : VarId} → {v : Variable} → s.remaining path < fuel →
    s.seek? o p = some id →
    s.get? id = some v → v.assignments ≠ [] → (s.objectsFrom o p).Nodup →
    (∀ x ∈ s.objectsFrom o p, x ∉ path) → ∃ e, Entry.At (s.entries fuel o path) p e
  | [], _, _, _, _, _, _, hseek, _, _, _, _ => by cases hseek
  | _ :: _, 0, _, _, _, _, hfuel, _, _, _, _, _ => absurd hfuel (Nat.not_lt_zero _)
  | [n], fuel + 1, o, path, id, v, _, hseek, hid, hne, _, _ => by
    rw [seek?_singleton] at hseek
    obtain ⟨w, hw, rfl, rfl⟩ := get?_of_find? hseek
    obtain rfl : v = w := Option.some.inj (hid.symm.trans hw)
    have hlisted : v ∈ s.listed v.owner := (mem_listed hs).2 ⟨⟨id, hid⟩, rfl, hne⟩
    have hentry : s.entryOf fuel path v ∈ s.entries (fuel + 1) v.owner path := by
      rw [entries_succ]
      exact List.mem_map_of_mem hlisted
    exact ⟨s.entryOf fuel path v, .here hentry⟩
  | n :: m :: rest, fuel + 1, o, path, id, v, hfuel, hseek, hid, hne, hnodup, hdisjoint => by
    obtain ⟨outer, houter, -⟩ := Option.bind_eq_some_iff.1 hseek
    obtain ⟨w, hw, rfl, rfl⟩ := get?_of_find? houter
    rw [seek?_cons_cons houter, Option.bind_eq_some_iff] at hseek
    obtain ⟨inner, hheld, hseek⟩ := hseek
    rw [objectsFrom_cons_cons houter hheld] at hnodup hdisjoint
    obtain ⟨hfresh, hnodup⟩ := List.nodup_cons.1 hnodup
    obtain ⟨hpath, hdisjoint⟩ := List.forall_mem_cons.1 hdisjoint
    rw [kindOf_eq hw] at hheld
    -- what holds an object is assigned
    have hassigned : w.assignments ≠ [] := by
      intro hnil
      simp [Variable.kind, Variable.commonKind?, hnil, Kind.object?] at hheld
    have hlt := remaining_lt (mem_vars_iff.2 ⟨outer, hw⟩) hheld hpath
    have hless : s.remaining (inner :: path) < fuel := by omega
    obtain ⟨e, he⟩ := exists_at hs (m :: rest) hless hseek hid hne hnodup fun x hx => by
      rw [List.mem_cons, not_or]
      exact ⟨fun heq => hfresh (heq ▸ hx), hdisjoint x hx⟩
    have hprops : (s.entryOf fuel path w).props = s.entries fuel inner (inner :: path) := by
      simp [entryOf, hheld, hpath]
    have houter : s.entryOf fuel path w ∈ s.entries (fuel + 1) w.owner path := by
      rw [entries_succ]
      exact List.mem_map_of_mem ((mem_listed hs).2 ⟨⟨outer, hw⟩, rfl, hassigned⟩)
    exact ⟨e, .inside houter (hprops ▸ he)⟩

/-- Every level is strictly sorted: names are sorted, and no owner has a name twice. -/
theorem sorted_entries (hs : s.WellFormed) (fuel : Nat) (o : ObjectId) (path : List ObjectId) :
    Entry.Sorted (s.entries fuel o path) := by
  induction fuel generalizing o path with
  | zero => exact .intro .nil (List.forall_mem_nil _)
  | succ fuel ih =>
    rw [entries_succ]
    refine .intro ?_ fun e he => ?_
    · rw [List.pairwise_map]
      have hsorted := pairwise_names_listed s o
      have hnodup := nodup_names_listed hs o
      rw [List.pairwise_map] at hsorted
      rw [List.Nodup, List.pairwise_map] at hnodup
      exact (hsorted.and hnodup).imp fun h => (List.le_iff_lt_or_eq.1 h.1).resolve_right h.2
    · obtain ⟨v, -, rfl⟩ := List.mem_map.1 he
      simp only [entryOf]
      split
      · split
        · exact .intro .nil (List.forall_mem_nil _)
        · exact ih _ _
      · exact .intro .nil (List.forall_mem_nil _)

/-- In every store that operations lead to, the snapshot has an entry at a path if and only if
looking the path up finds an assigned variable and the objects that the proper prefixes of the path
refer to are different from each other.  The entry tells about that variable, and every level is
strictly sorted by name.  Without any fuel the recursion ends, from every owner of every store and
inside any objects; that of the snapshot ends with the snapshot. -/
theorem snapshot_shows (ops : List Operation) :
    let s := after ops
    (∀ p ≠ [], (∃ e, Entry.At s.snapshot p e) ↔
      ∃ id v, s.lookup? p = some id ∧ s.get? id = some v ∧ v.assignments ≠ []
        ∧ (s.objectsBefore p).Nodup)
    ∧ (∀ p e, Entry.At s.snapshot p e →
      ∃ id v, s.lookup? p = some id ∧ s.get? id = some v ∧ e.Tells v)
    ∧ Entry.Sorted s.snapshot
    ∧ (∀ t : Store, ∀ owner path, ∃ es, t.entries? owner path = some es)
    ∧ s.entries? 0 [] = some s.snapshot := by
  intro s
  have hs : s.Sound := sound_after ops
  have hfuel : s.remaining [] < s.homes.size + 1 := Nat.lt_succ_of_le (remaining_le hs.closed)
  simp only [lookup?_eq_seek?, objectsBefore_eq]
  refine ⟨fun p _ => ⟨?_, ?_⟩, fun p e he => ?_, sorted_entries hs.toWellFormed _ _ _,
    fun t owner path => ⟨_, entries?_eq _ (Nat.lt_succ_self _)⟩, entries?_eq _ hfuel⟩
  · rintro ⟨e, he⟩
    obtain ⟨id, v, hseek, hid, hne, -, hnodup, -⟩ := exists_of_at hs.toWellFormed he rfl
    exact ⟨id, v, hseek, hid, hne, hnodup⟩
  · rintro ⟨id, v, hseek, hid, hne, hnodup⟩
    exact exists_at hs.toWellFormed p hfuel hseek hid hne hnodup fun _ _ => List.not_mem_nil
  · obtain ⟨id, v, hseek, hid, -, htells, -⟩ := exists_of_at hs.toWellFormed he rfl
    exact ⟨id, v, hseek, hid, htells⟩

open Script (Expr) in
/-- A file folds `a.n = 1` and `a.b = a`, so that the object of `a` contains itself. -/
def selfContained : List Operation :=
  let span : Span := ⟨0, 0, 0⟩
  let a : Expr := .identifier span "a"
  let assign (target value : Expr) : Expr := .binary span (.symbol .assign) target value
  [.fold ⟨1, 0, [assign (.member span a "n" span) (.literal span .number "1" "1"),
    assign (.member span a "b" span) a]⟩]

/-- The snapshot shows `a.b`, and not `a.b.b`, which is looked up through the same object twice. -/
theorem snapshot_selfContained :
    (after selfContained).lookup? ["a", "b", "b"] = some 3 ∧
      (∃ e, Entry.At (after selfContained).snapshot ["a", "b"] e) ∧
      ¬∃ e, Entry.At (after selfContained).snapshot ["a", "b", "b"] e := by
  have hshown := (snapshot_shows selfContained).1
  refine ⟨by decide, ?_, ?_⟩
  · rw [hshown ["a", "b"] (List.cons_ne_nil _ _)]
    exact ⟨3, ⟨"b", 1, [⟨1, .object 1, ⟨1, 0, 0⟩⟩]⟩, by decide⟩
  · rw [hshown ["a", "b", "b"] (List.cons_ne_nil _ _)]
    rintro ⟨-, -, -, -, -, hnodup⟩
    exact absurd hnodup (by decide)

end Store

end Storyline.Variables
