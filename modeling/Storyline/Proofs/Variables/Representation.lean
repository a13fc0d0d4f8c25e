import Storyline.Proofs.Variables.Changes
import Storyline.Proofs.Variables.Table

/-!
# The tables of a store agree

A store is looked into in many ways: globals by name, properties by object and name, objects by the
variable they were made for, names through owners.  In every store that operations lead to from the
empty one the tables behind these agree with each other and with the lists of variables and objects,
nothing leads out of the store, and later operations change the meaning of no number.
-/

namespace Storyline.Variables.Store

/-- What the tables of a store have to do with its variables and objects. -/
structure Consistent (s : Store) : Prop where
  /-- The globals are the variables without an owner, under their names. -/
  globals : ∀ n id, s.globals.find? n = some id ↔
    ∃ v, s.get? id = some v ∧ v.name = n ∧ v.owner = 0
  /-- The properties of an object are the variables that it owns, under their names. -/
  properties : ∀ o, o ≠ 0 → ∀ n id, (s.table o).find? n = some id ↔
    ∃ v, s.get? id = some v ∧ v.name = n ∧ v.owner = o
  /-- Every table lists the names that it has, each of them once. -/
  names : ∀ o, (s.table o).order.Nodup ∧
    ∀ n, n ∈ (s.table o).order ↔ ∃ id, (s.table o).find? n = some id
  /-- A variable has an object exactly if it is the home of that object. -/
  homes : ∀ id o, s.objectIds.lookup id = some o ↔ s.home? o = some id
  /-- References are to objects of the store. -/
  references : ∀ id v a o, s.get? id = some v → a ∈ v.assignments → a.kind = .object o →
    1 ≤ o ∧ o ≤ s.homes.size
  /-- The home of an owner was there before what it owns. -/
  owners : ∀ id v, s.get? id = some v → v.owner ≠ 0 →
    ∃ home, s.home? v.owner = some home ∧ home < id

theorem WellFormed.find?_table_iff {s : Store} (hs : s.WellFormed) (o : ObjectId) (n : Bytes)
    (id : VarId) : (s.table o).find? n = some id ↔
      ∃ v, s.get? id = some v ∧ v.name = n ∧ v.owner = o :=
  hs.find?_eq_some_iff.trans (exists_congr fun _ => and_congr_right fun _ => and_comm)

theorem Sound.consistent {s : Store} (hs : s.Sound) : s.Consistent where
  globals := hs.find?_table_iff 0
  properties := fun o _ => hs.find?_table_iff o
  names := fun o => ⟨hs.nodup_order o, fun _ => mem_order_iff⟩
  homes := fun _ _ => hs.objectAt?_eq_some_iff
  references := by
    intro id v a o hv ha hk
    obtain ⟨home, hh⟩ := hs.refs hv ha o hk
    exact ⟨Nat.pos_of_ne_zero (ne_zero_of_home? hh), le_size_of_home? hh⟩
  owners := fun id v hv h0 => hs.owner_there hv h0

/-! ## Nothing leads out of the store -/

theorem get?_of_follow? {s : Store} : (p : List Bytes) → {id j : VarId} → {v : Variable} →
    s.get? id = some v → s.follow? id p = some j → ∃ w, s.get? j = some w
  | [], id, j, v, hv, h => ⟨v, Option.some.inj h ▸ hv⟩
  | n :: rest, id, j, v, hv, h => by
    obtain ⟨o, -, h⟩ := Option.bind_eq_some_iff.1 h
    obtain ⟨next, hp, h⟩ := Option.bind_eq_some_iff.1 h
    obtain ⟨w, hw, -⟩ := get?_of_find? (property?_eq_some_iff.1 hp).2
    exact get?_of_follow? rest hw h

theorem get?_of_lookup? {s : Store} {p : List Bytes} {id : VarId} (h : s.lookup? p = some id) :
    ∃ v, s.get? id = some v := by
  cases p with
  | nil => simp [lookup?] at h
  | cons n rest =>
    obtain ⟨root, hroot, h⟩ := Option.bind_eq_some_iff.1 h
    obtain ⟨v, hv, -⟩ := get?_of_find? hroot
    exact get?_of_follow? rest hv h

/-- Whether every number that looking into the store gives, or that the store holds itself, is one
of its own. -/
structure Closed (s : Store) : Prop where
  lookup : ∀ p id, s.lookup? p = some id → ∃ v, s.get? id = some v
  owner : ∀ id v, s.get? id = some v → v.owner ≤ s.homes.size
  home : ∀ o id, s.home? o = some id → ∃ v, s.get? id = some v
  object : ∀ id o, (s.kindOf id).object? = some o → ∃ home, s.home? o = some home

theorem Sound.closed {s : Store} (hs : s.Sound) : s.Closed where
  lookup := fun p id h => get?_of_lookup? h
  owner := fun id v hv => hs.owner_le hv
  home := fun o id hh => (hs.home_there hh).imp fun v hv => hv.1
  object := by
    intro id o ho
    refine hs.knows_kindOf id o ?_
    cases hk : s.kindOf id <;> simp_all [Kind.object?]

/-! ## Names -/

theorem length_of_along? {s : Store} (hs : s.WellFormed) : (p : List Bytes) → {id : VarId} →
    {v : Variable} → s.along? p = some id → s.get? id = some v → p.length ≤ v.owner + 1
  | [], _, _, hp, _ => by simp [along?] at hp
  | n :: rest, id, v, hp, hv => by
    obtain ⟨w, hw, ho, -⟩ := get?_of_along? hp
    obtain rfl : v = w := Option.some.inj (hv.symm.trans hw)
    by_cases h0 : v.owner = 0
    · rw [h0] at ho
      simp [objectAlong?_eq_zero ho]
    · obtain ⟨home, hhome, hh⟩ := along?_of_objectAlong? ho h0
      obtain ⟨x, hx, hlt⟩ := hs.home_there hh
      have ih := length_of_along? hs rest hhome hx
      exact Nat.succ_le_succ (Nat.le_trans ih hlt)

/-- Whether the name of a variable is made of its own name and those of its owners, all of them:
there are no more than objects, and more fuel would add nothing. -/
def Named (s : Store) (id : VarId) : Prop :=
  (∃ p, s.along? p = some id ∧ s.fullName id = Bytes.join "." p.reverse ∧
    p.length ≤ s.homes.size + 1) ∧
  ∀ fuel, s.homes.size ≤ fuel → fullName.go s fuel id = s.fullName id

theorem Sound.named {s : Store} (hs : s.Sound) {id : VarId} {v : Variable}
    (hv : s.get? id = some v) : s.Named id := by
  obtain ⟨p, hp⟩ := exists_along? hs.toWellFormed id hv
  have hlen := length_of_along? hs.toWellFormed p hp hv
  have howner := hs.owner_le hv
  refine ⟨⟨p, hp, fullName_eq hs.toWellFormed hp,
    Nat.le_trans hlen (Nat.succ_le_succ howner)⟩, fun fuel hfuel => ?_⟩
  rw [fullName_go hs.toWellFormed p hp hv fuel (Nat.le_trans howner hfuel),
    fullName_eq hs.toWellFormed hp]

/-! ## Later stores -/

theorem kept_extends (s : Store) : Kept (Extends s) where
  change := fun _ h hc => h.trans hc.grows.toExtends
  remove := fun file _ h => h.trans (sameLabels_removeOrigin _ file).extends

theorem extends_after (ops later : List Operation) : Extends (after ops) (after (ops ++ later)) := by
  unfold after
  rw [List.foldl_append]
  exact ((kept_extends (after ops)).runAll later (sound_after ops) (.refl _)).2

/-- The tables of every store that operations lead to agree with each other, nothing leads out of the
store, names are complete, and later operations change the meaning of no number. -/
theorem tables_agree (ops : List Operation) :
    (after ops).Consistent ∧ (after ops).Closed ∧
      (∀ id v, (after ops).get? id = some v → (after ops).Named id) ∧
      ∀ later, Extends (after ops) (after (ops ++ later)) :=
  have hs := sound_after ops
  ⟨hs.consistent, hs.closed, fun _ _ hv => hs.named hv, extends_after ops⟩

end Storyline.Variables.Store
