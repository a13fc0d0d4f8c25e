import Mathlib.Data.List.Basic
import Mathlib.Data.List.Induction
import Mathlib.Data.List.Nodup
import Storyline.Variables.Fold

/-!
# Well-formed stores

A store is two lists, and tables in which everything else about it is found.  The tables are those
of the lists, so what is found in them is there, and what is not found is not.  When no two
variables share owner and name, and no two objects share a home, the tables are inverse to the
lists; `WellFormed` says so, and that owners were there before what they own.  Every operation on a
store keeps it, whatever the scripts do.

Variables and objects are only ever added, so `Extends` relates a store to all later ones: a number
that means something means the same from then on.
-/

namespace Storyline.Variables

/-! ## Tables of lists -/

theorem lookup_filter_ne {α : Type} (ps : List (ObjectId × α)) {o o' : ObjectId} (h : o' ≠ o) :
    (ps.filter fun p => p.1 != o).lookup o' = ps.lookup o' := by
  induction ps with
  | nil => rfl
  | cons p ps ih =>
    obtain ⟨k, x⟩ := p
    rw [List.filter_cons]
    by_cases hk : k = o
    · have hne : (o' == k) = false := beq_eq_false_iff_ne.2 (by rwa [hk])
      rw [if_neg (by simp [hk]), List.lookup_cons, hne, ih]
    · rw [if_pos (by simp [hk]), List.lookup_cons, List.lookup_cons, ih]

theorem Names.find?_add (t : Names) (n n' : Bytes) (id : VarId) :
    (t.add n id).find? n' = if n' = n then some id else t.find? n' := by
  rw [Names.find?, Names.add, List.lookup_cons]
  by_cases hn : n' = n
  · simp [hn]
  · rw [beq_eq_false_iff_ne.2 hn, if_neg hn]
    rfl

namespace Tables

theorem table_add (t : Tables) (o o' : ObjectId) (n : Bytes) (id : VarId) :
    (t.add o n id).table o' = if o' = o then (t.table o).add n id else t.table o' := by
  unfold add table
  by_cases h0 : o = 0
  · by_cases h : o' = o
    · simp [h, h0]
    · have h' : o' ≠ 0 := by rwa [h0] at h
      simp [h0, h']
  · by_cases h : o' = o
    · simp [h, h0]
    · by_cases h' : o' = 0
      · simp [h', h0, Ne.symm h0]
      · rw [if_neg h', if_neg h0, if_neg h, if_neg h', List.lookup_cons,
          beq_eq_false_iff_ne.2 h]
        simp only [lookup_filter_ne t.props h]

variable {labels : List (ObjectId × Bytes)} {o : ObjectId} {n : Bytes} {id : VarId}

/-- What is found in a table has the owner of the table, and the name that it was looked for by. -/
theorem label_of_find?_ofLabels (h : ((ofLabels labels).table o).find? n = some id) :
    ∃ i, id = i + 1 ∧ labels[i]? = some (o, n) := by
  induction labels using List.reverseRecOn with
  | nil => simp [ofLabels, table, Names.find?] at h
  | append_singleton labels l ih =>
    -- what was there before stays where it is
    have hkeep (h : ((ofLabels labels).table o).find? n = some id) :
        ∃ i, id = i + 1 ∧ (labels ++ [l])[i]? = some (o, n) := by
      obtain ⟨i, hid, hi⟩ := ih h
      obtain ⟨hlt, -⟩ := List.getElem?_eq_some_iff.1 hi
      exact ⟨i, hid, by rw [List.getElem?_append_left hlt, hi]⟩
    rw [ofLabels_concat, table_add] at h
    split at h
    · next ho =>
      rw [← ho, Names.find?_add] at h
      split at h
      · next hn =>
        exact ⟨labels.length, (Option.some.inj h).symm, by simp [ho, hn]⟩
      · exact hkeep h
    · exact hkeep h

/-- What is not found in a table is not there. -/
theorem find?_ofLabels_eq_none_iff :
    ((ofLabels labels).table o).find? n = none ↔ (o, n) ∉ labels := by
  induction labels using List.reverseRecOn with
  | nil => simp [ofLabels, table, Names.find?]
  | append_singleton labels l ih =>
    obtain ⟨o', n'⟩ := l
    rw [ofLabels_concat, table_add]
    by_cases ho : o = o'
    · by_cases hn : n = n'
      · simp [ho, hn, Names.find?_add]
      · rw [if_pos ho, ← ho, Names.find?_add, if_neg hn, ih]
        simp [hn]
    · rw [if_neg ho, ih]
      simp [ho]

/-- A table lists the names of its owner in the order they were made. -/
theorem order_ofLabels (labels : List (ObjectId × Bytes)) (o : ObjectId) :
    ((ofLabels labels).table o).order = (labels.filter (·.1 = o)).map (·.2) := by
  induction labels using List.reverseRecOn with
  | nil => simp [ofLabels, table]
  | append_singleton labels l ih =>
    rw [ofLabels_concat, table_add, List.filter_append, List.map_append]
    by_cases ho : o = l.1
    · subst ho
      simp [Names.add, ih]
    · rw [if_neg ho, ih]
      simp [Ne.symm ho]

end Tables

theorem lookup_objectIdsOf {homes : List VarId} {id : VarId} {o : ObjectId}
    (h : (objectIdsOf homes).lookup id = some o) : ∃ i, o = i + 1 ∧ homes[i]? = some id := by
  obtain ⟨l₁, l₂, heq, -⟩ := List.lookup_eq_some_iff.1 h
  have hmem : (id, o) ∈ homes.zipIdx 1 := by
    rw [← List.mem_reverse, ← objectIdsOf, heq]
    simp
  obtain ⟨hle, hi⟩ := List.mk_mem_zipIdx_iff_le_and_getElem?_sub.1 hmem
  exact ⟨o - 1, (Nat.sub_add_cancel hle).symm, hi⟩

theorem lookup_objectIdsOf_eq_none_iff {homes : List VarId} {id : VarId} :
    (objectIdsOf homes).lookup id = none ↔ id ∉ homes := by
  rw [List.lookup_eq_none_iff, objectIdsOf]
  constructor
  · intro h hid
    obtain ⟨i, hi⟩ := List.mem_iff_getElem?.1 hid
    have hmem : (id, i + 1) ∈ homes.zipIdx 1 :=
      List.mk_mem_zipIdx_iff_le_and_getElem?_sub.2 ⟨Nat.le_add_left 1 i, hi⟩
    simpa using h _ (List.mem_reverse.2 hmem)
  · rintro h ⟨id', o⟩ hp
    obtain ⟨-, hi⟩ := List.mk_mem_zipIdx_iff_le_and_getElem?_sub.1 (List.mem_reverse.1 hp)
    refine bne_iff_ne.2 ?_
    rintro rfl
    exact h (List.mem_of_getElem? hi)

namespace Store

/-! ## Reading the lists -/

theorem get?_zero (s : Store) : s.get? 0 = none := rfl

theorem get?_succ (s : Store) (i : Nat) : s.get? (i + 1) = s.vars[i]? := by
  simp [get?]

theorem get?_eq_some_iff {s : Store} {id : VarId} {v : Variable} :
    s.get? id = some v ↔ ∃ i, id = i + 1 ∧ s.vars[i]? = some v := by
  cases id with
  | zero => simp [get?_zero]
  | succ i => simp [get?_succ]

theorem ne_zero_of_get? {s : Store} {id : VarId} {v : Variable} (h : s.get? id = some v) :
    id ≠ 0 := by
  rintro rfl
  simp [get?_zero] at h

theorem le_size_of_get? {s : Store} {id : VarId} {v : Variable} (h : s.get? id = some v) :
    id ≤ s.vars.size := by
  obtain ⟨i, rfl, hi⟩ := get?_eq_some_iff.1 h
  obtain ⟨hlt, -⟩ := Array.getElem?_eq_some_iff.1 hi
  exact hlt

theorem home?_zero (s : Store) : s.home? 0 = none := rfl

theorem home?_succ (s : Store) (i : Nat) : s.home? (i + 1) = s.homes[i]? := by
  simp [home?]

theorem home?_eq_some_iff {s : Store} {o : ObjectId} {id : VarId} :
    s.home? o = some id ↔ ∃ i, o = i + 1 ∧ s.homes[i]? = some id := by
  cases o with
  | zero => simp [home?_zero]
  | succ i => simp [home?_succ]

theorem ne_zero_of_home? {s : Store} {o : ObjectId} {id : VarId} (h : s.home? o = some id) :
    o ≠ 0 := by
  rintro rfl
  simp [home?_zero] at h

theorem le_size_of_home? {s : Store} {o : ObjectId} {id : VarId} (h : s.home? o = some id) :
    o ≤ s.homes.size := by
  obtain ⟨i, rfl, hi⟩ := home?_eq_some_iff.1 h
  obtain ⟨hlt, -⟩ := Array.getElem?_eq_some_iff.1 hi
  exact hlt

/-! ## Looking into the tables -/

theorem getElem?_labels (s : Store) (i : Nat) :
    (s.vars.toList.map Variable.label)[i]? = (s.get? (i + 1)).map Variable.label := by
  rw [List.getElem?_map, Array.getElem?_toList, get?_succ]

theorem get?_of_find? {s : Store} {o : ObjectId} {n : Bytes} {id : VarId}
    (h : s.find? o n = some id) : ∃ v, s.get? id = some v ∧ v.owner = o ∧ v.name = n := by
  rw [find?, s.tables_eq] at h
  obtain ⟨i, rfl, hi⟩ := Tables.label_of_find?_ofLabels h
  rw [getElem?_labels] at hi
  obtain ⟨v, hv, hl⟩ := Option.map_eq_some_iff.1 hi
  exact ⟨v, hv, congrArg Prod.fst hl, congrArg Prod.snd hl⟩

theorem find?_eq_none_iff {s : Store} {o : ObjectId} {n : Bytes} :
    s.find? o n = none ↔ ∀ id v, s.get? id = some v → v.owner = o → v.name ≠ n := by
  rw [find?, s.tables_eq, Tables.find?_ofLabels_eq_none_iff]
  constructor
  · intro h id v hv ho hn
    obtain ⟨i, rfl, -⟩ := get?_eq_some_iff.1 hv
    refine h (List.mem_of_getElem? (i := i) ?_)
    rw [getElem?_labels, hv, Option.map_some, Variable.label, ho, hn]
  · intro h hmem
    obtain ⟨i, hi⟩ := List.mem_iff_getElem?.1 hmem
    rw [getElem?_labels] at hi
    obtain ⟨v, hv, hl⟩ := Option.map_eq_some_iff.1 hi
    exact h (i + 1) v hv (congrArg Prod.fst hl) (congrArg Prod.snd hl)

/-- The table of an owner lists the names that are found in it. -/
theorem mem_order_iff {s : Store} {o : ObjectId} {n : Bytes} :
    n ∈ (s.table o).order ↔ ∃ id, s.find? o n = some id := by
  have hlisted : n ∈ (s.table o).order ↔ (o, n) ∈ s.vars.toList.map Variable.label := by
    rw [s.tables_eq, Tables.order_ofLabels]
    simp
  rw [hlisted, ← Option.ne_none_iff_exists', ne_eq, find?, s.tables_eq,
    Tables.find?_ofLabels_eq_none_iff, not_not]

theorem home?_of_objectAt? {s : Store} {id : VarId} {o : ObjectId}
    (h : s.objectAt? id = some o) : s.home? o = some id := by
  rw [objectAt?, s.objectIds_eq] at h
  obtain ⟨i, rfl, hi⟩ := lookup_objectIdsOf h
  rw [home?_succ, ← Array.getElem?_toList, hi]

theorem objectAt?_eq_none_iff {s : Store} {id : VarId} :
    s.objectAt? id = none ↔ ∀ o, s.home? o ≠ some id := by
  rw [objectAt?, s.objectIds_eq, lookup_objectIdsOf_eq_none_iff, List.mem_iff_getElem?]
  constructor
  · intro h o ho
    obtain ⟨i, rfl, hi⟩ := home?_eq_some_iff.1 ho
    exact h ⟨i, by rw [Array.getElem?_toList, hi]⟩
  · rintro h ⟨i, hi⟩
    exact h (i + 1) (by rw [home?_succ, ← Array.getElem?_toList, hi])

/-! ## What well-formed stores are -/

/-- The numbers of a store mean one thing each. -/
structure WellFormed (s : Store) : Prop where
  distinct : ∀ {i j v w}, s.get? i = some v → s.get? j = some w → v.owner = w.owner →
    v.name = w.name → i = j
  homes_distinct : ∀ {o o' id}, s.home? o = some id → s.home? o' = some id → o = o'
  home_there : ∀ {o id}, s.home? o = some id → ∃ v, s.get? id = some v ∧ v.owner < o
  owner_there : ∀ {id v}, s.get? id = some v → v.owner ≠ 0 →
    ∃ home, s.home? v.owner = some home ∧ home < id

theorem WellFormed.find?_eq_some_iff {s : Store} (hs : s.WellFormed) {o : ObjectId} {n : Bytes}
    {id : VarId} :
    s.find? o n = some id ↔ ∃ v, s.get? id = some v ∧ v.owner = o ∧ v.name = n := by
  constructor
  · exact get?_of_find?
  · rintro ⟨v, hv, ho, hn⟩
    cases hf : s.find? o n with
    | none => exact absurd hn (find?_eq_none_iff.1 hf id v hv ho)
    | some j =>
      obtain ⟨w, hw, hwo, hwn⟩ := get?_of_find? hf
      rw [hs.distinct hw hv (hwo.trans ho.symm) (hwn.trans hn.symm)]

/-- No table lists a name twice. -/
theorem WellFormed.nodup_order {s : Store} (hs : s.WellFormed) (o : ObjectId) :
    (s.table o).order.Nodup := by
  have hlabels : (s.vars.toList.map Variable.label).Nodup := by
    rw [List.nodup_iff_getElem?_ne_getElem?]
    intro i j hij hj heq
    have hsome := List.getElem?_eq_getElem hj
    rw [getElem?_labels] at hsome
    rw [getElem?_labels, getElem?_labels, hsome] at heq
    obtain ⟨v, hv, hlv⟩ := Option.map_eq_some_iff.1 heq
    obtain ⟨w, hw, hlw⟩ := Option.map_eq_some_iff.1 hsome
    have hlabel : v.label = w.label := hlv.trans hlw.symm
    have hsame := hs.distinct hv hw (congrArg Prod.fst hlabel) (congrArg Prod.snd hlabel)
    exact Nat.ne_of_lt hij (Nat.succ.inj hsame)
  rw [s.tables_eq, Tables.order_ofLabels]
  refine (hlabels.filter _).map_on fun l hl l' hl' heq => Prod.ext ?_ heq
  rw [of_decide_eq_true (List.mem_filter.1 hl).2, of_decide_eq_true (List.mem_filter.1 hl').2]

theorem WellFormed.objectAt?_eq_some_iff {s : Store} (hs : s.WellFormed) {id : VarId}
    {o : ObjectId} : s.objectAt? id = some o ↔ s.home? o = some id := by
  constructor
  · exact home?_of_objectAt?
  · intro ho
    cases hf : s.objectAt? id with
    | none => exact absurd ho (objectAt?_eq_none_iff.1 hf o)
    | some o' => rw [hs.homes_distinct (home?_of_objectAt? hf) ho]

theorem WellFormed.owner_le {s : Store} (hs : s.WellFormed) {id : VarId} {v : Variable}
    (hv : s.get? id = some v) : v.owner ≤ s.homes.size := by
  by_cases h0 : v.owner = 0
  · rw [h0]
    exact Nat.zero_le _
  · obtain ⟨home, hh, -⟩ := hs.owner_there hv h0
    exact le_size_of_home? hh

@[simp] theorem get?_empty (id : VarId) : get? .empty id = none := by
  cases id <;> simp [get?, empty]

@[simp] theorem home?_empty (o : ObjectId) : home? .empty o = none := by
  cases o <;> simp [home?, empty]

theorem wellFormed_empty : WellFormed .empty := by
  constructor <;> simp

/-! ## What each operation does to the lists -/

theorem get?_assign {s : Store} {id : VarId} (h0 : id ≠ 0) (a : Assignment) (j : VarId) :
    (s.assign id a).get? j
      = (s.get? j).map fun v =>
          if id = j then { v with assignments := v.assignments ++ [a] } else v := by
  cases j with
  | zero => simp [get?_zero]
  | succ j =>
    rw [get?_succ, get?_succ, assign, Array.getElem?_modify]
    by_cases hj : id = j + 1
    · simp [hj]
    · have hne : ¬id - 1 = j := by
        rintro rfl
        exact hj (Nat.succ_pred_eq_of_ne_zero h0).symm
      simp [hj, hne]

@[simp] theorem home?_assign (s : Store) (id : VarId) (a : Assignment) (o : ObjectId) :
    (s.assign id a).home? o = s.home? o := rfl

@[simp] theorem homes_assign (s : Store) (id : VarId) (a : Assignment) :
    (s.assign id a).homes = s.homes := rfl

theorem get?_removeOrigin (s : Store) (file : FileId) (j : VarId) :
    (s.removeOrigin file).get? j
      = (s.get? j).map fun v =>
          { v with assignments := v.assignments.filter fun a => a.origin != file } := by
  cases j with
  | zero => simp [get?_zero]
  | succ j => simp [get?_succ, removeOrigin]

@[simp] theorem home?_removeOrigin (s : Store) (file : FileId) (o : ObjectId) :
    (s.removeOrigin file).home? o = s.home? o := rfl

theorem get?_grown (s : Store) (o : ObjectId) (n : Bytes) (j : VarId) :
    (s.grown o n).get? j
      = if j = s.vars.size + 1 then some { name := n, owner := o } else s.get? j := by
  cases j with
  | zero => simp [get?_zero]
  | succ j =>
    rw [get?_succ, get?_succ, grown, Array.getElem?_push]
    by_cases hj : j = s.vars.size
    · simp [hj]
    · simp [hj]

@[simp] theorem home?_grown (s : Store) (o o' : ObjectId) (n : Bytes) :
    (s.grown o n).home? o' = s.home? o' := rfl

theorem declare_eq (s : Store) (o : ObjectId) (n : Bytes) :
    s.declare o n = match s.find? o n with
      | some id => (id, s)
      | none => (s.vars.size + 1, s.grown o n) := rfl

theorem home?_housed (s : Store) (id : VarId) (o : ObjectId) :
    (s.housed id).home? o = if o = s.homes.size + 1 then some id else s.home? o := by
  cases o with
  | zero => simp [home?_zero]
  | succ i =>
    rw [home?_succ, home?_succ, housed, Array.getElem?_push]
    by_cases hi : i = s.homes.size
    · simp [hi]
    · simp [hi]

@[simp] theorem get?_housed (s : Store) (id j : VarId) : (s.housed id).get? j = s.get? j := rfl

theorem homeObject_eq (s : Store) (id : VarId) :
    s.homeObject id = match s.objectAt? id with
      | some o => (o, s)
      | none => (s.homes.size + 1, s.housed id) := rfl

/-! ## The operations keep stores well-formed -/

/-- Two stores that differ in assignments only. -/
def SameLabels (s t : Store) : Prop :=
  s.homes = t.homes ∧ ∀ id, (s.get? id).map Variable.label = (t.get? id).map Variable.label

theorem SameLabels.symm {s t : Store} (h : SameLabels s t) : SameLabels t s :=
  ⟨h.1.symm, fun id => (h.2 id).symm⟩

theorem SameLabels.home? {s t : Store} (h : SameLabels s t) (o : ObjectId) :
    t.home? o = s.home? o := by
  simp [Store.home?, h.1]

theorem SameLabels.get? {s t : Store} (h : SameLabels s t) {id : VarId} {v : Variable}
    (hv : s.get? id = some v) :
    ∃ w, t.get? id = some w ∧ w.owner = v.owner ∧ w.name = v.name := by
  have hid := h.2 id
  rw [hv] at hid
  obtain ⟨w, hw, hl⟩ := Option.map_eq_some_iff.1 hid.symm
  exact ⟨w, hw, congrArg Prod.fst hl, congrArg Prod.snd hl⟩

theorem SameLabels.wellFormed {s t : Store} (h : SameLabels s t) (hs : s.WellFormed) :
    t.WellFormed where
  distinct := by
    intro i j v w hv hw ho hn
    obtain ⟨v', hv', hvo, hvn⟩ := h.symm.get? hv
    obtain ⟨w', hw', hwo, hwn⟩ := h.symm.get? hw
    exact hs.distinct hv' hw' (by rw [hvo, hwo, ho]) (by rw [hvn, hwn, hn])
  homes_distinct := by
    intro o o' id ho ho'
    rw [h.home?] at ho ho'
    exact hs.homes_distinct ho ho'
  home_there := by
    intro o id ho
    rw [h.home?] at ho
    obtain ⟨v, hv, hlt⟩ := hs.home_there ho
    obtain ⟨w, hw, hwo, -⟩ := h.get? hv
    exact ⟨w, hw, by rwa [hwo]⟩
  owner_there := by
    intro id v hv h0
    obtain ⟨w, hw, hwo, -⟩ := h.symm.get? hv
    obtain ⟨home, hh, hlt⟩ := hs.owner_there hw (by rwa [hwo])
    exact ⟨home, by rwa [h.home?, ← hwo], hlt⟩

theorem sameLabels_assign {s : Store} {id : VarId} (h0 : id ≠ 0) (a : Assignment) :
    SameLabels s (s.assign id a) := by
  refine ⟨rfl, fun j => ?_⟩
  rw [get?_assign h0, Option.map_map]
  congr 1
  funext v
  by_cases hj : id = j <;> simp [Variable.label, hj]

theorem sameLabels_removeOrigin (s : Store) (file : FileId) :
    SameLabels s (s.removeOrigin file) := by
  refine ⟨rfl, fun j => ?_⟩
  rw [get?_removeOrigin, Option.map_map]
  rfl

theorem WellFormed.grown {s : Store} (hs : s.WellFormed) {o : ObjectId} {n : Bytes}
    (ho : o = 0 ∨ ∃ home, s.home? o = some home) (hn : s.find? o n = none) :
    (s.grown o n).WellFormed where
  distinct := by
    intro i j v w hv hw hvw hname
    rw [get?_grown] at hv hw
    split at hv <;> split at hw
    · rename_i hi hj
      rw [hi, hj]
    · obtain rfl := Option.some.inj hv
      exact absurd hname.symm (find?_eq_none_iff.1 hn j w hw hvw.symm)
    · obtain rfl := Option.some.inj hw
      exact absurd hname (find?_eq_none_iff.1 hn i v hv hvw)
    · exact hs.distinct hv hw hvw hname
  homes_distinct := hs.homes_distinct
  home_there := by
    intro o' id ho'
    obtain ⟨v, hv, hlt⟩ := hs.home_there ho'
    have hne : id ≠ s.vars.size + 1 := Nat.ne_of_lt (Nat.lt_succ_of_le (le_size_of_get? hv))
    exact ⟨v, by rw [get?_grown, if_neg hne, hv], hlt⟩
  owner_there := by
    intro id v hv h0
    rw [get?_grown] at hv
    split at hv
    · rename_i hid
      obtain rfl := Option.some.inj hv
      obtain rfl | ⟨home, hh⟩ := ho
      · exact absurd rfl h0
      · obtain ⟨w, hw, -⟩ := hs.home_there hh
        exact ⟨home, hh, hid ▸ Nat.lt_succ_of_le (le_size_of_get? hw)⟩
    · exact hs.owner_there hv h0

theorem WellFormed.housed {s : Store} (hs : s.WellFormed) {id : VarId} {v : Variable}
    (hv : s.get? id = some v) (hid : s.objectAt? id = none) : (s.housed id).WellFormed where
  distinct := hs.distinct
  homes_distinct := by
    intro o o' j ho ho'
    rw [home?_housed] at ho ho'
    split at ho <;> split at ho'
    · rename_i h h'
      rw [h, h']
    · obtain rfl := Option.some.inj ho
      exact absurd ho' (objectAt?_eq_none_iff.1 hid o')
    · obtain rfl := Option.some.inj ho'
      exact absurd ho (objectAt?_eq_none_iff.1 hid o)
    · exact hs.homes_distinct ho ho'
  home_there := by
    intro o j ho
    rw [home?_housed] at ho
    split at ho
    · rename_i h
      obtain rfl := Option.some.inj ho
      exact ⟨v, hv, h ▸ Nat.lt_succ_of_le (hs.owner_le hv)⟩
    · exact hs.home_there ho
  owner_there := by
    intro j w hw h0
    obtain ⟨home, hh, hlt⟩ := hs.owner_there hw h0
    have hne : w.owner ≠ s.homes.size + 1 :=
      Nat.ne_of_lt (Nat.lt_succ_of_le (le_size_of_home? hh))
    exact ⟨home, by rw [home?_housed, if_neg hne, hh], hlt⟩

/-! ## Later stores -/

/-- A store with everything that an earlier one has, and the same meaning of its numbers. -/
structure Extends (s t : Store) : Prop where
  vars : ∀ {id v}, s.get? id = some v → ∃ w, t.get? id = some w ∧ w.owner = v.owner ∧
    w.name = v.name
  homes : ∀ {o id}, s.home? o = some id → t.home? o = some id

theorem Extends.refl (s : Store) : Extends s s := ⟨fun h => ⟨_, h, rfl, rfl⟩, fun h => h⟩

theorem Extends.trans {s t u : Store} (h : Extends s t) (h' : Extends t u) : Extends s u where
  vars := by
    intro id v hv
    obtain ⟨w, hw, hwo, hwn⟩ := h.vars hv
    obtain ⟨x, hx, hxo, hxn⟩ := h'.vars hw
    exact ⟨x, hx, hxo.trans hwo, hxn.trans hwn⟩
  homes := fun ho => h'.homes (h.homes ho)

theorem SameLabels.extends {s t : Store} (h : SameLabels s t) : Extends s t :=
  ⟨h.get?, fun ho => by rwa [h.home?]⟩

theorem extends_grown (s : Store) (o : ObjectId) (n : Bytes) : Extends s (s.grown o n) where
  vars := by
    intro id v hv
    have hne : id ≠ s.vars.size + 1 := Nat.ne_of_lt (Nat.lt_succ_of_le (le_size_of_get? hv))
    exact ⟨v, by rw [get?_grown, if_neg hne, hv], rfl, rfl⟩
  homes := fun ho => ho

theorem extends_housed (s : Store) (id : VarId) : Extends s (s.housed id) where
  vars := fun hv => ⟨_, hv, rfl, rfl⟩
  homes := by
    intro o j ho
    have hne : o ≠ s.homes.size + 1 := Nat.ne_of_lt (Nat.lt_succ_of_le (le_size_of_home? ho))
    rw [home?_housed, if_neg hne, ho]

end Store

end Storyline.Variables
