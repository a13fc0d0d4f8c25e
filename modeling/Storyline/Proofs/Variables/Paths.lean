import Storyline.Proofs.Variables.Arena

/-!
# Stores by path

In a well-formed store every variable has one path, the names that lead to it through the homes of
objects, and a path leads to at most one variable.  The numbers of a store depend on the order in
which its variables were made, its paths do not: `notes` is what a store says about a path, with
the numbers of objects left out.

A store is tidy when a variable refers to no object but its own.  Making variables and objects does
not change the notes of a tidy store, and an assignment adds one note at one path.
-/

namespace Storyline.Variables

/-- A kind without the number of its object. -/
def Kind.shape : Kind → Kind
  | .object _ => .object 0
  | k => k

/-- An assignment without the number of its object. -/
def Assignment.shape (a : Assignment) : Assignment := { a with kind := a.kind.shape }

@[simp] theorem Assignment.shape_origin (a : Assignment) : a.shape.origin = a.origin := rfl

@[simp] theorem Assignment.shape_kind (a : Assignment) : a.shape.kind = a.kind.shape := rfl

theorem Kind.tag_shape (k : Kind) : k.shape.tag = k.tag := by cases k <;> rfl

namespace Store

/-! ## Paths -/

/-- The object made for the variable at a path, given last name first; 0 for the empty path. -/
def objectAlong? (s : Store) : List Bytes → Option ObjectId
  | [] => some 0
  | n :: rest => do
    let id ← s.find? (← s.objectAlong? rest) n
    s.objectAt? id

/-- The variable at a path, given last name first. -/
def along? (s : Store) : List Bytes → Option VarId
  | [] => none
  | n :: rest => do s.find? (← s.objectAlong? rest) n

/-- What a store says about a path. -/
def notes (s : Store) (p : List Bytes) : List Assignment :=
  (((s.along? p).bind s.get?).map fun v => v.assignments.map Assignment.shape).getD []

theorem along?_cons {s : Store} {n : Bytes} {rest : List Bytes} {id : VarId} :
    s.along? (n :: rest) = some id ↔ ∃ o, s.objectAlong? rest = some o ∧ s.find? o n = some id :=
  Option.bind_eq_some_iff

theorem objectAlong?_cons {s : Store} {n : Bytes} {rest : List Bytes} {o : ObjectId} :
    s.objectAlong? (n :: rest) = some o ↔
      ∃ id, s.along? (n :: rest) = some id ∧ s.objectAt? id = some o := by
  simp only [objectAlong?, along?, Option.bind_eq_bind, Option.bind_eq_some_iff]
  constructor
  · rintro ⟨o', ho', id, hid, ho⟩
    exact ⟨id, ⟨o', ho', hid⟩, ho⟩
  · rintro ⟨id, ⟨o', ho', hid⟩, ho⟩
    exact ⟨o', ho', id, hid, ho⟩

theorem objectAlong?_eq_zero {s : Store} : {p : List Bytes} → s.objectAlong? p = some 0 → p = []
  | [], _ => rfl
  | n :: rest, h => by
    obtain ⟨id, -, ho⟩ := objectAlong?_cons.1 h
    exact absurd rfl (ne_zero_of_home? (home?_of_objectAt? ho))

/-- The object at a path is that of the variable there. -/
theorem objectAlong?_of_along? {s : Store} (hs : s.WellFormed) {p : List Bytes} {id : VarId}
    {o : ObjectId} (hp : s.along? p = some id) (ho : s.home? o = some id) :
    s.objectAlong? p = some o := by
  cases p with
  | nil => simp [along?] at hp
  | cons n rest => exact objectAlong?_cons.2 ⟨id, hp, hs.objectAt?_eq_some_iff.2 ho⟩

theorem along?_of_objectAlong? {s : Store} {p : List Bytes} {o : ObjectId}
    (ho : s.objectAlong? p = some o) (h0 : o ≠ 0) :
    ∃ id, s.along? p = some id ∧ s.home? o = some id := by
  cases p with
  | nil => exact absurd (Option.some.inj ho).symm h0
  | cons n rest =>
    obtain ⟨id, hid, hat⟩ := objectAlong?_cons.1 ho
    exact ⟨id, hid, home?_of_objectAt? hat⟩

theorem get?_of_along? {s : Store} {n : Bytes} {rest : List Bytes} {id : VarId}
    (h : s.along? (n :: rest) = some id) :
    ∃ v, s.get? id = some v ∧ s.objectAlong? rest = some v.owner ∧ v.name = n := by
  obtain ⟨o, ho, hid⟩ := along?_cons.1 h
  obtain ⟨v, hv, hvo, hvn⟩ := get?_of_find? hid
  exact ⟨v, hv, hvo ▸ ho, hvn⟩

theorem exists_get?_of_along? {s : Store} {p : List Bytes} {id : VarId}
    (h : s.along? p = some id) : ∃ v, s.get? id = some v := by
  cases p with
  | nil => simp [along?] at h
  | cons n rest =>
    obtain ⟨v, hv, -⟩ := get?_of_along? h
    exact ⟨v, hv⟩

/-- A variable has one path. -/
theorem along?_unique {s : Store} : (p : List Bytes) → {q : List Bytes} →
    {id : VarId} → s.along? p = some id → s.along? q = some id → p = q
  | [], _, _, hp, _ => by simp [along?] at hp
  | n :: rest, q, id, hp, hq => by
    cases q with
    | nil => simp [along?] at hq
    | cons n' rest' =>
      obtain ⟨v, hv, ho, hn⟩ := get?_of_along? hp
      obtain ⟨v', hv', ho', hn'⟩ := get?_of_along? hq
      obtain rfl : v = v' := Option.some.inj (hv.symm.trans hv')
      have hrest : rest = rest' := by
        by_cases h0 : v.owner = 0
        · rw [h0] at ho ho'
          rw [objectAlong?_eq_zero ho, objectAlong?_eq_zero ho']
        · obtain ⟨home, hh, hhome⟩ := along?_of_objectAlong? ho h0
          obtain ⟨home', hh', hhome'⟩ := along?_of_objectAlong? ho' h0
          obtain rfl : home = home' := Option.some.inj (hhome.symm.trans hhome')
          exact along?_unique rest hh hh'
      rw [← hn, ← hn', hrest]

/-- Every variable has a path. -/
theorem exists_along? {s : Store} (hs : s.WellFormed) (id : VarId) {v : Variable}
    (hv : s.get? id = some v) : ∃ p, s.along? p = some id := by
  induction id using Nat.strongRecOn generalizing v with
  | _ id ih =>
    have hfind : s.find? v.owner v.name = some id := hs.find?_eq_some_iff.2 ⟨v, hv, rfl, rfl⟩
    by_cases h0 : v.owner = 0
    · exact ⟨[v.name], along?_cons.2 ⟨0, rfl, h0 ▸ hfind⟩⟩
    · obtain ⟨home, hh, hlt⟩ := hs.owner_there hv h0
      obtain ⟨w, hw, -⟩ := hs.home_there hh
      obtain ⟨p, hp⟩ := ih home hlt hw
      exact ⟨v.name :: p, along?_cons.2 ⟨v.owner, objectAlong?_of_along? hs hp hh, hfind⟩⟩

theorem notes_eq {s : Store} {p : List Bytes} {id : VarId} {v : Variable}
    (hp : s.along? p = some id) (hv : s.get? id = some v) :
    s.notes p = v.assignments.map Assignment.shape := by
  simp [notes, hp, hv]

theorem notes_eq_nil {s : Store} {p : List Bytes} (hp : s.along? p = none) : s.notes p = [] := by
  simp [notes, hp]

theorem exists_along?_of_notes {s : Store} {p : List Bytes} (h : s.notes p ≠ []) :
    ∃ id v, s.along? p = some id ∧ s.get? id = some v := by
  cases hp : s.along? p with
  | none => exact absurd (notes_eq_nil hp) h
  | some id =>
    obtain ⟨v, hv⟩ := exists_get?_of_along? hp
    exact ⟨id, v, rfl, hv⟩

/-! ## Paths in later stores -/

theorem Extends.find? {s t : Store} (h : Extends s t) (ht : t.WellFormed) {o : ObjectId}
    {n : Bytes} {id : VarId} (hf : s.find? o n = some id) : t.find? o n = some id := by
  obtain ⟨v, hv, ho, hn⟩ := get?_of_find? hf
  obtain ⟨w, hw, hwo, hwn⟩ := h.vars hv
  exact ht.find?_eq_some_iff.2 ⟨w, hw, hwo.trans ho, hwn.trans hn⟩

theorem Extends.objectAlong? {s t : Store} (h : Extends s t) (ht : t.WellFormed) :
    {p : List Bytes} → {o : ObjectId} → s.objectAlong? p = some o → t.objectAlong? p = some o
  | [], _, ho => ho
  | n :: rest, o, ho => by
    obtain ⟨id, hid, hat⟩ := objectAlong?_cons.1 ho
    obtain ⟨o', ho', hf⟩ := along?_cons.1 hid
    have hid' : t.along? (n :: rest) = some id :=
      along?_cons.2 ⟨o', h.objectAlong? ht ho', h.find? ht hf⟩
    exact objectAlong?_of_along? ht hid' (h.homes (home?_of_objectAt? hat))

theorem Extends.along? {s t : Store} (h : Extends s t) (ht : t.WellFormed) {p : List Bytes}
    {id : VarId} (hp : s.along? p = some id) : t.along? p = some id := by
  cases p with
  | nil => simp [Store.along?] at hp
  | cons n rest =>
    obtain ⟨o, ho, hf⟩ := along?_cons.1 hp
    exact along?_cons.2 ⟨o, h.objectAlong? ht ho, h.find? ht hf⟩

/-- Where a store grows by variables without assignments, its notes stay. -/
theorem Extends.notes {s t : Store} (h : Extends s t) (hs : s.WellFormed) (ht : t.WellFormed)
    (hnew : ∀ {id w}, t.get? id = some w →
      s.get? id = some w ∨ s.get? id = none ∧ w.assignments = [])
    (p : List Bytes) : t.notes p = s.notes p := by
  cases hp : t.along? p with
  | none =>
    have hp' : s.along? p = none := by
      cases hsp : s.along? p with
      | none => rfl
      | some id => simp [h.along? ht hsp] at hp
    rw [notes_eq_nil hp, notes_eq_nil hp']
  | some id =>
    obtain ⟨w, hw⟩ := exists_get?_of_along? hp
    obtain hv | ⟨hv, ha⟩ := hnew hw
    · obtain ⟨q, hq⟩ := exists_along? hs id hv
      obtain rfl := along?_unique p hp (h.along? ht hq)
      rw [notes_eq hp hw, notes_eq hq hv]
    · have hp' : s.along? p = none := by
        cases hsp : s.along? p with
        | none => rfl
        | some j =>
          obtain rfl : id = j := Option.some.inj (hp.symm.trans (h.along? ht hsp))
          obtain ⟨v, hv'⟩ := exists_get?_of_along? hsp
          simp [hv] at hv'
      rw [notes_eq hp hw, notes_eq_nil hp', ha, List.map_nil]

/-! ## Tidy stores -/

/-- A well-formed store in which variables refer to their own objects only. -/
structure Tidy (s : Store) : Prop extends WellFormed s where
  own : ∀ {id v a o}, s.get? id = some v → a ∈ v.assignments → a.kind = .object o →
    s.home? o = some id

theorem tidy_empty : Tidy {} where
  toWellFormed := wellFormed_empty
  own := by
    intro id v a o hv
    cases id <;> simp [get?] at hv

/-- In a tidy store, a variable that holds a reference holds one to its own object. -/
theorem Tidy.home?_of_kindOf {s : Store} (hs : s.Tidy) {id : VarId} {o : ObjectId}
    (h : (s.kindOf id).object? = some o) : s.home? o = some id := by
  unfold kindOf at h
  cases hv : s.get? id with
  | none => simp [hv, Kind.object?] at h
  | some v =>
    simp only [hv, Option.map_some, Option.getD_some, Variable.kind, Variable.commonKind?] at h
    cases ha : v.assignments with
    | nil => simp [ha, Kind.object?] at h
    | cons a rest =>
      simp only [ha] at h
      split at h
      · cases hk : a.kind with
        | object o' =>
          have ho : o' = o := by
            simp only [hk, Option.getD_some, Kind.object?] at h
            split at h
            · simp at h
            · exact Option.some.inj h
          exact hs.own hv (by simp [ha]) (hk.trans (by rw [ho]))
        | _ => simp [hk, Kind.object?] at h
      · simp [Kind.object?] at h

theorem Tidy.declare {s : Store} (hs : s.Tidy) {rest : List Bytes} {o : ObjectId}
    (ho : s.objectAlong? rest = some o) (n : Bytes) :
    ∃ id t, s.declare o n = (id, t) ∧ t.Tidy ∧ Extends s t ∧ (∀ p, t.notes p = s.notes p) ∧
      t.along? (n :: rest) = some id := by
  rw [declare_eq]
  cases hf : s.find? o n with
  | some id => exact ⟨id, s, rfl, hs, .refl s, fun _ => rfl, along?_cons.2 ⟨o, ho, hf⟩⟩
  | none =>
    have howner : o = 0 ∨ ∃ home, s.home? o = some home := by
      by_cases h0 : o = 0
      · exact .inl h0
      · obtain ⟨home, -, hh⟩ := along?_of_objectAlong? ho h0
        exact .inr ⟨home, hh⟩
    have hwf : (s.grown o n).WellFormed := hs.toWellFormed.grown howner hf
    have hext := extends_grown s o n
    have hnew {id : VarId} {w : Variable} (hw : (s.grown o n).get? id = some w) :
        s.get? id = some w ∨ s.get? id = none ∧ w.assignments = [] := by
      rw [get?_grown] at hw
      split at hw
      · rename_i hid
        refine .inr ⟨?_, by rw [← Option.some.inj hw]⟩
        cases hv : s.get? id with
        | none => rfl
        | some v => exact absurd (le_size_of_get? hv) (by rw [hid]; exact Nat.not_succ_le_self _)
      · exact .inl hw
    refine ⟨_, _, rfl, ⟨hwf, ?_⟩, hext, hext.notes hs.toWellFormed hwf hnew, ?_⟩
    · intro id w a o' hw ha hk
      obtain hv | ⟨-, hnil⟩ := hnew hw
      · exact hs.own hv ha hk
      · simp [hnil] at ha
    · have hget : (s.grown o n).get? (s.vars.size + 1) = some { name := n, owner := o } := by
        rw [get?_grown, if_pos rfl]
      exact along?_cons.2 ⟨o, hext.objectAlong? hwf ho,
        hwf.find?_eq_some_iff.2 ⟨_, hget, rfl, rfl⟩⟩

theorem Tidy.homeObject {s : Store} (hs : s.Tidy) {p : List Bytes} {id : VarId}
    (hp : s.along? p = some id) :
    ∃ o t, s.homeObject id = (o, t) ∧ t.Tidy ∧ Extends s t ∧ (∀ q, t.notes q = s.notes q) ∧
      t.home? o = some id := by
  rw [homeObject_eq]
  cases hf : s.objectAt? id with
  | some o => exact ⟨o, s, rfl, hs, .refl s, fun _ => rfl, home?_of_objectAt? hf⟩
  | none =>
    obtain ⟨v, hv⟩ := exists_get?_of_along? hp
    have hwf : (s.housed id).WellFormed := hs.toWellFormed.housed hv hf
    have hext := extends_housed s id
    refine ⟨_, _, rfl, ⟨hwf, ?_⟩, hext,
      hext.notes hs.toWellFormed hwf fun hw => .inl hw, ?_⟩
    · intro j w a o hw ha hk
      exact hext.homes (hs.own hw ha hk)
    · rw [home?_housed, if_pos rfl]

theorem SameLabels.along? {s t : Store} (h : SameLabels s t) (hs : s.WellFormed) (p : List Bytes) :
    t.along? p = s.along? p := by
  have ht := h.wellFormed hs
  cases hp : s.along? p with
  | some id => exact h.extends.along? ht hp
  | none =>
    cases hq : t.along? p with
    | none => rfl
    | some id => simp [h.symm.extends.along? hs hq] at hp

theorem Tidy.assign {s : Store} (hs : s.Tidy) {p : List Bytes} {id : VarId}
    (hp : s.along? p = some id) (a : Assignment)
    (ha : ∀ o, a.kind = .object o → s.home? o = some id) :
    (s.assign id a).Tidy ∧ Extends s (s.assign id a) ∧
      ∀ q, (s.assign id a).notes q = if q = p then s.notes p ++ [a.shape] else s.notes q := by
  obtain ⟨v, hv⟩ := exists_get?_of_along? hp
  have hl : SameLabels s (s.assign id a) := sameLabels_assign (ne_zero_of_get? hv) a
  have hget := get?_assign (s := s) (ne_zero_of_get? hv) a
  refine ⟨⟨hl.wellFormed hs.toWellFormed, ?_⟩, hl.extends, fun q => ?_⟩
  -- an assignment is owned through its own variable, and nothing else has changed
  · intro j w b o hw hb hk
    rw [hget] at hw
    obtain ⟨x, hx, rfl⟩ := Option.map_eq_some_iff.1 hw
    by_cases hj : id = j
    · subst hj
      simp only [if_true, List.mem_append, List.mem_singleton] at hb
      obtain hb | rfl := hb
      · exact hs.own hx hb hk
      · exact ha o hk
    · simp only [hj, if_false] at hb
      exact hs.own hx hb hk
  · simp only [notes, hl.along? hs.toWellFormed]
    -- a path leads where it led, and only the one to the assigned variable has a note more
    cases hq : s.along? q with
    | none =>
      have hne : q ≠ p := by
        rintro rfl
        simp [hq] at hp
      simp [hne]
    | some j =>
      by_cases hqp : q = p
      · subst hqp
        obtain rfl : id = j := Option.some.inj (hp.symm.trans hq)
        simp [hget, hv, hq]
      · have hj : id ≠ j := by
          rintro rfl
          exact hqp (along?_unique q hq hp)
        obtain ⟨w, hw⟩ := exists_get?_of_along? hq
        simp [hget, hw, hj, hqp]

theorem Tidy.removeOrigin {s : Store} (hs : s.Tidy) (file : FileId) :
    (s.removeOrigin file).Tidy ∧ Extends s (s.removeOrigin file) ∧
      ∀ q, (s.removeOrigin file).notes q = (s.notes q).filter fun a => a.origin != file := by
  have hl := sameLabels_removeOrigin s file
  refine ⟨⟨hl.wellFormed hs.toWellFormed, ?_⟩, hl.extends, fun q => ?_⟩
  · intro j w b o hw hb hk
    rw [get?_removeOrigin] at hw
    obtain ⟨x, hx, rfl⟩ := Option.map_eq_some_iff.1 hw
    exact hs.own hx (List.mem_of_mem_filter hb) hk
  · simp only [notes, hl.along? hs.toWellFormed]
    cases hq : s.along? q with
    | none => simp
    | some j =>
      obtain ⟨w, hw⟩ := exists_get?_of_along? hq
      simp [get?_removeOrigin, hw, List.filter_map, Function.comp_def]

end Store

end Storyline.Variables
