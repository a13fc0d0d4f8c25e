import Storyline.Proofs.Text.Lists
import Storyline.Proofs.Variables.Ledger
import Storyline.Variables.Snapshot

/-!
# What stores with the same notes show

Two tidy stores whose notes have the same kinds, in whatever order, show the same: a variable at the
same path has the same name and the same kind in both, it is in conflict in both or in neither, and
the tables of all variables differ in the numbers of objects only.  These are numbered anew from one
store to the other, each object to the one at the same path (`SameKinds.snapshot_renumbered`).
-/

namespace Storyline.Variables

/-! ## Kinds that assignments agree on -/

/-- The kind that assignments agree on, if there are any and they do. -/
def agreed? (as : List Assignment) : Option Kind :=
  match as with
  | [] => none
  | a :: rest => if rest.all (·.kind = a.kind) then some a.kind else none

theorem commonKind?_eq (v : Variable) : v.commonKind? = agreed? v.assignments := rfl

theorem agreed?_eq_some_iff {as : List Assignment} {k : Kind} :
    agreed? as = some k ↔ as ≠ [] ∧ ∀ a ∈ as, a.kind = k := by
  cases as with
  | nil => simp [agreed?]
  | cons a rest =>
    simp only [agreed?, ne_eq, reduceCtorEq, not_false_eq_true, true_and, List.forall_mem_cons]
    constructor
    · intro h
      split at h
      · rename_i hall
        obtain rfl := Option.some.inj h
        exact ⟨rfl, fun b hb => by simpa using List.all_eq_true.1 hall b hb⟩
      · simp at h
    · rintro ⟨rfl, hrest⟩
      rw [if_pos]
      exact List.all_eq_true.2 fun b hb => decide_eq_true (hrest b hb)

/-- What assignments agree on depends on their kinds only, in whatever order. -/
theorem agreed?_perm {as bs : List Assignment} (h : (as.map (·.kind)).Perm (bs.map (·.kind))) :
    agreed? as = agreed? bs := by
  have hiff (cs : List Assignment) (k : Kind) : agreed? cs = some k ↔
      cs.map (·.kind) ≠ [] ∧ ∀ x ∈ cs.map (·.kind), x = k := by
    rw [agreed?_eq_some_iff, List.forall_mem_map, ne_eq, ne_eq, List.map_eq_nil_iff]
  have hnil : as.map (·.kind) = [] ↔ bs.map (·.kind) = [] :=
    ⟨fun e => (e ▸ h).nil_eq.symm, fun e => (e ▸ h).eq_nil⟩
  apply Option.ext
  intro k
  rw [hiff, hiff, ne_eq, ne_eq, hnil]
  simp only [h.mem_iff]

theorem agreed?_shape {as : List Assignment}
    (hinj : ∀ a ∈ as, ∀ b ∈ as, a.kind.shape = b.kind.shape → a.kind = b.kind) :
    agreed? (as.map Assignment.shape) = (agreed? as).map Kind.shape := by
  cases as with
  | nil => rfl
  | cons a rest =>
    simp only [agreed?, List.map_cons, List.all_map]
    have hall : (rest.all ((fun b => decide (b.kind = a.shape.kind)) ∘ Assignment.shape))
        = rest.all fun b => decide (b.kind = a.kind) := by
      rw [Bool.eq_iff_iff, List.all_eq_true, List.all_eq_true]
      refine forall_congr' fun b => forall_congr' fun hb => ?_
      rw [Function.comp_apply, decide_eq_true_eq, decide_eq_true_eq]
      exact ⟨fun h => hinj b (by simp [hb]) a (by simp) h, fun h => congrArg Kind.shape h⟩
    rw [hall]
    split <;> rfl

namespace Store

/-- In a tidy store the kinds of a variable are known up to the numbers of objects. -/
theorem Tidy.agreed?_notes {s : Store} (hs : s.Tidy) {p : List Bytes} {id : VarId} {v : Variable}
    (hp : s.along? p = some id) (hv : s.get? id = some v) :
    agreed? (s.notes p) = v.commonKind?.map Kind.shape := by
  rw [notes_eq hp hv, commonKind?_eq]
  refine agreed?_shape fun a ha b hb hab => ?_
  cases hka : a.kind with
  | object o =>
    cases hkb : b.kind with
    | object o' => rw [hs.homes_distinct (hs.own hv ha hka) (hs.own hv hb hkb)]
    | _ => simp [hka, hkb, Kind.shape] at hab
  | _ => cases hkb : b.kind <;> simp_all [Kind.shape]

/-- Two stores with the same notes in some order. -/
def SameNotes (s t : Store) : Prop := ∀ p, (s.notes p).Perm (t.notes p)

/-- Two stores whose notes have the same kinds in some order. -/
def SameKinds (s t : Store) : Prop :=
  ∀ p, ((s.notes p).map (·.kind)).Perm ((t.notes p).map (·.kind))

theorem SameKinds.symm {s t : Store} (h : SameKinds s t) : SameKinds t s := fun p => (h p).symm

theorem SameNotes.sameKinds {s t : Store} (h : SameNotes s t) : SameKinds s t :=
  fun p => (h p).map _

/-- Notes are the same if those of every file are. -/
theorem sameNotes_of_files {s t : Store} (h : ∀ g, Notes.of s.notes g = Notes.of t.notes g) :
    SameNotes s t := by
  intro p
  rw [List.perm_iff_count]
  intro a
  have hp : (s.notes p).filter (fun b => b.origin = a.origin)
      = (t.notes p).filter fun b => b.origin = a.origin := congrFun (h a.origin) p
  rw [← List.count_filter (p := fun b => b.origin = a.origin) (l := s.notes p) (by simp), hp,
    List.count_filter (by simp)]

theorem SameKinds.notes_eq_nil_iff {s t : Store} (h : SameKinds s t) (p : List Bytes) :
    s.notes p = [] ↔ t.notes p = [] := by
  have hlen := (h p).length_eq
  rw [List.length_map, List.length_map] at hlen
  rw [← List.length_eq_zero_iff, hlen, List.length_eq_zero_iff]

theorem SameKinds.exists_twin {s t : Store} (h : SameKinds s t) {p : List Bytes} {id : VarId}
    {v : Variable} (hp : s.along? p = some id) (hv : s.get? id = some v) (hne : v.assignments ≠ []) :
    ∃ id' v', t.along? p = some id' ∧ t.get? id' = some v' ∧ v'.assignments ≠ [] := by
  have hs : s.notes p ≠ [] := by simpa [notes_eq hp hv] using hne
  have ht : t.notes p ≠ [] := fun hnil => hs ((h.notes_eq_nil_iff p).2 hnil)
  obtain ⟨id', v', hp', hv'⟩ := exists_along?_of_notes ht
  exact ⟨id', v', hp', hv', by simpa [notes_eq hp' hv'] using ht⟩

section Twins

variable {s t : Store} (hs : s.Tidy) (ht : t.Tidy) (h : SameKinds s t)
  {p : List Bytes} {id id' : VarId} {v v' : Variable} (hp : s.along? p = some id)
  (hv : s.get? id = some v) (hp' : t.along? p = some id') (hv' : t.get? id' = some v')

include hs ht h hp hv hp' hv'

theorem SameKinds.commonKind? :
    v.commonKind?.map Kind.shape = v'.commonKind?.map Kind.shape := by
  rw [← hs.agreed?_notes hp hv, ← ht.agreed?_notes hp' hv', agreed?_perm (h p)]

theorem SameKinds.kind_shape : v.kind.shape = v'.kind.shape := by
  have hc := h.commonKind? hs ht hp hv hp' hv'
  unfold Variable.kind
  cases hk : v.commonKind? <;> cases hk' : v'.commonKind? <;> simp_all

omit hs ht in
theorem SameKinds.length : v.assignments.length = v'.assignments.length := by
  have hl := (h p).length_eq
  simpa [notes_eq hp hv, notes_eq hp' hv'] using hl

theorem SameKinds.isNone : v.commonKind?.isNone = v'.commonKind?.isNone := by
  have hc := h.commonKind? hs ht hp hv hp' hv'
  rw [← Option.isNone_map (f := Kind.shape), hc, Option.isNone_map]

theorem SameKinds.isConflicted : v.isConflicted = v'.isConflicted := by
  rw [Variable.isConflicted, Variable.isConflicted, h.isNone hs ht hp hv hp' hv',
    h.length hp hv hp' hv']

end Twins

theorem conflicts_eq_nil_iff {s : Store} :
    s.conflicts = [] ↔ ∀ id v, s.get? id = some v → v.isConflicted = false := by
  simp only [conflicts, List.filterMap_eq_nil_iff, List.mem_map, List.mem_range,
    Option.bind_eq_none_iff]
  constructor
  · intro h id v hv
    obtain ⟨i, rfl, hi⟩ := get?_eq_some_iff.1 hv
    have hnone := h (i + 1) ⟨i, (Array.getElem?_eq_some_iff.1 hi).1, rfl⟩ v hv
    by_contra hc
    simp [hc] at hnone
  · rintro h _ ⟨i, -, rfl⟩ v hv
    simp [h _ v hv]

/-- Conflicts are the same: there are none in one store if there are none in the other. -/
theorem SameKinds.conflicts_eq_nil {s t : Store} (hs : s.Tidy) (ht : t.Tidy) (h : SameKinds s t)
    (hc : t.conflicts = []) : s.conflicts = [] := by
  rw [conflicts_eq_nil_iff] at hc ⊢
  intro id v hv
  obtain ⟨p, hp⟩ := exists_along? hs.toWellFormed id hv
  by_cases hne : v.assignments = []
  · simp [Variable.isConflicted, hne]
  · obtain ⟨id', v', hp', hv', -⟩ := h.exists_twin hp hv hne
    rw [h.isConflicted hs ht hp hv hp' hv']
    exact hc id' v' hv'

/-! ## Names -/

theorem fullName_go {s : Store} (hs : s.WellFormed) : (p : List Bytes) → {id : VarId} →
    {v : Variable} → s.along? p = some id → s.get? id = some v → (fuel : Nat) →
    v.owner ≤ fuel → fullName.go s fuel id = Bytes.join "." p.reverse
  | [], _, _, hp, _, _, _ => by simp [along?] at hp
  | n :: rest, id, v, hp, hv, fuel, hle => by
    obtain ⟨w, hw, ho, hn⟩ := get?_of_along? hp
    obtain rfl : v = w := Option.some.inj (hv.symm.trans hw)
    by_cases h0 : v.owner = 0
    · rw [h0] at ho
      obtain rfl := objectAlong?_eq_zero ho
      unfold fullName.go
      simp [hv, h0, home?_zero, hn, Bytes.join]
    · obtain ⟨home, hhome, hh⟩ := along?_of_objectAlong? ho h0
      obtain ⟨x, hx, hlt⟩ := hs.home_there hh
      have hrest : rest.reverse ≠ [] := by
        intro hnil
        simp [List.reverse_eq_nil_iff.1 hnil, along?] at hhome
      -- owners have smaller numbers than what they own, so the fuel lasts
      cases fuel with
      | zero => exact absurd (Nat.le_zero.1 hle) h0
      | succ k =>
        have hk : x.owner ≤ k := Nat.le_of_lt_succ (Nat.lt_of_lt_of_le hlt hle)
        unfold fullName.go
        simp only [hv, hh]
        rw [fullName_go hs rest hhome hx k hk, List.reverse_cons, Bytes.join_concat _ hrest, hn]

/-- The name of a variable is its path. -/
theorem fullName_eq {s : Store} (hs : s.WellFormed) {p : List Bytes} {id : VarId}
    (hp : s.along? p = some id) : s.fullName id = Bytes.join "." p.reverse := by
  obtain ⟨v, hv⟩ := exists_get?_of_along? hp
  exact fullName_go hs p hp hv _ (Nat.le_succ_of_le (hs.owner_le hv))

end Store

/-! ## Tables -/

/-- A kind with its object numbered anew. -/
def Kind.renumber (ρ : ObjectId → ObjectId) : Kind → Kind
  | .object o => .object (ρ o)
  | k => k

theorem Kind.shape_renumber (ρ : ObjectId → ObjectId) (k : Kind) :
    (k.renumber ρ).shape = k.shape := by
  cases k <;> rfl

namespace Entry

mutual

/-- An entry without the numbers of objects. -/
def shape : Entry → Entry
  | ⟨name, kind, conflict, assignments, props⟩ =>
    ⟨name, kind.shape, conflict, assignments, shapeAll props⟩

/-- Entries without the numbers of objects. -/
def shapeAll : List Entry → List Entry
  | [] => []
  | e :: es => e.shape :: shapeAll es

end

mutual

/-- An entry with its objects numbered anew. -/
def renumber (ρ : ObjectId → ObjectId) : Entry → Entry
  | ⟨name, kind, conflict, assignments, props⟩ =>
    ⟨name, kind.renumber ρ, conflict, assignments, renumberAll ρ props⟩

/-- Entries with their objects numbered anew. -/
def renumberAll (ρ : ObjectId → ObjectId) : List Entry → List Entry
  | [] => []
  | e :: es => e.renumber ρ :: renumberAll ρ es

end

theorem renumberAll_eq_map (ρ : ObjectId → ObjectId) (es : List Entry) :
    renumberAll ρ es = es.map (renumber ρ) := by
  induction es with
  | nil => rfl
  | cons e es ih => rw [renumberAll, ih, List.map_cons]

mutual

theorem shape_renumber (ρ : ObjectId → ObjectId) : (e : Entry) → (e.renumber ρ).shape = e.shape
  | ⟨name, kind, conflict, assignments, props⟩ => by
    rw [renumber, shape, shape, Kind.shape_renumber, shapeAll_renumberAll ρ props]

theorem shapeAll_renumberAll (ρ : ObjectId → ObjectId) :
    (es : List Entry) → shapeAll (renumberAll ρ es) = shapeAll es
  | [] => rfl
  | e :: es => by
    rw [renumberAll, shapeAll, shapeAll, shape_renumber ρ e, shapeAll_renumberAll ρ es]

end

end Entry

namespace Store

/-- The assigned variables of an owner, by name. -/
def listed (s : Store) (o : ObjectId) : List Variable :=
  (s.owned o).filter fun v => !v.assignments.isEmpty

/-- The entry of an assigned variable; `path` are the objects around it. -/
def entryOf (s : Store) (fuel : Nat) (path : List ObjectId) (v : Variable) : Entry :=
  ⟨v.name, v.kind, v.commonKind?.isNone, v.assignments.length,
    match v.kind.object? with
    | some o => if path.contains o then [] else s.entries fuel o (o :: path)
    | none => []⟩

theorem entries_succ (s : Store) (fuel : Nat) (o : ObjectId) (path : List ObjectId) :
    s.entries (fuel + 1) o path = (s.listed o).map (s.entryOf fuel path) := by
  show (s.owned o).filterMap (fun v =>
    if v.assignments.isEmpty then none else some (s.entryOf fuel path v)) = _
  unfold listed
  induction s.owned o with
  | nil => rfl
  | cons v vs ih =>
    rw [List.filterMap_cons, List.filter_cons, ih]
    by_cases hv : v.assignments.isEmpty = true <;> simp [hv]

theorem mem_vars_iff {s : Store} {v : Variable} :
    v ∈ s.vars ↔ ∃ id, s.get? id = some v := by
  rw [Array.mem_iff_getElem?]
  constructor
  · rintro ⟨i, hi⟩
    exact ⟨i + 1, by rw [get?_succ, hi]⟩
  · rintro ⟨id, hid⟩
    obtain ⟨i, -, hi⟩ := get?_eq_some_iff.1 hid
    exact ⟨i, hi⟩

/-- The names of the variables of an owner are those that its table lists. -/
theorem names_owned (s : Store) (o : ObjectId) :
    (s.owned o).map (·.name) = Bytes.sortOn id (s.table o).order := by
  have hfound : ∀ n ∈ Bytes.sortOn id (s.table o).order,
      ((s.find? o n).bind s.get?).map (·.name) = some n := by
    intro n hn
    obtain ⟨id, hid⟩ := mem_order_iff.1 (Bytes.mem_sortOn.1 hn)
    obtain ⟨v, hv, -, hname⟩ := get?_of_find? hid
    rw [hid, Option.bind_some, hv, Option.map_some, hname]
  rw [owned, List.map_filterMap, List.filterMap_congr hfound, List.filterMap_some]

theorem get?_of_mem_owned {s : Store} {o : ObjectId} {v : Variable} (hv : v ∈ s.owned o) :
    (∃ id, s.get? id = some v) ∧ v.owner = o := by
  obtain ⟨n, -, h⟩ := List.mem_filterMap.1 hv
  obtain ⟨id, hid, hget⟩ := Option.bind_eq_some_iff.1 h
  obtain ⟨w, hw, ho, -⟩ := get?_of_find? hid
  obtain rfl : v = w := Option.some.inj (hget.symm.trans hw)
  exact ⟨⟨id, hw⟩, ho⟩

theorem mem_owned {s : Store} (hs : s.WellFormed) {o : ObjectId} {v : Variable} :
    v ∈ s.owned o ↔ (∃ id, s.get? id = some v) ∧ v.owner = o := by
  refine ⟨get?_of_mem_owned, ?_⟩
  rintro ⟨⟨id, hv⟩, ho⟩
  have hid : s.find? o v.name = some id := hs.find?_eq_some_iff.2 ⟨v, hv, ho, rfl⟩
  refine List.mem_filterMap.2 ⟨v.name, Bytes.mem_sortOn.2 (mem_order_iff.2 ⟨id, hid⟩), ?_⟩
  rw [hid, Option.bind_some, hv]

theorem get?_of_mem_listed {s : Store} {o : ObjectId} {v : Variable} (hv : v ∈ s.listed o) :
    (∃ id, s.get? id = some v) ∧ v.owner = o ∧ v.assignments ≠ [] := by
  obtain ⟨hv, hne⟩ := List.mem_filter.1 hv
  obtain ⟨hget, ho⟩ := get?_of_mem_owned hv
  exact ⟨hget, ho, by simpa using hne⟩

theorem mem_listed {s : Store} (hs : s.WellFormed) {o : ObjectId} {v : Variable} :
    v ∈ s.listed o ↔ (∃ id, s.get? id = some v) ∧ v.owner = o ∧ v.assignments ≠ [] := by
  simp [listed, mem_owned hs, and_assoc]

theorem along?_of_get? {s : Store} (hs : s.WellFormed) {rest : List Bytes} {id : VarId}
    {v : Variable} (hv : s.get? id = some v) (ho : s.objectAlong? rest = some v.owner) :
    s.along? (v.name :: rest) = some id :=
  along?_cons.2 ⟨v.owner, ho, hs.find?_eq_some_iff.2 ⟨v, hv, rfl, rfl⟩⟩

/-- The assigned variables of an owner are those that there are notes on. -/
theorem mem_names_listed {s : Store} (hs : s.WellFormed) {rest : List Bytes} {o : ObjectId}
    (ho : s.objectAlong? rest = some o) {n : Bytes} :
    n ∈ (s.listed o).map (·.name) ↔ s.notes (n :: rest) ≠ [] := by
  simp only [List.mem_map, mem_listed hs]
  constructor
  · rintro ⟨v, ⟨⟨id, hv⟩, rfl, hne⟩, rfl⟩
    simpa [notes_eq (along?_of_get? hs hv ho) hv] using hne
  · intro hne
    obtain ⟨id, v, hp, hv⟩ := exists_along?_of_notes hne
    obtain ⟨w, hw, how, hn⟩ := get?_of_along? hp
    obtain rfl : v = w := Option.some.inj (hv.symm.trans hw)
    obtain rfl : o = v.owner := Option.some.inj (ho.symm.trans how)
    exact ⟨v, ⟨⟨id, hv⟩, rfl, by simpa [notes_eq hp hv] using hne⟩, hn⟩

/-- Every owner has each name at most once. -/
theorem nodup_names_owned {s : Store} (hs : s.WellFormed) (o : ObjectId) :
    ((s.owned o).map (·.name)).Nodup := by
  rw [names_owned, (Bytes.sortOn_perm _ _).nodup_iff]
  exact hs.nodup_order o

theorem nodup_names_listed {s : Store} (hs : s.WellFormed) (o : ObjectId) :
    ((s.listed o).map (·.name)).Nodup :=
  (nodup_names_owned hs o).sublist (List.filter_sublist.map _)

theorem pairwise_names_listed (s : Store) (o : ObjectId) :
    ((s.listed o).map (·.name)).Pairwise (· ≤ ·) := by
  have howned : ((s.owned o).map (·.name)).Pairwise (· ≤ ·) := by
    rw [names_owned]
    exact Bytes.pairwise_sortOn id _
  exact howned.sublist (List.filter_sublist.map _)

theorem SameKinds.names_listed {s t : Store} (hs : s.WellFormed) (ht : t.WellFormed)
    (h : SameKinds s t) {rest : List Bytes} {o o' : ObjectId} (ho : s.objectAlong? rest = some o)
    (ho' : t.objectAlong? rest = some o') :
    (s.listed o).map (·.name) = (t.listed o').map (·.name) := by
  refine Bytes.names_eq (pairwise_names_listed s o) (pairwise_names_listed t o')
    (nodup_names_listed hs o) (nodup_names_listed ht o') fun n => ?_
  rw [mem_names_listed hs ho, mem_names_listed ht ho', ne_eq, ne_eq, not_iff_not]
  exact h.notes_eq_nil_iff (n :: rest)

theorem map_eq_of_names {α : Type} {g g' : Variable → α} : {vs ws : List Variable} →
    vs.map (·.name) = ws.map (·.name) →
    (∀ v ∈ vs, ∀ w ∈ ws, v.name = w.name → g v = g' w) → vs.map g = ws.map g'
  | [], [], _, _ => rfl
  | [], w :: ws, hn, _ => by simp at hn
  | v :: vs, [], hn, _ => by simp at hn
  | v :: vs, w :: ws, hn, h => by
    obtain ⟨hname, hrest⟩ := List.cons.inj hn
    rw [List.map_cons, List.map_cons, h v (by simp) w (by simp) hname,
      map_eq_of_names hrest fun v hv w hw => h v (by simp [hv]) w (by simp [hw])]

theorem objectAlong?_le {s : Store} {p : List Bytes} {o : ObjectId}
    (ho : s.objectAlong? p = some o) : o ≤ s.homes.size := by
  by_cases h0 : o = 0
  · rw [h0]
    exact Nat.zero_le _
  · obtain ⟨id, -, hh⟩ := along?_of_objectAlong? ho h0
    exact le_size_of_home? hh

theorem Tidy.home?_of_kind {s : Store} (hs : s.Tidy) {id : VarId} {v : Variable}
    (hv : s.get? id = some v) {x : ObjectId} (hk : v.kind = .object x) : s.home? x = some id := by
  unfold Variable.kind at hk
  cases hc : v.commonKind? with
  | none => simp [hc] at hk
  | some k =>
    obtain rfl : k = .object x := by simpa [hc] using hk
    obtain ⟨hne, hall⟩ := agreed?_eq_some_iff.1 hc
    obtain ⟨a, ha⟩ := List.exists_mem_of_ne_nil _ hne
    exact hs.own hv ha (hall a ha)

/-- The properties below an object, where objects are numbered upwards along every path. -/
theorem props_of_kind {s : Store} (hs : s.Tidy) {id : VarId} {v : Variable}
    (hv : s.get? id = some v) {x : ObjectId} (hk : v.kind = .object x) (fuel : Nat)
    {path : List ObjectId} (hpath : ∀ y ∈ path, y ≤ v.owner) :
    (s.entryOf fuel path v).props = s.entries fuel x (x :: path) ∧ v.owner < x := by
  have hx := hs.home?_of_kind hv hk
  obtain ⟨w, hw, hlt⟩ := hs.home_there hx
  obtain rfl : v = w := Option.some.inj (hv.symm.trans hw)
  have hmem : ¬path.contains x = true := by
    intro hin
    exact absurd (hpath x (List.contains_iff_mem.1 hin)) (Nat.not_le_of_lt hlt)
  refine ⟨?_, hlt⟩
  simp only [entryOf, hk, Kind.object?, ne_zero_of_home? hx, if_false, if_neg hmem]

theorem props_of_no_object (s : Store) (fuel : Nat) (path : List ObjectId) {v : Variable}
    (hk : v.kind.object? = none) : (s.entryOf fuel path v).props = [] := by
  simp only [entryOf, hk]

theorem entryOf_renumber (s : Store) (ρ : ObjectId → ObjectId) (fuel : Nat)
    (path : List ObjectId) (v : Variable) :
    (s.entryOf fuel path v).renumber ρ = ⟨v.name, v.kind.renumber ρ, v.commonKind?.isNone,
      v.assignments.length, Entry.renumberAll ρ (s.entryOf fuel path v).props⟩ := by
  simp only [entryOf, Entry.renumber]

/-- Numbers for the objects of a store, taken from the objects at the same paths in another one. -/
def Renumbers (s t : Store) (ρ : ObjectId → ObjectId) : Prop :=
  ∀ {p o o'}, s.objectAlong? p = some o → t.objectAlong? p = some o' → ρ o = o'

theorem objectAlong?_unique {s : Store} {p q : List Bytes} {o : ObjectId}
    (hp : s.objectAlong? p = some o) (hq : s.objectAlong? q = some o) : p = q := by
  by_cases h0 : o = 0
  · subst h0
    rw [objectAlong?_eq_zero hp, objectAlong?_eq_zero hq]
  · obtain ⟨id, hid, hh⟩ := along?_of_objectAlong? hp h0
    obtain ⟨id', hid', hh'⟩ := along?_of_objectAlong? hq h0
    obtain rfl : id = id' := Option.some.inj (hh.symm.trans hh')
    exact along?_unique p hid hid'

theorem exists_renumbers (s t : Store) : ∃ ρ, Renumbers s t ρ := by
  have hnumber (o : ObjectId) : ∃ x, ∀ p o', s.objectAlong? p = some o →
      t.objectAlong? p = some o' → x = o' := by
    by_cases h : ∃ p x, s.objectAlong? p = some o ∧ t.objectAlong? p = some x
    · obtain ⟨p, x, hp, hx⟩ := h
      refine ⟨x, fun q o' hq ho' => ?_⟩
      obtain rfl := objectAlong?_unique hp hq
      exact Option.some.inj (hx.symm.trans ho')
    · exact ⟨0, fun p o' hp ho' => absurd ⟨p, o', hp, ho'⟩ h⟩
  choose ρ hρ using hnumber
  exact ⟨ρ, fun {p o o'} hp ho' => hρ o p o' hp ho'⟩

/-- What two stores list below the same path. -/
theorem SameKinds.entries_renumbered {s t : Store} (hs : s.Tidy) (ht : t.Tidy)
    (h : SameKinds s t) {ρ : ObjectId → ObjectId} (hρ : Renumbers s t ρ) :
    (fuel fuel' : Nat) → {o o' : ObjectId} → {rest : List Bytes} → {path path' : List ObjectId} →
    s.objectAlong? rest = some o → t.objectAlong? rest = some o' → s.homes.size < fuel + o →
    t.homes.size < fuel' + o' → (∀ x ∈ path, x ≤ o) → (∀ x ∈ path', x ≤ o') →
    Entry.renumberAll ρ (s.entries fuel o path) = t.entries fuel' o' path'
  -- The fuel never runs out, for an object that is reached has a number the fuel covers; the
  -- recursion follows both listings at once.
  | 0, _, o, _, _, _, _, ho, _, hf, _, _, _ =>
    absurd (objectAlong?_le ho) (by rw [Nat.zero_add] at hf; exact Nat.not_le_of_lt hf)
  | _ + 1, 0, _, o', _, _, _, _, ho', _, hf', _, _ =>
    absurd (objectAlong?_le ho') (by rw [Nat.zero_add] at hf'; exact Nat.not_le_of_lt hf')
  | fuel + 1, fuel' + 1, o, o', rest, path, path', ho, ho', hf, hf', hpath, hpath' => by
    rw [entries_succ, entries_succ, Entry.renumberAll_eq_map, List.map_map]
    refine map_eq_of_names (h.names_listed hs.toWellFormed ht.toWellFormed ho ho') ?_
    intro v hvl w hwl hname
    obtain ⟨⟨id, hv⟩, rfl, -⟩ := get?_of_mem_listed hvl
    obtain ⟨⟨id', hw⟩, rfl, -⟩ := get?_of_mem_listed hwl
    have hp := along?_of_get? hs.toWellFormed hv ho
    have hp' := along?_of_get? ht.toWellFormed hw ho'
    rw [← hname] at hp'
    have hkind := h.kind_shape hs ht hp hv hp' hw
    rw [Function.comp_apply, entryOf_renumber, hname, h.isNone hs ht hp hv hp' hw,
      h.length hp hv hp' hw]
    -- either both variables are objects, and their properties are listed below, or none of them is
    cases hk : v.kind with
    | object x =>
      obtain ⟨y, hk'⟩ : ∃ y, w.kind = .object y := by
        cases hw' : w.kind <;> simp_all [Kind.shape]
      obtain ⟨hprops, hx⟩ := props_of_kind hs hv hk fuel hpath
      obtain ⟨hprops', hy⟩ := props_of_kind ht hw hk' fuel' hpath'
      have hox := objectAlong?_of_along? hs.toWellFormed hp (hs.home?_of_kind hv hk)
      have hoy := objectAlong?_of_along? ht.toWellFormed hp' (ht.home?_of_kind hw hk')
      have hbelow : Entry.renumberAll ρ (s.entries fuel x (x :: path))
          = t.entries fuel' y (y :: path') := by
        refine SameKinds.entries_renumbered hs ht h hρ fuel fuel' hox hoy ?_ ?_ ?_ ?_
        · exact Nat.lt_of_lt_of_le hf
            (by rw [Nat.add_right_comm]; exact Nat.add_le_add_left hx fuel)
        · exact Nat.lt_of_lt_of_le hf'
            (by rw [Nat.add_right_comm]; exact Nat.add_le_add_left hy fuel')
        · exact List.forall_mem_cons.2
            ⟨Nat.le_refl x, fun z hz => Nat.le_trans (hpath z hz) (Nat.le_of_lt hx)⟩
        · exact List.forall_mem_cons.2
            ⟨Nat.le_refl y, fun z hz => Nat.le_trans (hpath' z hz) (Nat.le_of_lt hy)⟩
      rw [hprops, hbelow, ← hprops', Kind.renumber, hρ hox hoy, ← hk']
      rfl
    | _ =>
      have hsame : v.kind.renumber ρ = w.kind := by
        cases hw' : w.kind <;> simp_all [Kind.shape, Kind.renumber]
      have hnone : w.kind.object? = none := by
        rw [← hsame, hk]
        rfl
      rw [props_of_no_object s fuel path (by rw [hk]; rfl), ← hk, hsame, Entry.renumberAll,
        ← props_of_no_object t fuel' path' hnone]
      rfl

/-- Stores with notes of the same kinds have the same table, with objects numbered anew. -/
theorem SameKinds.snapshot_renumbered {s t : Store} (hs : s.Tidy) (ht : t.Tidy)
    (h : SameKinds s t) : ∃ ρ, Entry.renumberAll ρ s.snapshot = t.snapshot := by
  obtain ⟨ρ, hρ⟩ := exists_renumbers s t
  refine ⟨ρ, h.entries_renumbered hs ht hρ _ _ (show s.objectAlong? [] = some 0 from rfl)
    (show t.objectAlong? [] = some 0 from rfl) ?_ ?_ (by simp) (by simp)⟩
  · exact Nat.lt_succ_self _
  · exact Nat.lt_succ_self _

/-- Stores with notes of the same kinds have the same table, but for the numbers of objects. -/
theorem SameKinds.snapshot_shape {s t : Store} (hs : s.Tidy) (ht : t.Tidy) (h : SameKinds s t) :
    Entry.shapeAll s.snapshot = Entry.shapeAll t.snapshot := by
  obtain ⟨ρ, hρ⟩ := h.snapshot_renumbered hs ht
  rw [← hρ, Entry.shapeAll_renumberAll]

end Store

end Storyline.Variables
