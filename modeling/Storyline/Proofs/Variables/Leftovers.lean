import Mathlib.Data.List.Nodup
import Mathlib.Data.List.Perm.Subperm
import Storyline.Proofs.Variables.Changes
import Storyline.Proofs.Variables.Table

/-!
# What a dropped file leaves behind

Dropping a file takes back its assignments and nothing else: the variables and objects that its
scripts made stay.  `Padded` says that one store is another one with such leftovers.  Whatever a
file does, dropping it leaves the store padded (`runAll_padded`), since each change is a variable
without assignments, an object, or an assignment that goes with the file.

Nothing that a store shows has leftovers in it.  A snapshot passes over variables without
assignments, and the objects that it goes through are those that assignments refer to; conflicts
take two assignments; a name leads through owners that were there before.  So folding the scripts of
a file and dropping it shows nothing (`dropped_file_shows_nothing`).
-/

namespace Storyline.Variables.Store

/-! ## Stores by what they hold -/

/-- A store is known from its variables and the homes of its objects. -/
theorem ext_get? {s t : Store} (hget : ∀ id, s.get? id = t.get? id) (hhomes : s.homes = t.homes) :
    s = t := by
  have hvars : s.vars = t.vars := by
    apply Array.ext_getElem?
    intro i
    have hi := hget (i + 1)
    rwa [get?_succ, get?_succ] at hi
  obtain ⟨tables, vars, homes, ids, htables, hids⟩ := s
  obtain ⟨tables', vars', homes', ids', htables', hids'⟩ := t
  obtain rfl : vars = vars' := hvars
  obtain rfl : homes = homes' := hhomes
  obtain rfl : tables = tables' := htables.trans htables'.symm
  obtain rfl : ids = ids' := hids.trans hids'.symm
  rfl

/-- Whether a file assigns nothing. -/
def LacksFile (s : Store) (file : FileId) : Prop :=
  ∀ v ∈ s.vars, ∀ a ∈ v.assignments, a.origin ≠ file

instance (s : Store) (file : FileId) : Decidable (s.LacksFile file) :=
  inferInstanceAs (Decidable (∀ v ∈ s.vars, ∀ a ∈ v.assignments, a.origin ≠ file))

theorem removeOrigin_eq_self {s : Store} {file : FileId} (h : s.LacksFile file) :
    s.removeOrigin file = s := by
  apply ext_get?
  · intro id
    rw [get?_removeOrigin]
    cases hv : s.get? id with
    | none => rfl
    | some v =>
      have hall : v.assignments.filter (fun a => a.origin != file) = v.assignments := by
        rw [List.filter_eq_self]
        intro a ha
        exact bne_iff_ne.2 (h v (mem_vars_iff.2 ⟨id, hv⟩) a ha)
      rw [Option.map_some, hall]
  · rfl

theorem lacksFile_removeOrigin (s : Store) (file : FileId) :
    (s.removeOrigin file).LacksFile file := by
  intro w hw a ha
  obtain ⟨id, hw⟩ := mem_vars_iff.1 hw
  rw [get?_removeOrigin] at hw
  obtain ⟨v, -, rfl⟩ := Option.map_eq_some_iff.1 hw
  exact bne_iff_ne.1 (List.mem_filter.1 ha).2

/-! ## Leftovers -/

/-- A store with all that another one has, and beyond that nothing but objects and variables
without assignments. -/
structure Padded (s t : Store) : Prop where
  vars : ∀ {id v}, s.get? id = some v → t.get? id = some v
  homes : ∀ {o id}, s.home? o = some id → t.home? o = some id
  bare : ∀ {id w}, t.get? id = some w → s.get? id = none → w.assignments = []

theorem Padded.refl (s : Store) : Padded s s where
  vars := fun hv => hv
  homes := fun ho => ho
  bare := fun hw hnone => by simp [hnone] at hw

theorem Padded.extends {s t : Store} (h : Padded s t) : Extends s t :=
  ⟨fun hv => ⟨_, h.vars hv, rfl, rfl⟩, h.homes⟩

/-- A variable of the padded store is one of the store, or it has no assignments. -/
theorem Padded.get? {s t : Store} (h : Padded s t) {id : VarId} {w : Variable}
    (hw : t.get? id = some w) : s.get? id = some w ∨ s.get? id = none ∧ w.assignments = [] := by
  cases hv : s.get? id with
  | none => exact .inr ⟨rfl, h.bare hw hv⟩
  | some v =>
    have hvw : v = w := Option.some.inj ((h.vars hv).symm.trans hw)
    exact .inl (by rw [hvw])

theorem Padded.trans {s t u : Store} (h : Padded s t) (h' : Padded t u) : Padded s u where
  vars := fun hv => h'.vars (h.vars hv)
  homes := fun ho => h'.homes (h.homes ho)
  bare := by
    intro id w hw hnone
    obtain ht | ⟨-, hnil⟩ := h'.get? hw
    · exact h.bare ht hnone
    · exact hnil

/-! ## Dropping a file leaves leftovers -/

theorem removeOrigin_assign {s : Store} {id : VarId} (h0 : id ≠ 0) {a : Assignment} {file : FileId}
    (ha : a.origin = file) : (s.assign id a).removeOrigin file = s.removeOrigin file := by
  apply ext_get?
  · intro j
    rw [get?_removeOrigin, get?_removeOrigin, get?_assign h0, Option.map_map]
    apply Option.map_congr
    intro v _
    rw [Function.comp_apply]
    split
    · simp [ha]
    · rfl
  · rfl

/-- A change that a file makes is a leftover once the file is dropped. -/
theorem Change.padded {file : FileId} {s t : Store} (h : Change file s t) :
    Padded (s.removeOrigin file) (t.removeOrigin file) := by
  cases h with
  | @declare o n ho hn =>
    have hget (j : VarId) : ((s.grown o n).removeOrigin file).get? j
        = if j = s.vars.size + 1 then some { name := n, owner := o }
          else (s.removeOrigin file).get? j := by
      rw [get?_removeOrigin, get?_removeOrigin, get?_grown]
      split <;> rfl
    have hnext : (s.removeOrigin file).get? (s.vars.size + 1) = none := by
      rw [get?_removeOrigin, get?_succ]
      simp
    refine ⟨fun {id v} hv => ?_, fun ho => ho, fun {id w} hw hnone => ?_⟩
    · have hne : id ≠ s.vars.size + 1 := by
        rintro rfl
        simp [hnext] at hv
      rw [hget, if_neg hne, hv]
    · rw [hget] at hw
      split at hw
      · rw [← Option.some.inj hw]
      · simp [hnone] at hw
  | @house id v hv ho =>
    refine ⟨fun hw => hw, (extends_housed s id).homes, fun {j w} hw hnone => ?_⟩
    have hw : (s.removeOrigin file).get? j = some w := hw
    simp [hnone] at hw
  | @assign id v a hv ha hk hr =>
    rw [removeOrigin_assign (ne_zero_of_get? hv) ha]
    exact .refl _

theorem Changes.padded {file : FileId} {s t : Store} (h : Changes file s t) :
    Padded (s.removeOrigin file) (t.removeOrigin file) := by
  induction h with
  | refl => exact .refl _
  | tail _ hc ih => exact ih.trans hc.padded

theorem foldAll_padded {file : FileId} : (fs : List Fragment) → (∀ f ∈ fs, f.file = file) →
    {s : Store} → s.Sound →
    (s.foldAll fs).2.Sound ∧ Padded (s.removeOrigin file) ((s.foldAll fs).2.removeOrigin file)
  | [], _, s, hs => ⟨hs, .refl _⟩
  | f :: fs, hfs, s, hs => by
    have hf : f.file = file := hfs f (by simp)
    have hc : Changes file s (s.fold f).2 := hf ▸ fold_changes hs f
    obtain ⟨ht, hrest⟩ := foldAll_padded fs (fun g hg => hfs g (by simp [hg])) (hc.sound hs)
    exact ⟨ht, hc.padded.trans hrest⟩

/-- Whether an operation is about one file only. -/
def Operation.Concerns (file : FileId) : Operation → Prop
  | .fold f => f.file = file
  | .replace g fs => g = file ∧ ∀ f ∈ fs, f.file = file
  | .removeOrigin g => g = file

theorem Operation.Concerns.run_padded {file : FileId} {op : Operation} (h : op.Concerns file)
    {s : Store} (hs : s.Sound) :
    (op.run s).Sound ∧ Padded (s.removeOrigin file) ((op.run s).removeOrigin file) := by
  have hagain : (s.removeOrigin file).removeOrigin file = s.removeOrigin file :=
    removeOrigin_eq_self (lacksFile_removeOrigin s file)
  cases op with
  | fold f =>
    have hc : Changes file s (s.fold f).2 := h ▸ fold_changes hs f
    exact ⟨hc.sound hs, hc.padded⟩
  | replace g fs =>
    obtain ⟨rfl, hfs⟩ := h
    obtain ⟨ht, hp⟩ := foldAll_padded fs hfs (hs.removeOrigin g)
    rw [hagain] at hp
    exact ⟨ht, hp⟩
  | removeOrigin g =>
    obtain rfl : g = file := h
    refine ⟨hs.removeOrigin g, ?_⟩
    show Padded _ ((s.removeOrigin g).removeOrigin g)
    rw [hagain]
    exact .refl _

/-- Whatever operations of a file do, they leave nothing but leftovers once it is dropped. -/
theorem runAll_padded {file : FileId} : (ops : List Operation) → (∀ op ∈ ops, op.Concerns file) →
    {s : Store} → s.Sound → (ops.foldl Operation.run s).Sound ∧
      Padded (s.removeOrigin file) ((ops.foldl Operation.run s).removeOrigin file)
  | [], _, s, hs => ⟨hs, .refl _⟩
  | op :: ops, hops, s, hs => by
    obtain ⟨ht, hp⟩ := (hops op (by simp)).run_padded hs
    obtain ⟨hu, hrest⟩ := runAll_padded ops (fun o ho => hops o (by simp [ho])) ht
    exact ⟨hu, hp.trans hrest⟩

/-! ## Leftovers are not shown -/

section Shown

variable {s t : Store} (h : Padded s t)

include h

theorem Padded.mem_listed_iff (hs : s.WellFormed) (ht : t.WellFormed) {o : ObjectId}
    {v : Variable} : v ∈ t.listed o ↔ v ∈ s.listed o := by
  rw [mem_listed hs, mem_listed ht]
  constructor
  · rintro ⟨⟨id, hv⟩, ho, hne⟩
    obtain hv | ⟨-, hnil⟩ := h.get? hv
    · exact ⟨⟨id, hv⟩, ho, hne⟩
    · exact absurd hnil hne
  · rintro ⟨⟨id, hv⟩, ho, hne⟩
    exact ⟨⟨id, h.vars hv⟩, ho, hne⟩

/-- The assigned variables of every owner are the same. -/
theorem Padded.listed_eq (hs : s.WellFormed) (ht : t.WellFormed) (o : ObjectId) :
    t.listed o = s.listed o := by
  have hnames : (t.listed o).map (·.name) = (s.listed o).map (·.name) := by
    apply Bytes.names_eq (pairwise_names_listed t o) (pairwise_names_listed s o)
      (nodup_names_listed ht o) (nodup_names_listed hs o)
    intro n
    simp only [List.mem_map, h.mem_listed_iff hs ht]
  have hsame : (t.listed o).map (fun v => v) = (s.listed o).map (fun v => v) := by
    apply map_eq_of_names hnames
    -- a name stands for one variable of an owner
    intro v hv w hw hname
    have hv := (h.mem_listed_iff hs ht).1 hv
    exact List.inj_on_of_nodup_map (nodup_names_listed hs o) hv hw hname
  simpa using hsame

/-- The tables below an owner are the same.  The objects around it are distinct, so both tables end
before their fuel does. -/
theorem Padded.entries_eq (hs : s.Sound) (ht : t.WellFormed) : (fuel fuel' : Nat) →
    (o : ObjectId) → (path : List ObjectId) → path.Nodup → path ⊆ List.range' 1 s.homes.size →
    s.homes.size < fuel + path.length → s.homes.size < fuel' + path.length →
    t.entries fuel' o path = s.entries fuel o path := by
  have hshort {path : List ObjectId} (hnd : path.Nodup)
      (hsub : path ⊆ List.range' 1 s.homes.size) : path.length ≤ s.homes.size := by
    simpa using (hnd.subperm hsub).length_le
  -- By induction on the fuel of one side, for any fuel of the other that lasts as well: both are
  -- bounded by the objects that are not on the path.
  intro fuel
  induction fuel with
  | zero =>
    intro fuel' o path hnd hsub hf hf'
    have := hshort hnd hsub
    omega
  | succ fuel ih =>
    intro fuel' o path hnd hsub hf hf'
    cases fuel' with
    | zero =>
      have := hshort hnd hsub
      omega
    | succ fuel' =>
      rw [entries_succ, entries_succ, h.listed_eq hs.toWellFormed ht]
      apply List.map_congr_left
      intro v hv
      obtain ⟨⟨id, hv⟩, -, -⟩ := get?_of_mem_listed hv
      unfold entryOf
      congr 1
      cases hk : v.kind.object? with
      | none => rfl
      | some x =>
        -- an object that is on the path is not entered again, on either side
        by_cases hin : x ∈ path
        · simp [hin]
        · have hx : x ∈ List.range' 1 s.homes.size := by
            have hkind : s.kindOf id = .object x := by
              have : s.kindOf id = v.kind := by simp [kindOf, hv]
              rw [this]
              cases hvk : v.kind <;> simp_all [Kind.object?]
            obtain ⟨home, hh⟩ := hs.knows_kindOf id x hkind
            rw [List.mem_range'_1]
            exact ⟨Nat.pos_of_ne_zero (ne_zero_of_home? hh),
              Nat.lt_one_add_iff.2 (le_size_of_home? hh)⟩
          simp only [List.contains_iff_mem, hin, if_false]
          apply ih
          · exact List.nodup_cons.2 ⟨hin, hnd⟩
          · exact List.cons_subset.2 ⟨hx, hsub⟩
          · rw [List.length_cons]
            omega
          · rw [List.length_cons]
            omega

theorem Padded.size_homes_le : s.homes.size ≤ t.homes.size := by
  cases hn : s.homes.size with
  | zero => exact Nat.zero_le _
  | succ n =>
    obtain ⟨id, hid⟩ : ∃ id, s.homes[n]? = some id := ⟨s.homes[n], by simp [hn]⟩
    exact le_size_of_home? (h.homes ((home?_succ s n).trans hid))

theorem Padded.size_vars_le : s.vars.size ≤ t.vars.size := by
  cases hn : s.vars.size with
  | zero => exact Nat.zero_le _
  | succ n =>
    obtain ⟨v, hv⟩ : ∃ v, s.vars[n]? = some v := ⟨s.vars[n], by simp [hn]⟩
    exact le_size_of_get? (h.vars ((get?_succ s n).trans hv))

/-- Leftovers are in no snapshot. -/
theorem Padded.snapshot_eq (hs : s.Sound) (ht : t.WellFormed) : t.snapshot = s.snapshot := by
  apply h.entries_eq hs ht
  · exact List.nodup_nil
  · exact List.nil_subset _
  · simp
  · have := h.size_homes_le
    simp
    omega

/-- Leftovers are in no conflict. -/
theorem Padded.conflicts_eq : t.conflicts = s.conflicts := by
  obtain ⟨k, hk⟩ := Nat.exists_eq_add_of_le h.size_vars_le
  unfold conflicts
  rw [hk, List.range_add, List.map_append, List.filterMap_append]
  have hnew : (((List.range k).map (s.vars.size + ·)).map (· + 1)).filterMap (fun id =>
      (t.get? id).bind fun v => if v.isConflicted then some (id, v) else none) = [] := by
    rw [List.filterMap_eq_nil_iff]
    intro id hid
    obtain ⟨j, hj, rfl⟩ : ∃ j, j < k ∧ s.vars.size + j + 1 = id := by simpa using hid
    cases hw : t.get? (s.vars.size + j + 1) with
    | none => rfl
    | some w =>
      have hnone : s.get? (s.vars.size + j + 1) = none := by simp [get?_succ]
      simp [Variable.isConflicted, h.bare hw hnone]
  rw [hnew, List.append_nil]
  apply List.filterMap_congr
  intro id hid
  obtain ⟨i, hi, rfl⟩ : ∃ i, i < s.vars.size ∧ i + 1 = id := by simpa using hid
  have hv : s.get? (i + 1) = some s.vars[i] := by simp [get?_succ, hi]
  rw [hv, h.vars hv]

/-- Leftovers are in no name. -/
theorem Padded.fullName_eq (hs : s.WellFormed) (ht : t.WellFormed) {id : VarId} {v : Variable}
    (hv : s.get? id = some v) : t.fullName id = s.fullName id := by
  obtain ⟨p, hp⟩ := exists_along? hs id hv
  rw [Store.fullName_eq hs hp, Store.fullName_eq ht (h.extends.along? ht hp)]

end Shown

/-- The variables in conflict, with their names. -/
def namedConflicts (s : Store) : List (VarId × Bytes × Variable) :=
  s.conflicts.map fun c => (c.1, s.fullName c.1, c.2)

theorem get?_of_mem_conflicts {s : Store} {c : VarId × Variable} (hc : c ∈ s.conflicts) :
    s.get? c.1 = some c.2 := by
  obtain ⟨id, -, hid⟩ := List.mem_filterMap.1 hc
  obtain ⟨v, hv, hif⟩ := Option.bind_eq_some_iff.1 hid
  split at hif
  · rw [← Option.some.inj hif]
    exact hv
  · simp at hif

theorem Padded.namedConflicts_eq {s t : Store} (h : Padded s t) (hs : s.WellFormed)
    (ht : t.WellFormed) : t.namedConflicts = s.namedConflicts := by
  unfold namedConflicts
  rw [h.conflicts_eq]
  apply List.map_congr_left
  intro c hc
  rw [h.fullName_eq hs ht (get?_of_mem_conflicts hc)]

/-- Operations of a file that assigned nothing, followed by dropping it, show nothing: the snapshot
and the conflicts are what they were, and so is every variable. -/
theorem dropped_file_shows_nothing (ops : List Operation) {file : FileId}
    (hlacks : (after ops).LacksFile file) (later : List Operation)
    (hlater : ∀ op ∈ later, op.Concerns file) :
    (after (ops ++ later ++ [.removeOrigin file])).snapshot = (after ops).snapshot ∧
      (after (ops ++ later ++ [.removeOrigin file])).namedConflicts
        = (after ops).namedConflicts ∧
      ∀ id v, (after ops).get? id = some v →
        (after (ops ++ later ++ [.removeOrigin file])).get? id = some v := by
  have hs := sound_after ops
  obtain ⟨ht, hp⟩ := runAll_padded later hlater hs
  rw [removeOrigin_eq_self hlacks] at hp
  have hafter : after (ops ++ later ++ [.removeOrigin file])
      = (later.foldl Operation.run (after ops)).removeOrigin file := by
    simp [after, List.foldl_append, Operation.run]
  have ht' := (ht.removeOrigin file).toWellFormed
  rw [hafter]
  exact ⟨hp.snapshot_eq hs ht', hp.namedConflicts_eq hs.toWellFormed ht', fun id v hv => hp.vars hv⟩

/-- The file 1 folds `a.b = 1`. -/
def resident : List Operation :=
  let span : Span := ⟨0, 0, 0⟩
  [.fold ⟨1, 0, [.binary span (.symbol .assign) (.member span (.identifier span "a") "b" span)
    (.literal span .number "1" "1")]⟩]

open Script (Expr) in
/-- A script of the file 2, which takes up variables of the file 1: `c = a`, `c.d.e = "x"` and
`a = "x"`. -/
def visit : Fragment :=
  let span : Span := ⟨0, 0, 0⟩
  let name (n : Bytes) : Expr := .identifier span n
  let dot (x : Expr) (n : Bytes) : Expr := .member span x n span
  let assign (target value : Expr) : Expr := .binary span (.symbol .assign) target value
  let text : Expr := .literal span .string "x" "x"
  ⟨2, 0, [assign (name "c") (name "a"), assign (dot (dot (name "c") "d") "e") text,
    assign (name "a") text]⟩

/-- The file 2 comes, is replaced, and comes again. -/
def visits : List Operation := [.fold visit, .replace 2 [visit, visit], .fold visit]

/-- The visits leave variables behind, and do not show. -/
theorem dropped_visits_show_nothing :
    after (resident ++ visits ++ [.removeOrigin 2]) ≠ after resident ∧
      (after (resident ++ visits ++ [.removeOrigin 2])).snapshot = (after resident).snapshot ∧
      (after (resident ++ visits ++ [.removeOrigin 2])).namedConflicts
        = (after resident).namedConflicts ∧
      ∀ id v, (after resident).get? id = some v →
        (after (resident ++ visits ++ [.removeOrigin 2])).get? id = some v :=
  ⟨by decide +kernel, dropped_file_shows_nothing resident (by decide +kernel) visits
    (by simp [visits, visit, Operation.Concerns])⟩

end Storyline.Variables.Store
