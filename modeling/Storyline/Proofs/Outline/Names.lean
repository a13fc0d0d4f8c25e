import Mathlib.Data.List.Nodup
import Storyline.Proofs.Outline.Sections

/-!
# Names on a level

The names of some headers are listed without repetitions, by their first places; a header is looked
up as the last one with its name.  The list and the search agree: what is listed is what is found
(`mem_namesOf_iff`).  Names are in canonical form, which stays as it is (`canonical_canonical`).
-/

namespace Storyline.Outline

open Markup (Document)

/-! ## Canonical form -/

theorem isLetter_lowerByte (b : UInt8) : Bytes.isLetter (Bytes.lowerByte b) = Bytes.isLetter b := by
  simp only [Bytes.isLetter, Bytes.lowerByte]
  grind

theorem lowerByte_lowerByte (b : UInt8) :
    Bytes.lowerByte (Bytes.lowerByte b) = Bytes.lowerByte b := by
  simp only [Bytes.lowerByte]
  grind

/-- What a byte of a title becomes stands for itself. -/
theorem canonicalByte?_eq_some {b c : UInt8} (h : canonicalByte? b = some c) :
    canonicalByte? c = some c := by
  rw [canonicalByte?] at h
  split at h
  · next hletter =>
    cases h
    rw [canonicalByte?, isLetter_lowerByte, lowerByte_lowerByte, if_pos hletter]
  · next hletter =>
    split at h
    · next hplain =>
      cases h
      rw [canonicalByte?, if_neg hletter, if_pos hplain]
    · split at h <;> cases h
      rfl

@[simp] theorem canonical_canonical (title : Bytes) :
    canonical (canonical title) = canonical title := by
  rw [canonical, canonical, List.filterMap_filterMap]
  refine List.filterMap_congr fun b _ => ?_
  cases hb : canonicalByte? b with
  | none => rfl
  | some c => exact canonicalByte?_eq_some hb

/-- Names do not have dots, which stand between the names of a path. -/
theorem dot_not_mem_canonical (title : Bytes) : ('.' : UInt8) ∉ canonical title := by
  rw [canonical, List.mem_filterMap]
  rintro ⟨b, -, hb⟩
  have hdot := canonicalByte?_eq_some hb
  cases hdot

/-! ## Lists of names -/

variable {ns : List Bytes} {n : Bytes}

theorem firstNames_concat (ns : List Bytes) (n : Bytes) : firstNames (ns ++ [n])
    = if n ∈ firstNames ns then firstNames ns else firstNames ns ++ [n] := by
  rw [firstNames, List.foldl_append, List.foldl_cons, List.foldl_nil, ← firstNames]
  simp only [List.contains_iff_mem]

@[simp] theorem mem_firstNames : n ∈ firstNames ns ↔ n ∈ ns := by
  induction ns using List.reverseRecOn with
  | nil => rfl
  | append_singleton ns m ih =>
    rw [firstNames_concat, List.mem_append, List.mem_singleton]
    split
    · next hm =>
      rw [ih, iff_self_or]
      rintro rfl
      exact ih.mp hm
    · rw [List.mem_append, List.mem_singleton, ih]

/-- Names are listed by their first places. -/
theorem pairwise_firstNames (ns : List Bytes) :
    (firstNames ns).Pairwise fun m n => ns.idxOf m < ns.idxOf n := by
  induction ns using List.reverseRecOn with
  | nil => exact .nil
  | append_singleton ns n ih =>
    have hbefore : (firstNames ns).Pairwise fun a b =>
        (ns ++ [n]).idxOf a < (ns ++ [n]).idxOf b := by
      refine ih.imp_of_mem fun ha hb hlt => ?_
      rwa [List.idxOf_append_of_mem (mem_firstNames.mp ha),
        List.idxOf_append_of_mem (mem_firstNames.mp hb)]
    rw [firstNames_concat]
    split
    · exact hbefore
    · next hnew =>
      rw [mem_firstNames] at hnew
      refine List.pairwise_append.mpr ⟨hbefore, List.pairwise_singleton _ _, fun a ha b hb => ?_⟩
      have ha := mem_firstNames.mp ha
      rw [List.mem_singleton.mp hb, List.idxOf_append_of_mem ha,
        List.idxOf_append_of_notMem hnew]
      exact Nat.lt_of_lt_of_le (List.idxOf_lt_length_of_mem ha) (Nat.le_add_right _ _)

theorem nodup_firstNames (ns : List Bytes) : (firstNames ns).Nodup :=
  (pairwise_firstNames ns).imp fun hlt heq => Nat.ne_of_lt hlt (congrArg (ns.idxOf ·) heq)

/-! ## The names of headers -/

variable {o : Outline} {ids : List NodeId} {id : NodeId}

theorem mem_namesOf :
    n ∈ o.namesOf ids ↔ ∃ id ∈ ids, ∃ node, o.node? id = some node ∧ node.name = n := by
  simp only [namesOf, List.mem_filterMap, Option.map_eq_some_iff]

/-- The names of some headers are those under which one of them is found. -/
theorem mem_namesOf_iff : n ∈ o.namesOf ids ↔ ∃ id, o.lastNamed? ids n = some id := by
  rw [← Option.isSome_iff_exists, lastNamed?, List.find?_isSome, mem_namesOf]
  simp only [List.mem_reverse, Option.any_eq_true, decide_eq_true_iff]

theorem mem_rootNames_iff : n ∈ o.rootNames ↔ ∃ id, o.root? n = some id := by
  rw [rootNames, root?, mem_firstNames, mem_namesOf_iff]

theorem mem_childNames_iff : n ∈ o.childNames id ↔ ∃ next, o.child? id n = some next := by
  rw [childNames, child?]
  split
  · simp
  · rw [mem_firstNames, mem_namesOf_iff]

theorem exists_mem_namesOf_of_mem_childNames (h : n ∈ o.childNames id) :
    ∃ ids, n ∈ o.namesOf ids := by
  rw [childNames] at h
  split at h
  · cases h
  · exact ⟨_, mem_firstNames.mp h⟩

theorem nodup_childNames (o : Outline) (id : NodeId) : (o.childNames id).Nodup := by
  rw [childNames]
  split
  · exact List.nodup_nil
  · exact nodup_firstNames _

/-! ## Headers under their names -/

variable {next : NodeId}

theorem node?_bounds {id : Nat} {node : Node} (h : o.node? id = some node) :
    0 < id ∧ id ≤ o.nodes.size := by
  cases id with
  | zero => cases h
  | succ i =>
    rw [node?, if_neg (Nat.succ_ne_zero i), Nat.add_sub_cancel] at h
    exact ⟨Nat.succ_pos i, (Array.getElem?_eq_some_iff.mp h).1⟩

theorem mem_select {id : Nat} {p : Node → Bool} :
    id ∈ o.select p ↔ ∃ node, o.node? id = some node ∧ p node = true := by
  rw [select_eq_filterMap, List.mem_filterMap]
  constructor
  · rintro ⟨i, -, hi⟩
    split at hi
    · next node hnode =>
      split at hi <;> cases hi
      exact ⟨node, hnode, ‹_›⟩
    · cases hi
  · rintro ⟨node, hnode, hp⟩
    obtain ⟨hpos, hle⟩ := node?_bounds hnode
    have hlt : id - 1 < o.nodes.size := Nat.sub_one_lt_of_le hpos hle
    refine ⟨id, List.mem_map.mpr ⟨id - 1, List.mem_range.mpr hlt, Nat.sub_add_cancel hpos⟩, ?_⟩
    rw [hnode]
    exact if_pos hp

/-- The header that is found under a name on a level stands there and has the name. -/
theorem node?_of_lastNamed? {parent : NodeId} (h : o.lastNamed? (o.below parent) n = some id) :
    ∃ node, o.node? id = some node ∧ node.parent = parent ∧ node.name = n := by
  rw [lastNamed?] at h
  obtain ⟨node, hnode, hparent⟩ := mem_select.mp (List.mem_reverse.mp (List.mem_of_find?_eq_some h))
  have hname := List.find?_some h
  rw [hnode] at hname
  exact ⟨node, hnode, of_decide_eq_true hparent, of_decide_eq_true hname⟩

theorem node?_of_root? (h : o.root? n = some id) :
    ∃ node, o.node? id = some node ∧ node.parent = 0 ∧ node.name = n :=
  node?_of_lastNamed? h

theorem node?_of_child? (h : o.child? id n = some next) :
    ∃ node, o.node? next = some node ∧ node.parent = id ∧ node.name = n := by
  rw [child?] at h
  split at h
  · cases h
  · exact node?_of_lastNamed? h

/-! ## The headers of documents -/

variable {ds : List Document}

/-- The headers of documents have names in canonical form. -/
theorem canonical_name {node : Node} (h : (ofDocuments ds).node? id = some node) :
    canonical node.name = node.name := by
  obtain ⟨s, -, -, rfl⟩ := exists_section_of_node? h
  exact canonical_canonical _

theorem canonical_of_mem_namesOf (h : n ∈ (ofDocuments ds).namesOf ids) : canonical n = n := by
  obtain ⟨id, -, node, hnode, rfl⟩ := mem_namesOf.mp h
  exact canonical_name hnode

end Storyline.Outline
