import Mathlib.Data.List.Range
import Storyline.Outline.Basic

/-!
# The headers of documents as a forest

An outline is a flat list of headers that know their parents.  `sections` reads the same headers off
the documents as they are nested: a section is a header with the sections right below it.  Sections
are numbered in the order of reading, and the number of a section is the number of its header in the
outline (`node?_eq`); what is selected in the outline by parent is what stands right below a section
(`below_eq`).
-/

namespace Storyline.Outline

open Markup (Heading Block Document)

/-! ## Sections -/

/-- A header with the sections right below it. -/
structure Section where
  /-- The number of the header, counted from 1 in the order of reading. -/
  id : Nat
  /-- The number of the header it stands below; 0 at the top level. -/
  parent : Nat
  /-- Which of the documents it stands in, counted from 0. -/
  document : Nat
  file : FileId
  heading : Heading
  subs : List Section

namespace Section

/-- The title in canonical form. -/
def name (s : Section) : Bytes := canonical s.heading.title

/-- The header as it stands in an outline. -/
def node (s : Section) : Node := .ofHeading s.parent s.file s.document s.heading

end Section

mutual

/-- A section and everything below it, in the order of reading. -/
def Section.withBelow : Section → List Section
  | ⟨id, parent, document, file, heading, subs⟩ =>
    ⟨id, parent, document, file, heading, subs⟩ :: allSections subs

/-- Sections and everything below them, in the order of reading. -/
def allSections : List Section → List Section
  | [] => []
  | s :: rest => s.withBelow ++ allSections rest

end

mutual

/-- The section of a header, with the number `next`; other blocks are none. -/
def sectionOfBlock (parent next : Nat) (document : Nat) (file : FileId) : Block → List Section
  | .header h children =>
    [⟨next, parent, document, file, h, sectionsOfBlocks next (next + 1) document file children⟩]
  | .paragraph _ | .code _ | .choices .. | .divert _ | .branch .. => []

/-- The headers among some blocks, numbered from `next` on. -/
def sectionsOfBlocks (parent next : Nat) (document : Nat) (file : FileId) :
    List Block → List Section
  | [] => []
  | b :: bs =>
    let here := sectionOfBlock parent next document file b
    here ++ sectionsOfBlocks parent (next + (allSections here).length) document file bs

end

/-- The top-level sections of documents, of which the first one is the one with number
`document`. -/
def sectionsFrom (next : Nat) (document : Nat) : List Document → List Section
  | [] => []
  | d :: ds =>
    let here := sectionsOfBlocks 0 next document d.file d.blocks
    here ++ sectionsFrom (next + (allSections here).length) (document + 1) ds

/-- The top-level sections of documents. -/
def sections (ds : List Document) : List Section := sectionsFrom 1 0 ds

theorem allSections_cons (s : Section) (rest : List Section) :
    allSections (s :: rest) = s :: (allSections s.subs ++ allSections rest) := by
  cases s
  rfl

theorem allSections_append (ss ts : List Section) :
    allSections (ss ++ ts) = allSections ss ++ allSections ts := by
  induction ss with
  | nil => rfl
  | cons s ss ih => simp [allSections_cons, ih]

/-! ## Numbers -/

/-- Sections below one parent that are numbered from `next` on in the order of reading. -/
inductive Numbered : (parent next : Nat) → List Section → Prop
  | nil {parent next : Nat} : Numbered parent next []
  | cons {parent next : Nat} {s : Section} {rest : List Section} (id : s.id = next)
      (above : s.parent = parent) (subs : Numbered next (next + 1) s.subs)
      (after : Numbered parent (next + 1 + (allSections s.subs).length) rest) :
      Numbered parent next (s :: rest)

variable {parent next : Nat} {ss ts : List Section}

theorem Numbered.append (h : Numbered parent next ss)
    (h' : Numbered parent (next + (allSections ss).length) ts) :
    Numbered parent next (ss ++ ts) := by
  induction ss generalizing next with
  | nil => exact h'
  | cons s rest ih =>
    cases h with
    | cons id above subs after =>
      refine .cons id above subs (ih after ?_)
      convert h' using 1
      simp only [allSections_cons, List.length_cons, List.length_append]
      omega

mutual

theorem numbered_sectionOfBlock (parent next : Nat) (document : Nat) (file : FileId) :
    (b : Block) → Numbered parent next (sectionOfBlock parent next document file b)
  | .header _ children =>
    .cons rfl rfl (numbered_sectionsOfBlocks next (next + 1) document file children) .nil
  | .paragraph _ | .code _ | .choices .. | .divert _ | .branch .. => .nil

theorem numbered_sectionsOfBlocks (parent next : Nat) (document : Nat) (file : FileId) :
    (bs : List Block) → Numbered parent next (sectionsOfBlocks parent next document file bs)
  | [] => .nil
  | b :: bs => (numbered_sectionOfBlock parent next document file b).append
    (numbered_sectionsOfBlocks parent _ document file bs)

end

theorem numbered_sectionsFrom (next : Nat) (document : Nat) (ds : List Document) :
    Numbered 0 next (sectionsFrom next document ds) := by
  induction ds generalizing next document with
  | nil => exact .nil
  | cons d ds ih =>
    exact (numbered_sectionsOfBlocks 0 next document d.file d.blocks).append (ih _ _)

theorem numbered_sections (ds : List Document) : Numbered 0 1 (sections ds) :=
  numbered_sectionsFrom 1 0 ds

/-- Numbers are given in the order of reading, none left out. -/
theorem Numbered.ids (h : Numbered parent next ss) :
    (allSections ss).map (·.id) = List.range' next (allSections ss).length := by
  induction h with
  | nil => rfl
  | cons id _ _ _ ihSubs ihAfter =>
    rw [allSections_cons, List.map_cons, List.map_append, ihSubs, ihAfter, id, List.length_cons,
      List.length_append, List.range'_succ, List.range'_append_1]

theorem Numbered.id_bounds (h : Numbered parent next ss) {s : Section} (hs : s ∈ allSections ss) :
    next ≤ s.id ∧ s.id < next + (allSections ss).length := by
  have hmem : s.id ∈ (allSections ss).map (·.id) := List.mem_map_of_mem hs
  rw [h.ids, List.mem_range'_1] at hmem
  exact hmem

/-- A section stands below the common parent or below another section. -/
theorem Numbered.parent_bounds (h : Numbered parent next ss) {s : Section}
    (hs : s ∈ allSections ss) :
    s.parent = parent ∨ (next ≤ s.parent ∧ s.parent < next + (allSections ss).length) := by
  induction h with
  | nil => cases hs
  | cons id above _ _ ihSubs ihAfter =>
    rw [allSections_cons, List.mem_cons, List.mem_append] at hs
    simp only [allSections_cons, List.length_cons, List.length_append]
    rcases hs with rfl | hs | hs
    · exact .inl above
    · have := ihSubs hs
      omega
    · have := ihAfter hs
      omega

/-- A section has a greater number than the one it stands below. -/
theorem Numbered.parent_lt (h : Numbered parent next ss) (hlt : parent < next) {s : Section}
    (hs : s ∈ allSections ss) : s.parent < s.id := by
  induction h with
  | nil => cases hs
  | cons id above _ _ ihSubs ihAfter =>
    rw [allSections_cons, List.mem_cons, List.mem_append] at hs
    rcases hs with rfl | hs | hs
    · rwa [above, id]
    · exact ihSubs (Nat.lt_succ_self _) hs
    · exact ihAfter (by omega) hs

/-- No section has a parent outside of the numbers at hand. -/
theorem Numbered.filter_eq_nil (h : Numbered parent next ss) {id : Nat} (hne : id ≠ parent)
    (hout : id < next ∨ next + (allSections ss).length ≤ id) :
    (allSections ss).filter (·.parent = id) = [] := by
  rw [List.filter_eq_nil_iff]
  intro s hs hid
  have := h.parent_bounds hs
  have := of_decide_eq_true hid
  omega

/-- The sections right below the common parent. -/
theorem Numbered.filter_parent (h : Numbered parent next ss) (hlt : parent < next) :
    (allSections ss).filter (·.parent = parent) = ss := by
  induction h with
  | nil => rfl
  | cons id above subs after _ ihAfter =>
    rw [allSections_cons, List.filter_cons_of_pos (by simpa using above), List.filter_append,
      subs.filter_eq_nil (Nat.ne_of_lt hlt) (.inl (Nat.lt_succ_of_lt hlt)), ihAfter (by omega)]
    rfl

/-- The sections right below one of the sections. -/
theorem Numbered.filter_id (h : Numbered parent next ss) (hlt : parent < next) {s : Section}
    (hs : s ∈ allSections ss) : (allSections ss).filter (·.parent = s.id) = s.subs := by
  induction h with
  | nil => cases hs
  | @cons parent next t rest id above subs after ihSubs ihAfter =>
    have hhead (hne : s.id ≠ parent) : (allSections (t :: rest)).filter (·.parent = s.id)
        = (allSections t.subs).filter (·.parent = s.id)
          ++ (allSections rest).filter (·.parent = s.id) := by
      rw [allSections_cons, List.filter_cons_of_neg (by simpa [above] using hne.symm),
        List.filter_append]
    rw [allSections_cons, List.mem_cons, List.mem_append] at hs
    rcases hs with rfl | hs | hs
    · rw [hhead (by omega), id, subs.filter_parent (Nat.lt_succ_self _),
        after.filter_eq_nil (by omega) (.inl (by omega)), List.append_nil]
    · have := subs.id_bounds hs
      rw [hhead (by omega), ihSubs (Nat.lt_succ_self _) hs,
        after.filter_eq_nil (by omega) (.inl (by omega)), List.append_nil]
    · have := after.id_bounds hs
      rw [hhead (by omega), subs.filter_eq_nil (by omega) (.inr (by omega)),
        ihAfter (by omega) hs, List.nil_append]

/-! ## Sections and the outline -/

/-- An outline with the headers of some sections added. -/
def appended (o : Outline) (ss : List Section) : Outline :=
  { o with nodes := o.nodes ++ ((allSections ss).map Section.node).toArray }

theorem appended_append (o : Outline) (ss ts : List Section) :
    appended (appended o ss) ts = appended o (ss ++ ts) := by
  simp [appended, allSections_append]

theorem size_appended (o : Outline) (ss : List Section) :
    (appended o ss).nodes.size = o.nodes.size + (allSections ss).length := by
  simp [appended]

mutual

theorem insertBlock_eq (parent : Nat) (file : FileId) : (o : Outline) → (b : Block) →
    o.insertBlock parent file b
      = appended o (sectionOfBlock parent (o.nodes.size + 1) o.documents file b)
  | o, .header h children => by
    rw [insertBlock, insertBlocks_eq]
    simp [appended, sectionOfBlock, allSections_cons, allSections, Section.node]
  | _, .paragraph _ | _, .code _ | _, .choices .. | _, .divert _ | _, .branch .. => by
    simp [insertBlock, appended, sectionOfBlock, allSections]

theorem insertBlocks_eq (parent : Nat) (file : FileId) : (o : Outline) → (bs : List Block) →
    o.insertBlocks parent file bs
      = appended o (sectionsOfBlocks parent (o.nodes.size + 1) o.documents file bs)
  | _, [] => by simp [insertBlocks, appended, sectionsOfBlocks, allSections]
  | o, b :: bs => by
    rw [insertBlocks, insertBlock_eq, insertBlocks_eq, appended_append, size_appended,
      sectionsOfBlocks, Nat.add_right_comm]
    rfl

end

theorem foldl_add_eq (o : Outline) (ds : List Document) :
    (ds.foldl add o).nodes
      = (appended o (sectionsFrom (o.nodes.size + 1) o.documents ds)).nodes := by
  induction ds generalizing o with
  | nil => simp [appended, sectionsFrom, allSections]
  | cons d ds ih =>
    rw [List.foldl_cons, ih, add, insertBlocks_eq, sectionsFrom]
    simp only [size_appended, Nat.add_right_comm]
    simp [appended, allSections_append]

/-- The headers of an outline are those of its sections, in the order of reading. -/
theorem nodes_ofDocuments (ds : List Document) :
    (ofDocuments ds).nodes.toList = (allSections (sections ds)).map Section.node := by
  rw [ofDocuments, foldl_add_eq]
  simp [appended, sections]

variable {ds : List Document} {s : Section}

/-- Sections are numbered from 1 on in the order of reading. -/
theorem id_getElem {i : Nat} (hi : i < (allSections (sections ds)).length) :
    (allSections (sections ds))[i].id = i + 1 := by
  have hids := congrArg (fun l => l[i]?) (numbered_sections ds).ids
  simp only [List.getElem?_map, List.getElem?_eq_getElem hi, Option.map_some,
    List.getElem?_range' hi] at hids
  have := Option.some.inj hids
  omega

/-- The number of a section leads to its header. -/
theorem node?_eq (hs : s ∈ allSections (sections ds)) :
    (ofDocuments ds).node? s.id = some s.node := by
  obtain ⟨i, hi, rfl⟩ := List.mem_iff_getElem.mp hs
  rw [node?, id_getElem hi, if_neg (Nat.succ_ne_zero i), Nat.add_sub_cancel,
    ← Array.getElem?_toList, nodes_ofDocuments, List.getElem?_map, List.getElem?_eq_getElem hi]
  rfl

/-- What stands in the outline under a number is the header of a section. -/
theorem exists_section_of_node? {id : NodeId} {n : Node} (h : (ofDocuments ds).node? id = some n) :
    ∃ s ∈ allSections (sections ds), s.id = id ∧ s.node = n := by
  cases id with
  | zero => cases h
  | succ i =>
    rw [node?, if_neg (Nat.succ_ne_zero i), Nat.succ_sub_one, ← Array.getElem?_toList,
      nodes_ofDocuments, List.getElem?_map, Option.map_eq_some_iff] at h
    obtain ⟨s, hs, rfl⟩ := h
    obtain ⟨hi, rfl⟩ := List.getElem?_eq_some_iff.mp hs
    exact ⟨_, List.getElem_mem hi, id_getElem hi, rfl⟩

/-- The header above another one has the smaller number. -/
theorem parent_lt {id : NodeId} {n : Node} (h : (ofDocuments ds).node? id = some n) :
    n.parent < id := by
  obtain ⟨s, hs, rfl, rfl⟩ := exists_section_of_node? h
  exact (numbered_sections ds).parent_lt Nat.one_pos hs

theorem id_ne_zero (hs : s ∈ allSections (sections ds)) : s.id ≠ 0 := by
  have := (numbered_sections ds).id_bounds hs
  omega

theorem select_eq_filterMap (o : Outline) (p : Node → Bool) :
    o.select p = ((List.range o.nodes.size).map (· + 1)).filterMap fun id =>
      match o.node? id with
      | some n => if p n then some id else none
      | none => none := by
  rw [select, List.filterMap_map]
  rfl

/-- What is selected among the headers is selected among the sections. -/
theorem select_eq (ds : List Document) (p : Node → Bool) :
    (ofDocuments ds).select p
      = ((allSections (sections ds)).filter fun s => p s.node).map (·.id) := by
  have hlen : (ofDocuments ds).nodes.size = (allSections (sections ds)).length := by
    rw [← Array.length_toList, nodes_ofDocuments, List.length_map]
  have hids : (List.range (ofDocuments ds).nodes.size).map (· + 1)
      = (allSections (sections ds)).map (·.id) := by
    rw [(numbered_sections ds).ids, hlen, List.range'_eq_map_range]
    exact List.map_congr_left fun i _ => Nat.add_comm i 1
  rw [select_eq_filterMap, hids, List.filterMap_map, ← List.filterMap_eq_map, List.filterMap_filter]
  refine List.filterMap_congr fun s hs => ?_
  rw [Function.comp_apply, node?_eq hs]
  rfl

/-- The headers right below a section. -/
theorem below_eq (hs : s ∈ allSections (sections ds)) :
    (ofDocuments ds).below s.id = s.subs.map (·.id) := by
  rw [below, select_eq]
  congr 1
  exact (numbered_sections ds).filter_id Nat.one_pos hs

/-- The headers at the top level. -/
theorem below_zero (ds : List Document) :
    (ofDocuments ds).below 0 = (sections ds).map (·.id) := by
  rw [below, select_eq]
  congr 1
  exact (numbered_sections ds).filter_parent Nat.one_pos

/-- The headers at the top level of a file. -/
theorem rootsIn_file (ds : List Document) (file : FileId) :
    (ofDocuments ds).rootsIn .file file
      = ((sections ds).filter (·.file = file)).map (·.id) := by
  have hroots := (numbered_sections ds).filter_parent Nat.one_pos
  rw [rootsIn, select_eq]
  congr 1
  conv_rhs => rw [← hroots, List.filter_filter]
  refine List.filter_congr fun s _ => ?_
  exact Bool.and_comm _ _

end Storyline.Outline
