import Mathlib.Data.List.Nodup
import Storyline.Proofs.Markup.HeaderOrder
import Storyline.Proofs.Outline.Resolution

/-!
# Headers and their nodes

The node of a header has the number of the header in the order of reading, counted from 1.  Among
the headers right below it the last one with a name is what the outline finds under that name
(`child?_eq_some`), and its number is told by how many headers are read before it.  A header is
looked up by the place where it starts (`nodeOf?_eq`), which is its own in parsed files.
-/

namespace Storyline

namespace Markup

/-! ## The order of reading -/

mutual

/-- Behind a header its own headers are listed, before all others. -/
theorem headersOf_split {g : Heading} {children : List Block} : (b : Block) → {k : Nat} →
    (headersOf b)[k]? = some (g, children) → ∃ before after,
      headersOf b = before ++ (g, children) :: (headersIn children ++ after) ∧ before.length = k
  | .header h below, 0, hk => by
    cases hk
    exact ⟨[], [], by simp [headersOf], rfl⟩
  | .header h below, k + 1, hk => by
    obtain ⟨before, after, heq, hlen⟩ := headersIn_split below (k := k) hk
    exact ⟨(h, below) :: before, after, by rw [headersOf, heq]; rfl, by simp [hlen]⟩
  | .paragraph _, _, hk | .code _, _, hk | .choices .., _, hk | .divert _, _, hk
  | .branch .., _, hk => by simp [headersOf] at hk

theorem headersIn_split {g : Heading} {children : List Block} : (bs : List Block) → {k : Nat} →
    (headersIn bs)[k]? = some (g, children) → ∃ before after,
      headersIn bs = before ++ (g, children) :: (headersIn children ++ after) ∧ before.length = k
  | [], _, hk => by simp [headersIn] at hk
  | b :: bs, k, hk => by
    rw [headersIn, List.getElem?_append] at hk
    split at hk
    · obtain ⟨before, after, heq, hlen⟩ := headersOf_split b hk
      exact ⟨before, after ++ headersIn bs, by simp [headersIn, heq], hlen⟩
    · next hge =>
      obtain ⟨before, after, heq, hlen⟩ := headersIn_split bs hk
      refine ⟨headersOf b ++ before, after, by simp [headersIn, heq], ?_⟩
      rw [List.length_append, hlen]
      omega

end

/-- The last header with a name right among some blocks; `before` are the blocks in front of it. -/
structure LastHeader (bs : List Block) (name : Bytes) (before : List Block) (h : Heading)
    (children : List Block) : Prop where
  named : Outline.canonical h.title = name
  split : ∃ after, bs = before ++ .header h children :: after ∧
    ∀ g below, .header g below ∈ after → Outline.canonical g.title ≠ name

/-- Either there is a last header with a name or none has it. -/
theorem lastHeader_or (bs : List Block) (name : Bytes) :
    (∃ before h children, LastHeader bs name before h children) ∨
      ∀ h children, .header h children ∈ bs → Outline.canonical h.title ≠ name := by
  induction bs with
  | nil => exact .inr fun _ _ hmem => nomatch hmem
  | cons b bs ih =>
    rcases ih with ⟨before, h, children, hname, after, rfl, hafter⟩ | hnone
    · exact .inl ⟨b :: before, h, children, hname, after, rfl, hafter⟩
    · by_cases hb : ∃ h children, b = .header h children ∧ Outline.canonical h.title = name
      · obtain ⟨h, children, rfl, hname⟩ := hb
        exact .inl ⟨[], h, children, hname, bs, rfl, hnone⟩
      · refine .inr fun h children hmem hname => ?_
        rcases List.mem_cons.mp hmem with rfl | hmem
        · exact hb ⟨h, children, rfl, hname⟩
        · exact hnone h children hmem hname

/-- The names of the headers right among some blocks, in order. -/
def headerNames (bs : List Block) : List Bytes :=
  (bs.filterMap Block.heading?).map fun h => Outline.canonical h.title

theorem mem_headerNames {bs : List Block} {name : Bytes} : name ∈ headerNames bs ↔
    ∃ h children, .header h children ∈ bs ∧ Outline.canonical h.title = name := by
  simp only [headerNames, List.mem_map, List.mem_filterMap]
  constructor
  · rintro ⟨h, ⟨b, hb, hh⟩, hname⟩
    cases b with
    | header g children =>
      cases hh
      exact ⟨_, children, hb, hname⟩
    | paragraph | code | choices | divert | branch => cases hh
  · rintro ⟨h, children, hb, hname⟩
    exact ⟨h, ⟨_, hb, rfl⟩, hname⟩

end Markup

namespace Outline

open Markup

/-! ## The headers of documents -/

/-- The headers of documents that are reached through headers, in the order of reading, each with
the number of its document; the first document has the number `document`. -/
def headersFrom (document : Nat) : List Document → List (Nat × Heading × List Block)
  | [] => []
  | d :: ds => (headersIn d.blocks).map (document, ·) ++ headersFrom (document + 1) ds

/-- The headers of documents that are reached through headers, in the order of reading. -/
def headers (ds : List Document) : List (Nat × Heading × List Block) := headersFrom 0 ds

theorem headersFrom_eq (document : Nat) (ds : List Document) :
    headersFrom document ds
      = (ds.zipIdx document).flatMap fun d => (headersIn d.1.blocks).map (d.2, ·) := by
  induction ds generalizing document with
  | nil => rfl
  | cons d ds ih => simp [headersFrom, ih]

/-- The headers of documents are the headers of each of them. -/
theorem mem_headers {ds : List Document} {i : Nat} {h : Heading} {children : List Block} :
    (i, h, children) ∈ headers ds ↔ ∃ d, ds[i]? = some d ∧ Reached d.blocks h children := by
  simp only [headers, headersFrom_eq, List.mem_flatMap, List.mem_map, Prod.mk.injEq,
    Prod.exists, List.mem_zipIdx_iff_getElem?, ← mem_headersIn]
  constructor
  · rintro ⟨d, j, hd, h', children', hmem, rfl, rfl, rfl⟩
    exact ⟨d, hd, hmem⟩
  · rintro ⟨d, hd, hmem⟩
    exact ⟨d, i, hd, h, children, hmem, rfl, rfl, rfl⟩

/-- Behind a header its own headers are listed, before all others. -/
theorem headers_split {ds : List Document} {k i : Nat} {h : Heading} {children : List Block}
    (hk : (headers ds)[k]? = some (i, h, children)) : ∃ before after,
      headers ds = before ++ (i, h, children) :: ((headersIn children).map (i, ·) ++ after) ∧
        before.length = k := by
  rw [headers] at hk ⊢
  generalize 0 = document at hk ⊢
  induction ds generalizing document k with
  | nil => simp [headersFrom] at hk
  | cons d ds ih =>
    rw [headersFrom, List.getElem?_append] at hk
    split at hk
    · rw [List.getElem?_map, Option.map_eq_some_iff] at hk
      obtain ⟨p, hp, heq⟩ := hk
      obtain ⟨rfl, rfl⟩ := Prod.mk.inj heq
      obtain ⟨before, after, heq, hlen⟩ := headersIn_split d.blocks hp
      refine ⟨before.map (document, ·),
        after.map (document, ·) ++ headersFrom (document + 1) ds, ?_, by simp [hlen]⟩
      simp [headersFrom, heq]
    · next hge =>
      obtain ⟨before, after, heq, hlen⟩ := ih (document + 1) hk
      refine ⟨(headersIn d.blocks).map (document, ·) ++ before, after, ?_, ?_⟩
      · simp [headersFrom, heq]
      · rw [List.length_append, hlen]
        omega

/-! ## Headers and sections -/

/-- A section that is made of a header of a document and the blocks below it. -/
structure Section.Shows (s : Section) (p : Nat × Heading × List Block) : Prop where
  document : s.document = p.1
  heading : s.heading = p.2.1
  subs : s.subs = sectionsOfBlocks s.id (s.id + 1) s.document s.file p.2.2

mutual

theorem shows_sectionOfBlock (parent next i : Nat) (file : FileId) : (b : Block) →
    List.Forall₂ Section.Shows (allSections (sectionOfBlock parent next i file b))
      ((headersOf b).map (i, ·))
  | .header h children => by
    simp only [sectionOfBlock, headersOf, allSections_cons, allSections, List.append_nil,
      List.map_cons]
    exact .cons ⟨rfl, rfl, rfl⟩ (shows_sectionsOfBlocks next (next + 1) i file children)
  | .paragraph _ | .code _ | .choices .. | .divert _ | .branch .. => .nil

theorem shows_sectionsOfBlocks (parent next i : Nat) (file : FileId) : (bs : List Block) →
    List.Forall₂ Section.Shows (allSections (sectionsOfBlocks parent next i file bs))
      ((headersIn bs).map (i, ·))
  | [] => .nil
  | b :: bs => by
    simp only [sectionsOfBlocks, headersIn, allSections_append, List.map_append]
    exact List.rel_append (shows_sectionOfBlock parent next i file b)
      (shows_sectionsOfBlocks parent _ i file bs)

end

theorem shows_sections (ds : List Document) :
    List.Forall₂ Section.Shows (allSections (sections ds)) (headers ds) := by
  rw [sections, headers]
  generalize 1 = next, 0 = document
  induction ds generalizing next document with
  | nil => exact .nil
  | cons d ds ih =>
    simp only [sectionsFrom, headersFrom, allSections_append]
    exact List.rel_append (shows_sectionsOfBlocks 0 next document d.file d.blocks) (ih _ _)

theorem sectionsOfBlocks_append (parent next i : Nat) (file : FileId) (bs cs : List Block) :
    sectionsOfBlocks parent next i file (bs ++ cs)
      = sectionsOfBlocks parent next i file bs
        ++ sectionsOfBlocks parent (next + (headersIn bs).length) i file cs := by
  induction bs generalizing next with
  | nil => rfl
  | cons b bs ih =>
    have hlen : (allSections (sectionOfBlock parent next i file b)).length
        = (headersOf b).length := by
      rw [(shows_sectionOfBlock parent next i file b).length_eq, List.length_map]
    simp only [List.cons_append, sectionsOfBlocks, ih, hlen, headersIn, List.length_append,
      List.append_assoc, Nat.add_assoc]

/-- The names of the sections among some blocks are those of the headers. -/
theorem names_sectionsOfBlocks (parent next i : Nat) (file : FileId) (bs : List Block) :
    (sectionsOfBlocks parent next i file bs).map Section.name = headerNames bs := by
  induction bs generalizing next with
  | nil => rfl
  | cons b bs ih =>
    cases b with
    | header h children =>
      simp only [sectionsOfBlocks, sectionOfBlock, List.map_append, ih]
      rfl
    | paragraph | code | choices | divert | branch => exact ih _

/-- The last section with a name among some blocks is that of the last header with the name. -/
theorem isLast_sectionsOfBlocks (parent next i : Nat) (file : FileId) {bs before : List Block}
    {name : Bytes} {h : Heading} {children : List Block}
    (hlast : LastHeader bs name before h children) :
    ∃ s, IsLast (sectionsOfBlocks parent next i file bs) name s ∧
      s.id = next + (headersIn before).length := by
  obtain ⟨hname, after, rfl, hafter⟩ := hlast
  have hsections := sectionsOfBlocks_append parent next i file before (.header h children :: after)
  rw [sectionsOfBlocks, sectionOfBlock, List.singleton_append] at hsections
  refine ⟨⟨next + (headersIn before).length, parent, i, file, h, _⟩,
    ⟨hname, _, _, hsections, fun t ht htname => ?_⟩, rfl⟩
  have hmem := List.mem_map_of_mem (f := Section.name) ht
  rw [names_sectionsOfBlocks, mem_headerNames] at hmem
  obtain ⟨g, below, hg, hgname⟩ := hmem
  exact hafter g below hg (hgname.trans htname)

/-! ## Nodes -/

variable {ds : List Document} {k i : Nat} {h : Heading} {children : List Block}

/-- The number of a header is its place in the order of reading. -/
theorem exists_section (hk : (headers ds)[k]? = some (i, h, children)) :
    ∃ s ∈ allSections (sections ds), s.id = k + 1 ∧ s.Shows (i, h, children) := by
  obtain ⟨hlt, hat⟩ := List.getElem?_eq_some_iff.mp hk
  have hshows := shows_sections ds
  have hlt' : k < (allSections (sections ds)).length := hshows.length_eq ▸ hlt
  refine ⟨(allSections (sections ds))[k], List.getElem_mem hlt', id_getElem hlt', ?_⟩
  have := hshows.get hlt' hlt
  simp only [List.get_eq_getElem] at this
  rwa [hat] at this

/-- The node of a header is what stands under its number. -/
theorem node?_header (hk : (headers ds)[k]? = some (i, h, children)) :
    ∃ n, (ofDocuments ds).node? (k + 1) = some n ∧ n.name = canonical h.title ∧
      n.title = h.title ∧ n.span = h.titleSpan ∧ n.site = (i, h.span.start) := by
  obtain ⟨s, hs, hid, hshows⟩ := exists_section hk
  rw [← hid, node?_eq hs]
  refine ⟨_, rfl, ?_⟩
  simp [Section.node, Node.ofHeading, hshows.heading, hshows.document]

/-- Below the node of a header the last header with a name is found. -/
theorem child?_eq_some (hk : (headers ds)[k]? = some (i, h, children)) {name : Bytes}
    {before below : List Block} {g : Heading} (hlast : LastHeader children name before g below) :
    (ofDocuments ds).child? (k + 1) name = some (k + 1 + (headersIn before).length + 1) ∧
      (headers ds)[k + 1 + (headersIn before).length]? = some (i, g, below) := by
  constructor
  · obtain ⟨s, hs, hid, hshows⟩ := exists_section hk
    obtain ⟨t, ht, htid⟩ := isLast_sectionsOfBlocks s.id (s.id + 1) s.document s.file hlast
    rw [← hid, child?_eq hs, hshows.subs, lastOf?_eq_some_iff.mpr ht, Option.map_some, htid, hid]
    exact congrArg some (by omega)
  · obtain ⟨pre, post, heq, hlen⟩ := headers_split hk
    obtain ⟨-, after, rfl, -⟩ := hlast
    have hskip : pre.length + 1 + (headersIn before).length - pre.length
        = (headersIn before).length + 1 := by omega
    rw [heq, ← hlen, List.getElem?_append_right (by omega), hskip, List.getElem?_cons_succ,
      headersIn_append, headersIn, headersOf]
    simp

theorem child?_eq_none (hk : (headers ds)[k]? = some (i, h, children)) {name : Bytes}
    (hnone : ∀ g below, .header g below ∈ children → canonical g.title ≠ name) :
    (ofDocuments ds).child? (k + 1) name = none := by
  obtain ⟨s, hs, hid, hshows⟩ := exists_section hk
  rw [← hid, child?_eq hs, Option.map_eq_none_iff, lastOf?_eq_none_iff]
  intro t ht
  have hmem := List.mem_map_of_mem (f := Section.name) ht.mem
  rw [hshows.subs, names_sectionsOfBlocks, mem_headerNames] at hmem
  obtain ⟨g, below, hg, hgname⟩ := hmem
  exact hnone g below hg (hgname.trans ht.1)

theorem childNames_header (hk : (headers ds)[k]? = some (i, h, children)) :
    (ofDocuments ds).childNames (k + 1) = firstNames (headerNames children) := by
  obtain ⟨s, hs, hid, hshows⟩ := exists_section hk
  rw [← hid, childNames, if_neg (id_ne_zero hs), below_eq hs, namesOf_eq (among_subs hs),
    hshows.subs, names_sectionsOfBlocks]

/-! ## Looking headers up by their place -/

theorem nodup_sites (apart : ∀ d ∈ ds, d.StartsApart) :
    ((headers ds).map fun p => (p.1, p.2.1.span.start)).Nodup := by
  rw [headers]
  generalize 0 = document
  induction ds generalizing document with
  | nil => exact List.nodup_nil
  | cons d ds ih =>
    obtain ⟨hd, hds⟩ := List.forall_mem_cons.mp apart
    rw [headersFrom, List.map_append, List.nodup_append]
    refine ⟨?_, ih hds (document + 1), ?_⟩
    · rw [List.map_map]
      have := List.Nodup.map (f := fun n => (document, n)) (fun a b hab => (Prod.mk.inj hab).2) hd
      rwa [List.map_map] at this
    · -- the headers of later documents have later documents in their sites
      rintro _ ha _ hb rfl
      simp only [headersFrom_eq, List.mem_map, List.mem_flatMap] at ha hb
      obtain ⟨_, ⟨_, -, rfl⟩, rfl⟩ := ha
      obtain ⟨_, ⟨e, he, _, -, rfl⟩, heq⟩ := hb
      have hle := List.le_snd_of_mem_zipIdx he
      have := (Prod.mk.inj heq).1
      simp only at this
      omega

/-- A header is found by the place where it starts if no other header starts there. -/
theorem nodeOf?_eq (apart : ∀ d ∈ ds, d.StartsApart)
    (hk : (headers ds)[k]? = some (i, h, children)) :
    (ofDocuments ds).nodeOf? i h = some (k + 1) := by
  have hsites : (ofDocuments ds).nodes.toList.map Node.site
      = (headers ds).map fun p => (p.1, p.2.1.span.start) := by
    rw [nodes_ofDocuments, List.map_map]
    refine List.forall₂_eq_eq_eq ▸ List.forall₂_map_left_iff.mpr
      (List.forall₂_map_right_iff.mpr ((shows_sections ds).imp fun s p hs => ?_))
    rw [← hs.document, ← hs.heading]
    rfl
  have hnodup := hsites ▸ nodup_sites apart
  have hat : ((ofDocuments ds).nodes.toList.map Node.site)[k]? = some (i, h.span.start) := by
    rw [hsites, List.getElem?_map, hk]
    rfl
  obtain ⟨hlt, hat⟩ := List.getElem?_eq_some_iff.mp hat
  have hsize : k < (ofDocuments ds).nodes.size := by simpa using hlt
  rw [nodeOf?, Option.map_eq_some_iff]
  refine ⟨k, Array.findIdx?_eq_some_iff_getElem.mpr ⟨hsize, ?_, fun j hj => ?_⟩, rfl⟩
  · simpa using hat
  · intro hsame
    have hj' : j < ((ofDocuments ds).nodes.toList.map Node.site).length := Nat.lt_trans hj hlt
    have heq : ((ofDocuments ds).nodes.toList.map Node.site)[j]
        = ((ofDocuments ds).nodes.toList.map Node.site)[k] := by
      rw [hat]
      simpa using hsame
    exact Nat.ne_of_lt hj (hnodup.getElem_inj_iff.mp heq)

end Outline

end Storyline
