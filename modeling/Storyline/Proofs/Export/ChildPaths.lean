import Storyline.Proofs.Export.Shown
import Storyline.Proofs.Outline.Headers

/-!
# Compiled headers and the outline

A compiled header keeps the headers right below it under their names, and the outline of the same
documents finds the headers below a node by name.  They are built apart, one as a record of
compiled blocks and the other as a list of nodes that know their parents, but both keep the last
header with a name (`compiled_header_agrees`): an editor that follows the compiled document and a
divert that is looked up in the outline come to the same header.
-/

namespace Storyline

/-! ## Members of records -/

/-- The first member of a record with a name. -/
def Datum.member? (d : Datum) (name : Bytes) : Option Datum :=
  match d with
  | .record members => (members.find? (·.1 = name)).map (·.2)
  | .null | .bool _ | .nat _ | .text _ | .list _ => none

namespace Export

open Markup

section Members

variable {α : Type} {ms : List (Bytes × α)} {name : Bytes}

/-- Of the members with a name the last one is kept. -/
theorem mem_lastByName_of_last {before after : List (Bytes × α)} {m : Bytes × α}
    (hafter : ∀ x ∈ after, x.1 ≠ m.1) : m ∈ lastByName (before ++ m :: after) := by
  rw [lastByName, Bytes.mem_sortOn]
  induction before with
  | nil =>
    have hlast : ¬ (after.any fun x => x.1 = m.1) = true := by
      rw [List.any_eq_true]
      rintro ⟨x, hx, heq⟩
      exact hafter x hx (of_decide_eq_true heq)
    rw [List.nil_append, lastByName.go, if_neg hlast]
    exact List.mem_cons_self
  | cons x before ih =>
    rw [List.cons_append, lastByName.go]
    split
    · exact ih
    · exact List.mem_cons_of_mem _ ih

theorem nodup_keys_lastByName (ms : List (Bytes × α)) : ((lastByName ms).map (·.1)).Nodup :=
  ((Bytes.sortOn_perm _ _).map _).nodup_iff.mpr (nodup_keys_go ms)

/-- No name is made up. -/
theorem mem_keys_of_mem_lastByName {m : Bytes × α} (hm : m ∈ lastByName ms) :
    m.1 ∈ ms.map (·.1) :=
  mem_keys_go (List.mem_map_of_mem (Bytes.mem_sortOn.mp hm))

/-- Where no name occurs twice a member is found by its name. -/
theorem member?_eq_some {members : List (Bytes × Datum)} (hnodup : (members.map (·.1)).Nodup)
    {x : Datum} (hmem : (name, x) ∈ members) : (Datum.record members).member? name = some x := by
  induction members with
  | nil => cases hmem
  | cons m members ih =>
    obtain ⟨hnot, hnodup⟩ := List.nodup_cons.mp hnodup
    rw [Datum.member?, List.find?_cons]
    rcases List.mem_cons.mp hmem with rfl | hmem
    · simp
    · have hne : m.1 ≠ name := fun heq => hnot (List.mem_map.mpr ⟨_, hmem, heq.symm⟩)
      simpa [hne, Datum.member?] using ih hnodup hmem

theorem member?_eq_none {members : List (Bytes × Datum)} (hnone : name ∉ members.map (·.1)) :
    (Datum.record members).member? name = none := by
  rw [Datum.member?, Option.map_eq_none_iff, List.find?_eq_none]
  intro m hm heq
  exact hnone (List.mem_map.mpr ⟨m, hm, of_decide_eq_true heq⟩)

end Members

/-! ## Compiled headers -/

variable (assigned : Assigned)

theorem headers_append (bs cs : List Block) :
    headers assigned (bs ++ cs) = headers assigned bs ++ headers assigned cs := by
  induction bs with
  | nil => simp [headers]
  | cons b bs ih => cases b <;> simp [headers, ih]

theorem keys_headers_eq (bs : List Block) : (headers assigned bs).map (·.1) = headerNames bs := by
  rw [keys_headers, headerNames, List.map_filterMap]
  refine List.filterMap_congr fun b _ => ?_
  cases b <;> rfl

theorem others_eq (bs : List Block) :
    others assigned bs = (bs.filter (·.kind != .header)).map (block assigned) := by
  induction bs with
  | nil => rfl
  | cons b bs ih => cases b <;> simp [others, ih, Block.kind]

/-- What a compiled header keeps under a name. -/
def childPath? (compiled : Datum) (name : Bytes) : Option Datum :=
  (compiled.member? "childPaths").bind (·.member? name)

variable {assigned} {h : Heading} {children : List Block} {name : Bytes}

theorem childPaths_eq : (block assigned (.header h children)).member? "childPaths"
    = some (.record (lastByName (headers assigned children))) := rfl

/-- Under a name the last header with the name is kept. -/
theorem childPath?_eq_some {before below : List Block} {g : Heading}
    (hlast : LastHeader children name before g below) :
    childPath? (block assigned (.header h children)) name
      = some (block assigned (.header g below)) := by
  obtain ⟨rfl, after, rfl, hafter⟩ := hlast
  rw [childPath?, childPaths_eq, Option.bind_some]
  refine member?_eq_some (nodup_keys_lastByName _) ?_
  rw [headers_append, headers]
  refine mem_lastByName_of_last fun m hm => ?_
  have hkey := List.mem_map_of_mem (f := (·.1)) hm
  rw [keys_headers_eq, mem_headerNames] at hkey
  obtain ⟨g', below', hmem, heq⟩ := hkey
  exact heq ▸ hafter g' below' hmem

theorem childPath?_eq_none
    (hnone : ∀ g below, .header g below ∈ children → Outline.canonical g.title ≠ name) :
    childPath? (block assigned (.header h children)) name = none := by
  rw [childPath?, childPaths_eq, Option.bind_some]
  refine member?_eq_none fun hmem => ?_
  obtain ⟨m, hm, rfl⟩ := List.mem_map.mp hmem
  have hkey := mem_keys_of_mem_lastByName hm
  rw [keys_headers_eq, mem_headerNames] at hkey
  obtain ⟨g, below, hg, heq⟩ := hkey
  exact hnone g below hg heq

/-! ## Compiled headers and nodes -/

/-- A node of the outline of documents is that of a header in the document with a number, with the
blocks below it: it has the number of the header in the order of reading. -/
def IsNodeOf (ds : List Document) (id : NodeId) (document : Nat) (h : Heading)
    (children : List Block) : Prop :=
  ∃ k, id = k + 1 ∧ (Outline.headers ds)[k]? = some (document, h, children)

/-- A compiled header and a node say the same about the headers right below. -/
structure HeaderAgrees (ds : List Document) (assigned : Assigned) (id : NodeId) (document : Nat)
    (h : Heading) (children : List Block) : Prop where
  /-- The node was made of the header. -/
  node : ∃ n, (Outline.ofDocuments ds).node? id = some n ∧ n.name = Outline.canonical h.title ∧
    n.title = h.title ∧ n.span = h.titleSpan ∧ n.site = (document, h.span.start)
  /-- The header is kept under a name exactly if the node has a child of that name. -/
  kept_iff : ∀ name, (childPath? (block assigned (.header h children)) name).isSome
    ↔ ((Outline.ofDocuments ds).child? id name).isSome
  /-- Both stand for the last header with the name. -/
  last : ∀ name before g below, LastHeader children name before g below →
    childPath? (block assigned (.header h children)) name
        = some (block assigned (.header g below)) ∧
      (Outline.ofDocuments ds).child? id name = some (id + (headersIn before).length + 1) ∧
      IsNodeOf ds (id + (headersIn before).length + 1) document g below
  /-- Where something is kept there is a last header with the name. -/
  exists_last : ∀ name, (childPath? (block assigned (.header h children)) name).isSome →
    ∃ before g below, LastHeader children name before g below
  /-- No name is kept twice. -/
  nodup : ∃ paths, (block assigned (.header h children)).member? "childPaths" = some (.record paths)
    ∧ (paths.map (·.1)).Nodup
  /-- The other blocks are listed in order, none dropped and none twice. -/
  others : (block assigned (.header h children)).member? "children"
    = some (.list ((children.filter (·.kind != .header)).map (block assigned)))
  /-- The names that are kept are the names of the node's children. -/
  mem_childNames : ∀ name, name ∈ (Outline.ofDocuments ds).childNames id
    ↔ (childPath? (block assigned (.header h children)) name).isSome
  /-- The names are listed by their first places, so none twice. -/
  ordered : ((Outline.ofDocuments ds).childNames id).Pairwise fun m n =>
    (headerNames children).idxOf m < (headerNames children).idxOf n

theorem headerAgrees {ds : List Document} {id : NodeId} {document : Nat}
    (hid : IsNodeOf ds id document h children) :
    HeaderAgrees ds assigned id document h children := by
  obtain ⟨k, rfl, hk⟩ := hid
  -- a name is kept exactly if a header bears it, and then it is the last one that does
  have hkept (n : Bytes) : (childPath? (block assigned (.header h children)) n).isSome
      ↔ n ∈ headerNames children := by
    rw [mem_headerNames]
    rcases lastHeader_or children n with ⟨before, g, below, hlast⟩ | hnone
    · obtain ⟨hname, after, hsplit, -⟩ := id hlast
      simp only [childPath?_eq_some hlast, Option.isSome_some, true_iff]
      exact ⟨g, below, by simp [hsplit], hname⟩
    · simp only [childPath?_eq_none hnone, Option.isSome_none, Bool.false_eq_true, false_iff]
      rintro ⟨g, below, hmem, hname⟩
      exact hnone g below hmem hname
  refine ⟨Outline.node?_header hk, fun n => ?_, fun n before g below hlast => ?_,
    fun n hn => ?_, ⟨_, rfl, ?_⟩, ?_, fun n => ?_, ?_⟩
  -- name by name: the last header of that name, or no header at all
  · rcases lastHeader_or children n with ⟨before, g, below, hlast⟩ | hnone
    · simp [childPath?_eq_some hlast, (Outline.child?_eq_some hk hlast).1]
    · simp [childPath?_eq_none hnone, Outline.child?_eq_none hk hnone]
  · obtain ⟨hchild, hat⟩ := Outline.child?_eq_some hk hlast
    have hnext : k + 1 + (headersIn before).length + 1 = (k + 1 + (headersIn before).length) + 1 :=
      rfl
    exact ⟨childPath?_eq_some hlast, hchild, _, hnext, hat⟩
  · rcases lastHeader_or children n with hlast | hnone
    · exact hlast
    · simp [childPath?_eq_none hnone] at hn
  · exact nodup_keys_lastByName _
  · exact congrArg (fun items => some (Datum.list items)) (others_eq assigned children)
  · rw [Outline.childNames_header hk, Outline.mem_firstNames, hkept]
  · rw [Outline.childNames_header hk]
    exact Outline.pairwise_firstNames _

/-- Every header that stands at the top level of a document, or right below such a header and so
on, has a node in the outline of the documents, and what is compiled for the header says the same
about the headers right below as its node: under a name both have the last header with that name,
if there is one.  In documents parsed from files of fewer than 2^32 bytes the place where a header
starts leads to its node. -/
theorem compiled_header_agrees (ds : List Document) (assigned : Assigned) {i : Nat} {d : Document}
    (hd : ds[i]? = some d) {h : Heading} {children : List Block}
    (hr : Reached d.blocks h children) :
    (∃ id, IsNodeOf ds id i h children) ∧
    ∀ id, IsNodeOf ds id i h children →
      HeaderAgrees ds assigned id i h children ∧
      ((∀ e ∈ ds, ∃ f layout maxErrors, f.size < Word.modulus ∧
          (parse f layout maxErrors).document = e) →
        (Outline.ofDocuments ds).nodeOf? i h = some id) := by
  constructor
  · obtain ⟨k, hlt, hk⟩ := List.mem_iff_getElem.mp (Outline.mem_headers.mpr ⟨d, hd, hr⟩)
    exact ⟨k + 1, k, rfl, List.getElem?_eq_some_iff.mpr ⟨hlt, hk⟩⟩
  · rintro id hid
    refine ⟨headerAgrees hid, fun parsed => ?_⟩
    obtain ⟨k, rfl, hk⟩ := hid
    refine Outline.nodeOf?_eq (fun e he => ?_) hk
    obtain ⟨f, layout, maxErrors, small, rfl⟩ := parsed e he
    exact startsApart_parse layout maxErrors small

/-- Of two doors below a hall the compiled hall and its node both have the second one, the third
header of the document. -/
theorem compiled_header_agrees_second_door :
    let d := (parse (.ofBytes 0 "a.story" "# Hall\n## Door\nx\n## Door!\n")).document
    let o := Outline.ofDocuments [d]
    ∃ h children, [d][0]? = some d ∧ Reached d.blocks h children ∧ o.nodeOf? 0 h = some 1 ∧
      o.child? 1 "door" = some 3 ∧
      (childPath? (block (fun _ => []) (.header h children)) "door").isSome := by
  -- the document stays a variable, so that it is evaluated only where something is decided
  have hall (d : Document) (hparsed : ∃ f layout maxErrors, f.size < Word.modulus ∧
        (parse f layout maxErrors).document = d) (hsome : ((Outline.headers [d])[0]?).isSome)
      (hchild : (Outline.ofDocuments [d]).child? 1 "door" = some 3) :
      ∃ h children, [d][0]? = some d ∧ Reached d.blocks h children ∧
        (Outline.ofDocuments [d]).nodeOf? 0 h = some 1 ∧
        (Outline.ofDocuments [d]).child? 1 "door" = some 3 ∧
        (childPath? (block (fun _ => []) (.header h children)) "door").isSome := by
    obtain ⟨⟨i, h, children⟩, hk⟩ := Option.isSome_iff_exists.mp hsome
    obtain ⟨e, he, hr⟩ := Outline.mem_headers.mp (List.mem_of_getElem? hk)
    obtain ⟨hi, rfl⟩ := List.getElem?_eq_some_iff.mp he
    obtain rfl : i = 0 := by simpa using hi
    obtain ⟨hagrees, hnode⟩ :=
      (compiled_header_agrees [d] (fun _ => []) he hr).2 1 ⟨0, rfl, hk⟩
    refine ⟨h, children, rfl, hr, hnode fun e he => ?_, hchild, (hagrees.kept_iff "door").mpr ?_⟩
    · exact List.mem_singleton.mp he ▸ hparsed
    · exact Option.isSome_iff_exists.mpr ⟨3, hchild⟩
  exact hall _ ⟨_, {}, 0, by decide +kernel, rfl⟩ (by decide +kernel) (by decide +kernel)

end Export

end Storyline
