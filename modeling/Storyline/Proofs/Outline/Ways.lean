import Storyline.Proofs.Outline.Resolution
import Storyline.Proofs.Text.Lists
import Storyline.Session.Listing

/-!
# The listing of paths is exact

The listing follows the lists of names from the top level down, and resolving follows the searches
by name.  `ways` is the listing with the names on the way to each header written out.  A way is
listed exactly if its names lead to the header (`mem_ways_iff`), and no way comes behind one that it
is the beginning of (`inOrder_ways`), so that none comes twice and headers come before those below
them.  The path of a header is made of the names on its way (`Reaches.path_eq`), and as names have
no dots, the way can be read off it: that gives `pathsIn_exact`.
-/

namespace Storyline.Outline

open Markup (Document)
open Session (PathEntry pathEntry pathsBelow pathsIn)

/-- A list of names with the header they lead to. -/
abbrev Way := List Bytes × NodeId

/-! ## Ways -/

/-- The ways that start with one of some names, which are looked up by `find`, and go on with one of
those below. -/
def waysThrough (names : List Bytes) (find : Bytes → Option NodeId) (below : NodeId → List Way) :
    List Way :=
  names.flatMap fun n => ((find n).toList.flatMap below).map fun w => (n :: w.1, w.2)

/-- The ways from a header to itself and those below it, at most `fuel` headers long. -/
def waysBelow (o : Outline) : (fuel : Nat) → NodeId → List Way
  | 0, _ => []
  | fuel + 1, id => ([], id) :: waysThrough (o.childNames id) (o.child? id) (waysBelow o fuel)

/-- The ways from the top level to all headers that are not hidden by later ones of their name. -/
def ways (o : Outline) : List Way := waysThrough o.rootNames o.root? (o.waysBelow o.nodes.size)

/-- The entry of a header, if there is one. -/
def entryOf (files : Repair.Files) (o : Outline) (id : NodeId) : Option PathEntry :=
  (o.node? id).map (pathEntry files o id)

variable {o : Outline} {names : List Bytes} {find : Bytes → Option NodeId}
  {below : NodeId → List Way} {w : Way}

theorem map_snd_waysThrough :
    (waysThrough names find below).map Prod.snd
      = (names.filterMap find).flatMap fun id => (below id).map Prod.snd := by
  induction names with
  | nil => rfl
  | cons n names ih =>
    rw [waysThrough] at ih ⊢
    rw [List.flatMap_cons, List.map_append, ih, List.map_map]
    cases h : find n <;> simp [h, Function.comp_def]

/-- The listing from a header on is that of its ways. -/
theorem pathsBelow_eq (files : Repair.Files) (o : Outline) (fuel : Nat) (id : NodeId) :
    pathsBelow files o fuel id
      = ((o.waysBelow fuel id).map Prod.snd).filterMap (entryOf files o) := by
  induction fuel generalizing id with
  | zero => rfl
  | succ fuel ih =>
    rw [pathsBelow, waysBelow, List.map_cons, map_snd_waysThrough, List.filterMap_cons,
      List.filterMap_flatMap]
    simp only [← ih, entryOf]
    cases o.node? id <;> rfl

/-- The listing is that of all ways. -/
theorem pathsIn_eq (files : Repair.Files) (o : Outline) :
    pathsIn files o = o.ways.filterMap fun w => entryOf files o w.2 := by
  have hmap : o.ways.filterMap (fun w => entryOf files o w.2)
      = (o.ways.map Prod.snd).filterMap (entryOf files o) := by rw [List.filterMap_map]; rfl
  rw [hmap, ways, map_snd_waysThrough, List.filterMap_flatMap, pathsIn]
  simp only [← pathsBelow_eq]

/-! ## Which ways are listed -/

theorem exists_of_mem_waysThrough (h : w ∈ waysThrough names find below) :
    ∃ n ∈ names, ∃ id, find n = some id ∧ ∃ v ∈ below id, w = (n :: v.1, v.2) := by
  simp only [waysThrough, List.mem_flatMap, List.mem_map, Option.mem_toList] at h
  obtain ⟨n, hn, v, ⟨id, hid, hv⟩, rfl⟩ := h
  exact ⟨n, hn, id, hid, v, hv, rfl⟩

theorem mem_waysThrough {n : Bytes} {way : List Bytes} {last : NodeId} :
    (n :: way, last) ∈ waysThrough names find below ↔
      n ∈ names ∧ ∃ id, find n = some id ∧ (way, last) ∈ below id := by
  constructor
  · intro h
    obtain ⟨n', hn, id, hid, v, hv, heq⟩ := exists_of_mem_waysThrough h
    cases heq
    exact ⟨hn, id, hid, hv⟩
  · rintro ⟨hn, id, hid, hv⟩
    simp only [waysThrough, List.mem_flatMap, List.mem_map, Option.mem_toList]
    exact ⟨n, hn, (way, last), ⟨id, hid, hv⟩, rfl⟩

/-- The ways from a header on are those along which going down succeeds. -/
theorem mem_waysBelow {fuel : Nat} (found : Nat) {id last : NodeId} {way : List Bytes} :
    (way, last) ∈ o.waysBelow fuel id ↔
      way.length < fuel ∧ o.descend id found way = .ok last := by
  induction fuel generalizing id found way with
  | zero => simp [waysBelow]
  | succ fuel ih =>
    rw [waysBelow, List.mem_cons]
    cases way with
    | nil =>
      have hnil : ([], last) ∉ waysThrough (o.childNames id) (o.child? id) (o.waysBelow fuel) := by
        intro h
        obtain ⟨n, -, _, -, v, -, heq⟩ := exists_of_mem_waysThrough h
        cases heq
      simp [hnil, descend, eq_comm]
    | cons n way =>
      rw [mem_waysThrough, mem_childNames_iff, List.length_cons, Nat.add_lt_add_iff_right, descend]
      cases o.child? id n with
      | none => simp
      | some next => simp [ih (found + 1)]

/-- No way comes behind one that it is the beginning of. -/
def InOrder (ws : List Way) : Prop := ws.Pairwise fun v w => ¬ w.1 <+: v.1

theorem inOrder_waysThrough (hnodup : names.Nodup) (hbelow : ∀ id, InOrder (below id)) :
    InOrder (waysThrough names find below) := by
  rw [InOrder, waysThrough, List.pairwise_flatMap]
  refine ⟨fun n _ => ?_, hnodup.imp fun hne v hv w hw hprefix => ?_⟩
  · rw [List.pairwise_map]
    cases find n with
    | none => exact .nil
    | some id =>
      rw [Option.toList_some, List.flatMap_singleton]
      exact (hbelow id).imp fun hback hprefix => hback (List.cons_prefix_cons.mp hprefix).2
  · obtain ⟨v, -, rfl⟩ := List.mem_map.mp hv
    obtain ⟨w, -, rfl⟩ := List.mem_map.mp hw
    exact hne (List.cons_prefix_cons.mp hprefix).1.symm

theorem inOrder_waysBelow (o : Outline) (fuel : Nat) (id : NodeId) :
    InOrder (o.waysBelow fuel id) := by
  induction fuel generalizing id with
  | zero => exact .nil
  | succ fuel ih =>
    refine .cons (fun w hw hprefix => ?_) (inOrder_waysThrough (nodup_childNames o id) ih)
    obtain ⟨n, -, _, -, v, -, rfl⟩ := exists_of_mem_waysThrough hw
    cases List.prefix_nil.mp hprefix

theorem inOrder_ways (o : Outline) : InOrder o.ways :=
  inOrder_waysThrough (nodup_firstNames _) (o.inOrder_waysBelow _)

/-! ## Where ways lead -/

/-- Names lead from the top level to a header: each is looked up right below the one before. -/
inductive Reaches (o : Outline) : List Bytes → NodeId → Prop
  | root {n : Bytes} {id : NodeId} (h : o.root? n = some id) : Reaches o [n] id
  | child {way : List Bytes} {id next : NodeId} {n : Bytes} (above : Reaches o way id)
      (h : o.child? id n = some next) : Reaches o (way ++ [n]) next

variable {way : List Bytes} {id last : NodeId} {n : Bytes}

theorem Reaches.descend {found : Nat} {rest : List Bytes} (h : o.Reaches way id)
    (hrest : o.descend id found rest = .ok last) : o.Reaches (way ++ rest) last := by
  induction rest generalizing way id found with
  | nil =>
    cases hrest
    rwa [List.append_nil]
  | cons n rest ih =>
    rw [Outline.descend] at hrest
    split at hrest
    · next next hnext =>
      rw [List.append_cons]
      exact ih (h.child hnext) hrest
    · cases hrest

/-- The first name leads from the top level and the others on from there. -/
theorem Reaches.exists_root {names : List Bytes} (h : o.Reaches names last) :
    ∃ n way id, names = n :: way ∧ o.root? n = some id ∧ o.descend id 1 way = .ok last := by
  induction h with
  | root h => exact ⟨_, [], _, rfl, h, rfl⟩
  | @child names id next m _ h ih =>
    obtain ⟨n, way, first, rfl, hfirst, hdown⟩ := ih
    refine ⟨n, way ++ [m], first, rfl, hfirst, ?_⟩
    rw [descend_append, hdown]
    simp [Except.bind, Outline.descend, h]

theorem reaches_cons_iff : o.Reaches (n :: way) last ↔
    ∃ id, o.root? n = some id ∧ o.descend id 1 way = .ok last := by
  constructor
  · intro h
    obtain ⟨_, _, id, heq, hid, hdown⟩ := h.exists_root
    cases heq
    exact ⟨id, hid, hdown⟩
  · rintro ⟨id, hid, hdown⟩
    exact (Reaches.root hid).descend hdown

theorem Reaches.ne_nil (h : o.Reaches way id) : way ≠ [] := by
  cases h <;> simp

/-- Names lead where walking along them ends. -/
theorem reaches_iff_walk (hne : way ≠ []) :
    o.Reaches way last ↔ o.walk (o.below 0) way = .ok last := by
  obtain ⟨n, way, rfl⟩ := List.exists_cons_of_ne_nil hne
  rw [reaches_cons_iff, walk, root?]
  cases o.lastNamed? (o.below 0) n <;> simp

/-! ## Ways in the outline of documents -/

variable {ds : List Document}

theorem Reaches.node? (h : o.Reaches way id) : ∃ node, o.node? id = some node := by
  cases h with
  | root h => exact (node?_of_root? h).imp fun _ => And.left
  | child _ h => exact (node?_of_child? h).imp fun _ => And.left

/-- Names that lead to a header are in canonical form. -/
theorem Reaches.canonical (h : (ofDocuments ds).Reaches way id) :
    ∀ n ∈ way, canonical n = n := by
  induction h with
  | root h =>
    obtain ⟨node, hnode, -, rfl⟩ := node?_of_root? h
    exact List.forall_mem_singleton.mpr (canonical_name hnode)
  | child _ h ih =>
    obtain ⟨node, hnode, -, rfl⟩ := node?_of_child? h
    exact List.forall_mem_append.mpr ⟨ih, List.forall_mem_singleton.mpr (canonical_name hnode)⟩

/-- Numbers grow along a way, so that it is no longer than the outline. -/
theorem Reaches.length_le (h : (ofDocuments ds).Reaches way id) : way.length ≤ id := by
  induction h with
  | root h =>
    obtain ⟨node, hnode, -⟩ := node?_of_root? h
    exact (node?_bounds hnode).1
  | child _ h ih =>
    obtain ⟨node, hnode, rfl, -⟩ := node?_of_child? h
    rw [List.length_append]
    exact Nat.lt_of_le_of_lt ih (parent_lt hnode)

theorem Reaches.path_go (h : (ofDocuments ds).Reaches way id) {fuel : Nat} (hfuel : id ≤ fuel) :
    path.go (ofDocuments ds) fuel id = Bytes.join "." way := by
  induction h generalizing fuel with
  | root h =>
    obtain ⟨node, hnode, hparent, rfl⟩ := node?_of_root? h
    cases fuel with
    | zero => cases Nat.le_zero.mp hfuel; cases hnode
    | succ fuel =>
      rw [path.go]
      simp only [hnode, hparent, if_true]
      rfl
  | child above h ih =>
    obtain ⟨node, hnode, rfl, rfl⟩ := node?_of_child? h
    obtain ⟨parent, hparent⟩ := above.node?
    cases fuel with
    | zero => cases Nat.le_zero.mp hfuel; cases hnode
    | succ fuel =>
      -- the header above has a smaller number, so the fuel lasts
      have hle := Nat.le_of_lt_succ (Nat.lt_of_lt_of_le (parent_lt hnode) hfuel)
      rw [path.go]
      simp only [hnode]
      rw [if_neg (Nat.ne_of_gt (node?_bounds hparent).1), ih hle, Bytes.join_concat _ above.ne_nil]

/-- The path of a header is made of the names that lead to it. -/
theorem Reaches.path_eq (h : (ofDocuments ds).Reaches way id) :
    (ofDocuments ds).path id = Bytes.join "." way := by
  obtain ⟨node, hnode⟩ := h.node?
  exact h.path_go (node?_bounds hnode).2

/-- The ways that are listed are those that lead to headers; the depth of the listing is enough. -/
theorem mem_ways_iff : (way, last) ∈ (ofDocuments ds).ways ↔ (ofDocuments ds).Reaches way last := by
  cases way with
  | nil =>
    refine iff_of_false (fun h => ?_) fun h => h.ne_nil rfl
    obtain ⟨n, -, _, -, v, -, heq⟩ := exists_of_mem_waysThrough h
    cases heq
  | cons n way =>
    rw [ways, mem_waysThrough, mem_rootNames_iff]
    simp only [mem_waysBelow 1]
    constructor
    · rintro ⟨-, id, hid, -, hdown⟩
      exact reaches_cons_iff.mpr ⟨id, hid, hdown⟩
    · intro h
      obtain ⟨id, hid, hdown⟩ := reaches_cons_iff.mp h
      obtain ⟨node, hnode⟩ := h.node?
      exact ⟨⟨id, hid⟩, id, hid, Nat.le_trans h.length_le (node?_bounds hnode).2, hdown⟩

/-! ## Ways and resolving -/

section

variable {policy : Policy} {temporary : Bool} {site : Site} {segments : List Bytes}

theorem resolve_of_reaches (hscope : policy.scopeFor temporary = .project) (hne : segments ≠ [])
    (h : o.Reaches (segments.map canonical) id) :
    o.resolve segments site temporary policy = .ok id := by
  rw [reaches_iff_walk (mt List.map_eq_nil_iff.mp hne)] at h
  simp only [resolve, hscope, rootsIn, h]

/-- A path that is only looked up from the top level is the way to what it leads to. -/
theorem reaches_of_resolve (hscope : policy.scopeFor temporary = .project)
    (hroots : policy.localFallback = false ∨ site.owner = none) (hne : segments ≠ [])
    (h : o.resolve segments site temporary policy = .ok id) :
    o.Reaches (segments.map canonical) id := by
  rw [reaches_iff_walk (mt List.map_eq_nil_iff.mp hne)]
  simp only [resolve, hscope, rootsIn] at h
  grind

end

/-- A list of names in canonical form is the path of an entry and leads to the header that the entry
describes. -/
structure IsWay (files : Repair.Files) (o : Outline) (site : Site) (temporary : Bool)
    (policy : Policy) (e : PathEntry) (way : List Bytes) (id : NodeId) : Prop where
  ne_nil : way ≠ []
  canonical : way.map Outline.canonical = way
  path : e.path = Bytes.join "." way
  resolves : o.resolve way site temporary policy = .ok id
  describes : ∃ node, o.node? id = some node ∧ e = pathEntry files o id node

@[simp] theorem path_pathEntry (files : Repair.Files) (o : Outline) (id : NodeId) (node : Node) :
    (pathEntry files o id node).path = o.path id := by
  rw [pathEntry]
  split <;> rfl

/-- What is listed for a way. -/
theorem entryOf_eq_some (files : Repair.Files) {policy : Policy} {temporary : Bool}
    (hscope : policy.scopeFor temporary = .project) (site : Site)
    (h : (ofDocuments ds).Reaches way id) : ∃ e, entryOf files (ofDocuments ds) id = some e ∧
      IsWay files (ofDocuments ds) site temporary policy e way id := by
  obtain ⟨node, hnode⟩ := h.node?
  have hcanonical : way.map canonical = way :=
    (List.map_congr_left h.canonical).trans (List.map_id' way)
  refine ⟨pathEntry files _ id node, by rw [entryOf, hnode]; rfl,
    ⟨h.ne_nil, hcanonical, ?_, ?_, node, hnode, rfl⟩⟩
  · rw [path_pathEntry, h.path_eq]
  · refine resolve_of_reaches hscope h.ne_nil ?_
    rwa [hcanonical]

/-- An entry has no other way, as names do not have dots. -/
theorem IsWay.unique {files : Repair.Files} {site : Site} {temporary : Bool} {policy : Policy}
    {e : PathEntry} {way' : List Bytes} {id' : NodeId}
    (h : IsWay files o site temporary policy e way id)
    (h' : IsWay files o site temporary policy e way' id') : way = way' := by
  have hsplit {v : List Bytes} {i : NodeId} (hv : IsWay files o site temporary policy e v i) :
      e.path.splitOnByte '.' = v := by
    rw [hv.path]
    refine Bytes.splitOnByte_join hv.ne_nil fun n hn => ?_
    rw [← hv.canonical, List.mem_map] at hn
    obtain ⟨m, -, rfl⟩ := hn
    exact dot_not_mem_canonical m
  exact (hsplit h).symm.trans (hsplit h')

/-- The listing of paths is exact.  For every entry there is exactly one list of names in canonical
form that is its path and leads to the header it describes; every path that leads to a header from
the top level is that of an entry; and no entry comes behind one that its path is the beginning of,
so that none is listed twice and each comes before those below it. -/
theorem pathsIn_exact (ds : List Document) (files : Repair.Files) {policy : Policy}
    {temporary : Bool} (hscope : policy.scopeFor temporary = .project) (site : Site) :
    let o := ofDocuments ds
    let entries := pathsIn files o
    (∀ e ∈ entries, ∃! way, ∃ id, IsWay files o site temporary policy e way id) ∧
    ((policy.localFallback = false ∨ site.owner = none) → ∀ segments ≠ [], ∀ id,
      o.resolve segments site temporary policy = .ok id →
        ∃ e ∈ entries, IsWay files o site temporary policy e (segments.map canonical) id) ∧
    entries.Pairwise fun d e => ∀ v w i j, IsWay files o site temporary policy d v i →
      IsWay files o site temporary policy e w j → ¬ w <+: v := by
  intro o entries
  have hentries : entries = o.ways.filterMap fun w => entryOf files o w.2 := pathsIn_eq files o
  refine ⟨fun e he => ?_, fun hroots segments hne id hid => ?_, ?_⟩
  -- an entry was made of one way, and what is shown of it tells that way from all others
  · rw [hentries, List.mem_filterMap] at he
    obtain ⟨⟨way, id⟩, hmem, he⟩ := he
    obtain ⟨e', he', hway⟩ := entryOf_eq_some files hscope site (mem_ways_iff.mp hmem)
    cases he.symm.trans he'
    exact ⟨way, ⟨id, hway⟩, fun way' ⟨_, hway'⟩ => hway'.unique hway⟩
  · have hreaches := reaches_of_resolve hscope hroots hne hid
    obtain ⟨e, he, hway⟩ := entryOf_eq_some files hscope site hreaches
    refine ⟨e, ?_, hway⟩
    rw [hentries, List.mem_filterMap]
    exact ⟨_, mem_ways_iff.mpr hreaches, he⟩
  -- the ways are in order, and the entries follow them
  · rw [hentries, List.pairwise_filterMap]
    refine o.inOrder_ways.imp_of_mem fun hv hw hback d hd e he v w i j hdv hew => ?_
    obtain ⟨d', hd', hv'⟩ := entryOf_eq_some files hscope site (mem_ways_iff.mp hv)
    obtain ⟨e', he', hw'⟩ := entryOf_eq_some files hscope site (mem_ways_iff.mp hw)
    cases hd.symm.trans hd'
    cases he.symm.trans he'
    rwa [hdv.unique hv', hew.unique hw']

/-- Of two halls with doors only the later ones are listed; a title without letters or digits has
the empty name. -/
theorem pathsIn_exact_two_halls :
    ∃ ds, ds = [(Markup.parse (.ofBytes 0 "a"
        "# Hall\n## Door\n# Hall\n## Door\n# !\n")).document] ∧
      (pathsIn (fun _ => none) (ofDocuments ds)).map (·.path) = ["hall", "hall.door", ""] ∧
      Policy.scopeFor {} false = .project ∧
      (∀ e ∈ pathsIn (fun _ => none) (ofDocuments ds), ∃! way, ∃ id,
        IsWay (fun _ => none) (ofDocuments ds) ⟨0, none⟩ false {} e way id) ∧
      ∃ e ∈ pathsIn (fun _ => none) (ofDocuments ds),
        IsWay (fun _ => none) (ofDocuments ds) ⟨0, none⟩ false {} e ["hall", "door"] 4 := by
  -- the documents are evaluated first, and then only these facts are known of them
  obtain ⟨ds, hds, hpaths, hdoor⟩ : ∃ ds, ds = [(Markup.parse (.ofBytes 0 "a"
        "# Hall\n## Door\n# Hall\n## Door\n# !\n")).document] ∧
      (pathsIn (fun _ => none) (ofDocuments ds)).map (·.path) = ["hall", "hall.door", ""] ∧
      (ofDocuments ds).resolve ["Hall", "Door"] ⟨0, none⟩ false {} = .ok 4 :=
    ⟨_, rfl, by decide +kernel, by decide +kernel⟩
  have hscope : Policy.scopeFor {} false = .project := rfl
  obtain ⟨hunique, hlisted, -⟩ := pathsIn_exact ds (fun _ => none) hscope ⟨0, none⟩
  have hhall := hlisted (.inr rfl) ["Hall", "Door"] (List.cons_ne_nil _ _) 4 hdoor
  exact ⟨ds, hds, hpaths, hscope, hunique, hhall⟩

end Storyline.Outline
