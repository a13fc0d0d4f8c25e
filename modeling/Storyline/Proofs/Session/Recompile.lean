import Mathlib.Logic.Function.Basic
import Storyline.Command.Fuzzy
import Storyline.Proofs.Export.Shown
import Storyline.Proofs.Session.Contents

/-!
# Recompiling against opening afresh

A session that recompiled files shows what a session shows that was opened on their latest texts,
if no assignment takes its kind from a variable and no variable is assigned different kinds
(`recompiled_compile`).  `Tracks` is the invariant behind it: the notes of each file in the store
are those of its latest scripts by themselves, and what its scripts assign is known by path.  It
leaves open in which order files were read, so the history of a session drops out.

Without the first condition the claim is false: an assignment that takes its kind from a variable
of another file is given the kind that was known when its own file was read
(`recompile_reads_later_kind`).
-/

namespace Storyline

open Outline (Fuzzy)
open Variables (AtPaths Notes Store VarId areSettled ownNotes replace_notes)

/-- The scripts of a story, as they are folded. -/
def Story.fragments (story : Story) : List Variables.Fragment := story.scripts.map (·.2)

/-- Whether no assignment in a story takes its kind from a variable. -/
def Story.isSettled (story : Story) : Bool := areSettled story.fragments

/-- What the scripts inside texts assign, given what each of some scripts assigns. -/
def assignedBy (scripts : List (Markup.ScriptRef × Variables.Fragment)) (ids : List (List VarId)) :
    List (Nat × List VarId) :=
  (scripts.zip ids).filterMap fun ((ref, _), vars) =>
    if ref.origin = .inline then some (ref.span.start, vars) else none

theorem assignedBy_cons (ref : Markup.ScriptRef) (f : Variables.Fragment)
    (scripts : List (Markup.ScriptRef × Variables.Fragment)) (vars : List VarId)
    (ids : List (List VarId)) :
    assignedBy ((ref, f) :: scripts) (vars :: ids) = if ref.origin = .inline
      then (ref.span.start, vars) :: assignedBy scripts ids else assignedBy scripts ids := by
  rw [assignedBy, List.zip_cons_cons, List.filterMap_cons]
  split
  · next h =>
    rw [if_neg (by simpa using h)]
    rfl
  · next h =>
    obtain ⟨hin, heq⟩ := by simpa using h
    rw [if_pos hin, ← heq]
    rfl

namespace Session

variable {k s t : Session} {F : BlobId → Option Story}

/-! ## Reading stories into a session -/

/-- The content that a story becomes in a file. -/
def installed (s : Session) (id : BlobId) (story : Story) : StoryFile :=
  { content story with assigned := assignedBy story.scripts (s.store.replace id story.fragments).1 }

theorem blob?_install {id : BlobId} (h0 : id ≠ 0) (story : Story) (j : BlobId) :
    (s.install id story).blob? j = if j = id
      then (s.blob? j).map fun b => { b with story := some (s.installed id story) }
      else s.blob? j :=
  blob?_mapBlob h0 _ j

theorem install_store (id : BlobId) (story : Story) :
    (s.install id story).store = (s.store.replace id story.fragments).2 := rfl

theorem Holds.install (h : Holds k F s) {id : BlobId} (h0 : id ≠ 0) (story : Story) :
    Holds k (Function.update F id (some story)) (s.install id story) where
  root := h.root
  settings := h.settings
  top := h.top
  size := (mapBlob_size _ _ _).trans h.size
  blobs := by
    intro j
    rw [blob?_install h0]
    by_cases hj : j = id
    · subst hj
      have hblob := congrArg
        (Option.map fun b : Blob => { b with story := some (content story) }) (h.blobs j)
      simp only [if_true, Function.update_self, Option.map_map, Function.comp_def, plainBlob,
        Option.map_some] at hblob ⊢
      exact hblob
    · rw [if_neg hj, Function.update_of_ne hj]
      exact h.blobs j

/-- A session that holds stories whose assignments are what its store knows. -/
structure Tracks (k : Session) (F : BlobId → Option Story) (s : Session) : Prop
    extends Holds k F s where
  tidy : s.store.Tidy
  notes : ∀ g, Notes.of s.store.notes g = (ownNotes (((F g).map Story.fragments).getD [])).2.of g
  assigned : ∀ {id b c}, s.blob? id = some b → b.story = some c → ∃ story ids,
    F id = some story ∧ AtPaths s.store ids (ownNotes story.fragments).1 ∧
      c.assigned = assignedBy story.scripts ids

/-- Reading a settled story keeps a session on track. -/
theorem Tracks.install (h : Tracks k F s) {id : BlobId} (h0 : id ≠ 0) {story : Story}
    (hfile : ∀ f ∈ story.fragments, f.file = id) (hset : story.isSettled = true) :
    Tracks k (Function.update F id (some story)) (s.install id story) := by
  obtain ⟨htidy, hext, hown, hothers, hids⟩ := replace_notes h.tidy hfile hset
  refine { h.toHolds.install h0 story with tidy := htidy, notes := ?_, assigned := ?_ }
  · intro g
    rw [install_store]
    -- the fragments of other files keep their own notes, for the store is only extended by these
    by_cases hg : g = id
    · subst hg
      rw [Function.update_self]
      exact hown
    · rw [Function.update_of_ne hg]
      exact (hothers g (Ne.symm hg)).trans (h.notes g)
  · intro j b c hb hc
    rw [blob?_install h0] at hb
    by_cases hj : j = id
    · subst hj
      rw [if_pos rfl] at hb
      obtain ⟨b', -, rfl⟩ := Option.map_eq_some_iff.mp hb
      cases hc
      exact ⟨story, _, Function.update_self .., hids, rfl⟩
    · rw [if_neg hj] at hb
      obtain ⟨story', ids, hF, hat, hassigned⟩ := h.assigned hb hc
      refine ⟨story', ids, ?_, hat.extend hext htidy, hassigned⟩
      rw [Function.update_of_ne hj]
      exact hF

/-! ## Sessions on the same track -/

/-- Lists that agree up to `h` give the same if what is taken from them only needs `h`. -/
theorem filterMap_zipIdx_congr {α β γ : Type} {h : α → β} (φ φ' : α → Nat → Option γ) :
    {l l' : List α} → (n : Nat) → l.map h = l'.map h →
      (∀ a ∈ l, ∀ a' ∈ l', h a = h a' → ∀ i, φ a i = φ' a' i) →
      ((l.zipIdx n).filterMap fun p => φ p.1 p.2) = (l'.zipIdx n).filterMap fun p => φ' p.1 p.2
  | [], [], _, _, _ => rfl
  | [], _ :: _, _, hmap, _ => by simp at hmap
  | _ :: _, [], _, hmap, _ => by simp at hmap
  | a :: l, a' :: l', n, hmap, hφ => by
    obtain ⟨hhead, htail⟩ := List.cons.inj hmap
    have hrest := filterMap_zipIdx_congr φ φ' (n + 1) htail fun x hx x' hx' =>
      hφ x (List.mem_cons_of_mem _ hx) x' (List.mem_cons_of_mem _ hx')
    have hfirst := hφ a List.mem_cons_self a' List.mem_cons_self hhead n
    rw [List.zipIdx_cons, List.zipIdx_cons, List.filterMap_cons, List.filterMap_cons, hfirst, hrest]

theorem Holds.blob?_id (h : Holds k F s) (hids : ∀ {id b}, k.blob? id = some b → b.id = id)
    {b : Blob} (hb : b ∈ s.files) : s.blob? b.id = some b := by
  obtain ⟨id, hid, -⟩ := mem_files_iff.mp hb
  obtain ⟨b', hk, heq⟩ := h.blob? hid
  have : b.id = b'.id := congrArg (·.id) heq
  rwa [this, hids hk]

/-- Variables in two stores, each at the same path in both. -/
def Twins (S T : Store) (ids ids' : List VarId) : Prop :=
  ∃ ps, List.Forall₂ (fun id p => S.along? p = some id) ids ps ∧
    List.Forall₂ (fun id p => T.along? p = some id) ids' ps

/-- What the same scripts assign is at the same paths in both stores. -/
theorem twins_assignedBy {S T : Store} {ids ids' : List (List VarId)}
    {paths : List (List (List Bytes))} (h : AtPaths S ids paths) (h' : AtPaths T ids' paths)
    (scripts : List (Markup.ScriptRef × Variables.Fragment)) (n : Nat) :
    Twins S T (((assignedBy scripts ids).lookup n).getD [])
      (((assignedBy scripts ids').lookup n).getD []) := by
  induction h generalizing ids' scripts with
  | nil =>
    cases h'
    exact ⟨[], by simp [assignedBy], by simp [assignedBy]⟩
  -- the scripts are taken in the same order in both stores, one list of ids for each
  | @cons vars ps ids paths hv hrest ih =>
    obtain _ | ⟨hv', hrest'⟩ := h'
    cases scripts with
    | nil => exact ⟨[], by simp [assignedBy], by simp [assignedBy]⟩
    | cons script scripts =>
      have hih := ih hrest' scripts
      rw [assignedBy_cons, assignedBy_cons]
      split
      · rw [List.lookup_cons, List.lookup_cons]
        split
        · exact ⟨ps, hv, hv'⟩
        · exact hih
      · exact hih

theorem Twins.scriptVariables {S T : Store} (hS : S.Tidy) (hT : T.Tidy) (h : S.SameKinds T)
    {ids ids' : List VarId} (htwins : Twins S T ids ids') :
    Export.scriptVariables (ids.map fun id => ⟨S.fullName id, S.kindOf id⟩)
      = Export.scriptVariables (ids'.map fun id => ⟨T.fullName id, T.kindOf id⟩) := by
  obtain ⟨ps, hids, hids'⟩ := htwins
  simp only [Export.scriptVariables, List.map_map, Datum.list.injEq]
  induction hids generalizing ids' with
  | nil =>
    cases hids'
    rfl
  | @cons id p ids ps hp _ ih =>
    obtain _ | @⟨id', _, _, _, hp', hrest⟩ := hids'
    obtain ⟨v, hv⟩ := Store.exists_get?_of_along? hp
    obtain ⟨v', hv'⟩ := Store.exists_get?_of_along? hp'
    have hkind : (S.kindOf id).tag = (T.kindOf id').tag := by
      rw [Store.kindOf, Store.kindOf, hv, hv', Option.map_some, Option.map_some, Option.getD_some,
        Option.getD_some, ← Variables.Kind.tag_shape v.kind, h.kind_shape hS hT hp hv hp' hv',
        Variables.Kind.tag_shape]
    simp only [List.map_cons, Function.comp_apply, Store.fullName_eq hS.toWellFormed hp,
      Store.fullName_eq hT.toWellFormed hp', hkind, ih hrest]

theorem Tracks.sameKinds (hs : Tracks k F s) (ht : Tracks k F t) : s.store.SameKinds t.store :=
  (Store.sameNotes_of_files fun g => (hs.notes g).trans (ht.notes g).symm).sameKinds

/-- Files at the same place show the same of their variables. -/
theorem Tracks.assignedIn (hs : Tracks k F s) (ht : Tracks k F t) {id : BlobId} {b b' : Blob}
    (hb : s.blob? id = some b) (hb' : t.blob? id = some b') {c c' : StoryFile}
    (hc : b.story = some c) (hc' : b'.story = some c') (n : Nat) :
    Export.scriptVariables (s.assignedIn c n) = Export.scriptVariables (t.assignedIn c' n) := by
  obtain ⟨story, ids, hF, hat, hassigned⟩ := hs.assigned hb hc
  obtain ⟨story', ids', hF', hat', hassigned'⟩ := ht.assigned hb' hc'
  obtain rfl : story = story' := Option.some.inj (hF.symm.trans hF')
  rw [Session.assignedIn, Session.assignedIn, hassigned, hassigned']
  exact (twins_assignedBy hat hat' story.scripts n).scriptVariables hs.tidy ht.tidy
    (hs.sameKinds ht)

theorem Holds.outline_eq (hs : Holds k F s) (ht : Holds k F t)
    (hids : ∀ {id b}, k.blob? id = some b → b.id = id) :
    s.overview.outline = t.overview.outline := by
  have hdocs (u : Session) : (u.files.filterMap fun b => b.story.map (·.document))
      = (u.files.map plainBlob).filterMap fun b => b.story.map (·.document) := by
    rw [List.filterMap_map]
    refine List.filterMap_congr fun b _ => ?_
    simp [plainBlob, plainContent, Function.comp_def]
  simp only [overview, hdocs s, hdocs t, hs.files hids, ht.files hids]

/-- The compiled form of a file of a project. -/
def compiledFile [Fuzzy] (s : Session) (i : Nat) (b : Blob) (c : StoryFile) : Datum :=
  Export.projectFile (s.pathOf b) (s.assignedIn c) c.document
    (s.diagnosticsOf s.overview i b.id c)

/-- The compiled forms of the files of a project. -/
def compiledFiles [Fuzzy] (s : Session) : List Datum :=
  s.files.zipIdx.filterMap fun p => p.1.story.map (s.compiledFile p.2 p.1)

theorem compile_eq_project [Fuzzy] (s : Session) :
    s.compile = Export.project s.compiledFiles s.store.snapshot := by
  have hfiles : (s.contents.map fun p => s.compiledFile p.1 p.2.1 p.2.2) = s.compiledFiles := by
    rw [contents, List.map_filterMap]
    refine List.filterMap_congr fun p _ => ?_
    simp [Function.comp_def]
  rw [← hfiles]
  rfl

/-- Files at the same place compile to the same if the overviews agree. -/
theorem Tracks.compiledFile_eq [Fuzzy] (hs : Tracks k F s) (ht : Tracks k F t)
    (hoverview : s.overview = t.overview) {b b' : Blob} (hb : s.blob? b.id = some b)
    (hb' : t.blob? b'.id = some b') (hplain : plainBlob b = plainBlob b') (i : Nat) :
    b.story.map (s.compiledFile i b) = b'.story.map (t.compiledFile i b') := by
  have hid : b.id = b'.id := congrArg (·.id) hplain
  have hstory : b.story.map plainContent = b'.story.map plainContent := congrArg (·.story) hplain
  have hpath : s.pathOf b = t.pathOf b' :=
    (hs.alike.pathOf (congrArg (·.ancestors) hplain) (congrArg (·.name) hplain)).trans
      (ht.alike.pathOf rfl rfl).symm
  cases hc : b.story with
  | none =>
    rw [hc] at hstory
    rw [Option.map_eq_none_iff.mp hstory.symm, Option.map_none, Option.map_none]
  | some c =>
    rw [hc] at hstory
    obtain ⟨c', hc', heq⟩ := Option.map_eq_some_iff.mp hstory.symm
    have hdocument : c.document = c'.document := congrArg (·.document) heq.symm
    have hdiagnostics : c.diagnostics = c'.diagnostics := congrArg (·.diagnostics) heq.symm
    have hblocks : Export.blocks (s.assignedIn c) c'.document.blocks
        = Export.blocks (t.assignedIn c') c'.document.blocks :=
      (Export.blocks_eq_iff _).mpr fun n _ =>
        hs.assignedIn ht hb (hid ▸ hb') hc hc' n
    have hsettings : s.settings = t.settings := hs.settings.trans ht.settings.symm
    simp only [hc', Option.map_some, compiledFile, Export.projectFile, diagnosticsOf, hpath, hid,
      hoverview, hdocument, hdiagnostics, hblocks, hsettings]

/-- Sessions on the same track compile to the same, unless variables are assigned different
kinds. -/
theorem Tracks.compile_eq [Fuzzy] (hs : Tracks k F s) (ht : Tracks k F t)
    (hids : ∀ {id b}, k.blob? id = some b → b.id = id) (hc : t.store.conflicts = []) :
    s.compile = t.compile := by
  have hsame := hs.sameKinds ht
  have hoverview : s.overview = t.overview := by
    have hnone := hsame.conflicts_eq_nil hs.tidy ht.tidy hc
    have houtline := hs.toHolds.outline_eq ht.toHolds hids
    simp only [overview, hnone, hc, List.map_nil] at houtline ⊢
    rw [houtline]
  have htable : Export.entries s.store.snapshot = Export.entries t.store.snapshot := by
    rw [← Export.entries_shape, hsame.snapshot_shape hs.tidy ht.tidy, Export.entries_shape]
  have hfiles : s.compiledFiles = t.compiledFiles := by
    unfold compiledFiles
    exact filterMap_zipIdx_congr (fun b i => b.story.map (s.compiledFile i b))
      (fun b i => b.story.map (t.compiledFile i b)) 0
      ((hs.files hids).trans (ht.files hids).symm) fun b hb b' hb' hplain i =>
        hs.compiledFile_eq ht hoverview (hs.blob?_id hids hb) (ht.blob?_id hids hb') hplain i
  rw [compile_eq_project, compile_eq_project, hfiles, Export.project, Export.project, htable]

/-! ## Opening -/

/-- A session with blobs none of which was read. -/
structure Blank (k : Session) : Prop where
  store : k.store = {}
  ids : ∀ {id b}, k.blob? id = some b → b.id = id
  stories : ∀ {id b}, k.blob? id = some b → b.story = none

theorem Blank.alloc (h : Blank k) (name : Bytes) (parent : BlobId) (isDirectory : Bool) :
    Blank (k.alloc name parent isDirectory).2 := by
  have hstore : (k.alloc name parent isDirectory).2.store = k.store := by
    unfold Session.alloc mapChildren
    split <;> rfl
  have hblob {id : BlobId} {b : Blob}
      (hb : (k.alloc name parent isDirectory).2.blob? id = some b) :
      b.id = id ∧ b.story = none := by
    rw [blob?_alloc] at hb
    split at hb
    · cases hb
      exact ⟨rfl, rfl⟩
    · obtain ⟨b', hb', rfl⟩ := Option.map_eq_some_iff.mp hb
      have hold := And.intro (h.ids hb') (h.stories hb')
      split
      · exact hold
      · exact hold
  exact ⟨hstore.trans h.store, fun hb => (hblob hb).1, fun hb => (hblob hb).2⟩

theorem blank_of_scanned {storage : Storage} {root : Bytes} {settings : Settings} {s₀ : Session}
    (hstart : start storage root settings = .ok s₀) (hscan : s₀.scanned = .ok k) : Blank k := by
  have hempty : s₀.store = {} ∧ s₀.blobs = #[] := by
    obtain ⟨place, rfl⟩ := start_ok hstart
    exact ⟨rfl, rfl⟩
  have hnone (id : BlobId) : s₀.blob? id = none := by simp [Session.blob?, hempty.2]
  have hblank : Blank s₀ :=
    ⟨hempty.1, fun hb => by simp [hnone] at hb, fun hb => by simp [hnone] at hb⟩
  exact scan_keeps (fun s name parent isDirectory hs => hs.alloc name parent isDirectory) _ hscan
    hblank

theorem Blank.tracks (h : Blank k) : Tracks k (fun _ => none) k where
  root := rfl
  settings := rfl
  top := rfl
  size := rfl
  blobs := by
    intro id
    refine Option.map_congr fun b hb => ?_
    simp [plainBlob, h.stories hb]
  tidy := h.store ▸ Store.tidy_empty
  notes := by
    intro g
    have hnone (p : List Bytes) : k.store.along? p = none := by
      rw [h.store]
      cases p with
      | nil => rfl
      | cons n rest =>
        exact Option.bind_eq_none_iff.mpr fun o _ => by simp [Store.find?_eq_none_iff, Store.get?]
    funext p
    rw [Notes.of_apply, Store.notes_eq_nil (hnone p)]
    rfl
  assigned := by
    intro id b c hb hc
    rw [h.stories hb] at hc
    cases hc

/-- The stories of the files of a session, given their texts. -/
def storiesOf (k : Session) (texts : BlobId → Bytes) (id : BlobId) : Option Story :=
  ((k.blob? id).filter fun b => !b.isDirectory).map fun b => k.readText b (texts id)

variable {texts : BlobId → Bytes}

theorem storiesOf_file {id : BlobId} {b : Blob} (hb : k.blob? id = some b)
    (hfile : b.isDirectory = false) : k.storiesOf texts id = some (k.readText b (texts id)) := by
  simp [storiesOf, hb, hfile]

theorem storiesOf_eq_none {id : BlobId} (h : ∀ b, k.blob? id = some b → b.isDirectory ≠ false) :
    k.storiesOf texts id = none := by
  cases hb : k.blob? id with
  | none => simp [storiesOf, hb]
  | some b => simp [storiesOf, hb, h b hb]

theorem update_storiesOf {id : BlobId} {b : Blob} (hb : k.blob? id = some b)
    (hfile : b.isDirectory = false) (text : Bytes) :
    Function.update (k.storiesOf texts) id (some (k.readText b text))
      = k.storiesOf (Function.update texts id text) := by
  funext j
  by_cases hj : j = id
  · subst hj
    rw [Function.update_self, storiesOf_file hb hfile, Function.update_self]
  · rw [Function.update_of_ne hj, storiesOf, storiesOf, Function.update_of_ne hj]

/-- Stories put in place one after the other. -/
def placed (F : BlobId → Option Story) (stories : List (BlobId × Story)) : BlobId → Option Story :=
  stories.foldl (fun (F : BlobId → Option Story) p => Function.update F p.1 (some p.2)) F

theorem placed_storiesOf {stories : List (BlobId × Story)}
    (h : ∀ p ∈ stories, k.storiesOf texts p.1 = some p.2) (F : BlobId → Option Story)
    (id : BlobId) :
    placed F stories id = if id ∈ stories.map (·.1) then k.storiesOf texts id else F id := by
  induction stories generalizing F with
  | nil => simp [placed]
  | cons p stories ih =>
    have hrest := ih (fun q hq => h q (List.mem_cons_of_mem _ hq))
      (Function.update F p.1 (some p.2))
    rw [placed, List.foldl_cons, ← placed, hrest]
    by_cases hin : id ∈ stories.map (·.1)
    · rw [if_pos hin, if_pos (by simp only [List.map_cons]; exact List.mem_cons_of_mem _ hin)]
    · rw [if_neg hin]
      by_cases hid : id = p.1
      · subst hid
        rw [Function.update_self, if_pos (by simp), h p List.mem_cons_self]
      · rw [Function.update_of_ne hid, if_neg (by simpa [hid] using hin)]

theorem Holds.installAll (h : Holds k F s) {stories : List (BlobId × Story)}
    (hs : ∀ p ∈ stories, p.1 ≠ 0) :
    Holds k (placed F stories) (stories.foldl (fun s p => s.install p.1 p.2) s) := by
  induction stories generalizing F s with
  | nil => exact h
  | cons p stories ih =>
    exact ih (h.install (hs p List.mem_cons_self) p.2) fun q hq => hs q (List.mem_cons_of_mem _ hq)

theorem Tracks.installAll (h : Tracks k F s) {stories : List (BlobId × Story)}
    (hs : ∀ p ∈ stories, p.1 ≠ 0 ∧ (∀ f ∈ p.2.fragments, f.file = p.1) ∧ p.2.isSettled = true) :
    Tracks k (placed F stories) (stories.foldl (fun s p => s.install p.1 p.2) s) := by
  induction stories generalizing F s with
  | nil => exact h
  | cons p stories ih =>
    obtain ⟨h0, hfile, hset⟩ := hs p List.mem_cons_self
    exact ih (h.install h0 hfile hset) fun q hq => hs q (List.mem_cons_of_mem _ hq)

theorem readText_fragments {b : Blob} {text : Bytes} :
    ∀ f ∈ (s.readText b text).fragments, f.file = b.id := by
  intro f hf
  simp only [readText, Story.ofText, Story.fragments, List.map_map, List.mem_map] at hf
  obtain ⟨ref, -, rfl⟩ := hf
  rfl

/-- The texts of the files of a session, as they are stored. -/
def storedTexts (k : Session) (id : BlobId) : Bytes := ((k.blob? id).map k.storedText).getD []

theorem Blank.blob?_of_mem (hk : Blank k) {b : Blob} (hb : b ∈ k.files) :
    k.blob? b.id = some b ∧ b.isDirectory = false := by
  obtain ⟨id, hid, hfile⟩ := mem_files_iff.mp hb
  rw [hk.ids hid]
  exact ⟨hid, hfile⟩

theorem Blank.placed_storedStories (hk : Blank k) :
    placed (fun _ => none) k.storedStories = k.storiesOf k.storedTexts := by
  have hplaced : ∀ p ∈ k.storedStories, k.storiesOf k.storedTexts p.1 = some p.2 := by
    intro p hp
    obtain ⟨b, hb, rfl⟩ := List.mem_map.mp hp
    obtain ⟨hblob, hfile⟩ := hk.blob?_of_mem hb
    rw [storiesOf_file hblob hfile, storedTexts, hblob]
    rfl
  funext id
  rw [placed_storiesOf hplaced]
  split
  · rfl
  · next hnot =>
    refine (storiesOf_eq_none fun b hb hfile => hnot ?_).symm
    refine List.mem_map.mpr ⟨_, List.mem_map.mpr ⟨b, mem_files_iff.mpr ⟨id, hb, hfile⟩, rfl⟩, ?_⟩
    exact hk.ids hb

theorem Blank.storedStories_ne (hk : Blank k) : ∀ p ∈ k.storedStories, p.1 ≠ 0 := by
  intro p hp
  obtain ⟨b, hb, rfl⟩ := List.mem_map.mp hp
  exact ne_zero_of_blob? (hk.blob?_of_mem hb).1

theorem Blank.holds_loaded (hk : Blank k) (h : k.loaded = .ok s) :
    Holds k (k.storiesOf k.storedTexts) s := by
  obtain ⟨-, rfl⟩ := loaded_eq_ok_iff.mp h
  rw [← hk.placed_storedStories]
  exact hk.tracks.toHolds.installAll hk.storedStories_ne

theorem Blank.tracks_loaded (hk : Blank k) (h : k.loaded = .ok s)
    (hset : ∀ b ∈ k.files, (k.readText b (k.storedText b)).isSettled = true) :
    Tracks k (k.storiesOf k.storedTexts) s := by
  obtain ⟨-, rfl⟩ := loaded_eq_ok_iff.mp h
  rw [← hk.placed_storedStories]
  refine hk.tracks.installAll fun p hp => ⟨hk.storedStories_ne p hp, ?_⟩
  obtain ⟨b, hb, rfl⟩ := List.mem_map.mp hp
  exact ⟨readText_fragments, hset b hb⟩

/-! ## Recompiling -/

/-- The session with another text for a file; a text for what is no file changes nothing. -/
def retyped (s : Session) (id : BlobId) (text : Bytes) : Session :=
  match s.recompile id text with
  | .ok s' => s'
  | .error _ => s

/-- The session after files were given other texts, one after the other. -/
def recompiled (s : Session) (edits : List (BlobId × Bytes)) : Session :=
  edits.foldl (fun s e => s.retyped e.1 e.2) s

/-- The texts of files after some were given others. -/
def retexted (texts : BlobId → Bytes) (edits : List (BlobId × Bytes)) : BlobId → Bytes :=
  edits.foldl (fun (texts : BlobId → Bytes) e => Function.update texts e.1 e.2) texts

/-- Recompiling with a settled text keeps a session on track. -/
theorem Tracks.retyped (hk : Blank k) (h : Tracks k (k.storiesOf texts) s) {id : BlobId}
    {text : Bytes} (hset : ∀ b ∈ k.files, b.id = id → (k.readText b text).isSettled = true) :
    Tracks k (k.storiesOf (Function.update texts id text)) (s.retyped id text) := by
  by_cases hfile : ∃ b, k.blob? id = some b ∧ b.isDirectory = false
  · obtain ⟨b, hb, hdir⟩ := hfile
    obtain ⟨b', hb', heq⟩ := h.exists_blob? hb
    have hdir' : b'.isDirectory = false := (congrArg (·.isDirectory) heq).trans hdir
    have hread : s.readText b' text = k.readText b text :=
      h.alike.readText (congrArg (·.id) heq) (congrArg (·.ancestors) heq)
        (congrArg (·.name) heq) text
    have hrecompile : s.retyped id text = s.install id (k.readText b text) := by
      rw [Session.retyped, recompile, fileBlob_eq_ok_iff.mpr ⟨hb', hdir'⟩]
      simp only [bind, Except.bind, pure, Except.pure, hread]
    rw [hrecompile, ← update_storiesOf hb hdir]
    have hid := hk.ids hb
    refine h.install (ne_zero_of_blob? hb) ?_ (hset b (mem_files_iff.mpr ⟨id, hb, hdir⟩) hid)
    exact hid ▸ readText_fragments
  · have hnone : k.storiesOf (Function.update texts id text) = k.storiesOf texts := by
      funext j
      by_cases hj : j = id
      · subst hj
        have hnot : ∀ b, k.blob? j = some b → b.isDirectory ≠ false :=
          fun b hb hd => hfile ⟨b, hb, hd⟩
        rw [storiesOf_eq_none hnot, storiesOf_eq_none hnot]
      · rw [storiesOf, storiesOf, Function.update_of_ne hj]
    have hsame : s.retyped id text = s := by
      cases hr : s.fileBlob id with
      | error e =>
        rw [Session.retyped, recompile, hr]
        rfl
      | ok b =>
        obtain ⟨hb, hd⟩ := fileBlob_eq_ok_iff.mp hr
        obtain ⟨b', hb', heq⟩ := h.blob? hb
        exact absurd ⟨b', hb', (congrArg (·.isDirectory) heq).symm.trans hd⟩ hfile
    rwa [hnone, hsame]

theorem Tracks.recompiled (hk : Blank k) (h : Tracks k (k.storiesOf texts) s)
    {edits : List (BlobId × Bytes)}
    (hset : ∀ b ∈ k.files, ∀ text, (b.id, text) ∈ edits → (k.readText b text).isSettled = true) :
    Tracks k (k.storiesOf (retexted texts edits)) (s.recompiled edits) := by
  induction edits generalizing texts s with
  | nil => exact h
  | cons e edits ih =>
    refine ih (h.retyped hk fun b hb hid => hset b hb e.2 ?_) fun b hb text hin =>
      hset b hb text (List.mem_cons_of_mem _ hin)
    rw [hid]
    exact List.mem_cons_self

theorem retexted_eq (texts : BlobId → Bytes) (edits : List (BlobId × Bytes)) (id : BlobId) :
    retexted texts edits id = texts id ∨ (id, retexted texts edits id) ∈ edits := by
  induction edits generalizing texts with
  | nil => exact .inl rfl
  | cons e edits ih =>
    rcases ih (Function.update texts e.1 e.2) with h | h
    · rw [retexted, List.foldl_cons, ← retexted, h]
      by_cases hid : id = e.1
      · subst hid
        rw [Function.update_self]
        exact .inr List.mem_cons_self
      · rw [Function.update_of_ne hid]
        exact .inl rfl
    · exact .inr (List.mem_cons_of_mem _ h)

/-- The texts that a session shows are those that it holds the stories of. -/
theorem Holds.text_eq (h : Holds k (k.storiesOf texts) s)
    (hids : ∀ {id b}, k.blob? id = some b → b.id = id) {b : Blob} (hb : b ∈ s.files) :
    b.text = texts b.id := by
  have hblob := h.blob?_id hids hb
  obtain ⟨b', hb', heq⟩ := h.blob? hblob
  obtain ⟨-, -, hfile⟩ := mem_files_iff.mp hb
  have hfile' : b'.isDirectory = false := (congrArg (·.isDirectory) heq).symm.trans hfile
  have hstory : b.story.map plainContent = (k.storiesOf texts b.id).map content :=
    congrArg (·.story) heq
  rw [storiesOf_file hb' hfile'] at hstory
  obtain ⟨c, hc, hplain⟩ := Option.map_eq_some_iff.mp hstory
  have hcontent : c.file = (k.readText b' (texts b.id)).file := congrArg (·.file) hplain
  rw [Blob.text, hc, Option.map_some, Option.getD_some, hcontent]
  exact List.toList_toArray

/-! ## Opening afresh -/

/-- Projects in memory that differ in the texts of files only. -/
structure SamePlaces (m m' : Storage.Memory) : Prop where
  files : m'.files.map (·.1) = m.files.map (·.1)
  directories : m'.directories = m.directories

theorem SamePlaces.list_eq {m m' : Storage.Memory} (h : SamePlaces m m') (d : Bytes) :
    m'.list d = m.list d := by
  have hlisted (m : Storage.Memory) (place : Bytes) :
      (m.files.filterMap fun f => if Storage.parent f.1 = place
          then some (⟨Path.base f.1, false⟩ : Storage.Listed) else none)
        = (m.files.map (·.1)).filterMap fun f => if Storage.parent f = place
          then some (⟨Path.base f, false⟩ : Storage.Listed) else none := by
    rw [List.filterMap_map]
    rfl
  simp only [Storage.Memory.list, Storage.Memory.hasDirectory, hlisted, h.files, h.directories]

/-- The same project with other texts is opened with the same blobs. -/
theorem SamePlaces.scanned {m m' : Storage.Memory} (h : SamePlaces m m') {root : Bytes}
    {settings : Settings} {s₀ : Session} (hstart : start (.memory m) root settings = .ok s₀)
    (hscan : s₀.scanned = .ok k) :
    start (.memory m') root settings = .ok (s₀.withStorage (.memory m')) ∧
      (s₀.withStorage (.memory m')).scanned = .ok (k.withStorage (.memory m')) := by
  have hstorage : s₀.storage = .memory m := by
    rw [start] at hstart
    split at hstart <;> cases hstart
    rfl
  constructor
  · rw [start] at hstart ⊢
    split at hstart <;> cases hstart
    rfl
  · have hsize : (s₀.withStorage (.memory m')).storage.size = s₀.storage.size := by
      have hlength := congrArg List.length h.files
      simp only [List.length_map] at hlength
      simp only [withStorage, hstorage, Storage.size, hlength, h.directories]
    have hlist : ∀ d, (Storage.memory m').list d = (Storage.memory m).list d := h.list_eq
    rw [Session.scanned] at hscan ⊢
    rw [hsize]
    show scan _ 0 s₀.root (s₀.withStorage (.memory m')) = _
    rw [scan_withStorage hlist _ _ _ hstorage, hscan]
    rfl

theorem Blank.storedTexts_eq (hk : Blank k) {b : Blob} (hb : b ∈ k.files) :
    k.storedTexts b.id = k.storedText b := by
  rw [storedTexts, (hk.blob?_of_mem hb).1]
  rfl

/-- On a storage with certain texts, a blank session is loaded with their stories. -/
theorem Blank.exists_loaded (hk : Blank k) (texts : BlobId → Bytes)
    (hread : ∀ b ∈ k.files, k.storage.read (k.storagePath b) = .ok (texts b.id))
    (hset : ∀ b ∈ k.files, (k.readText b (texts b.id)).isSettled = true) :
    ∃ t, k.loaded = .ok t ∧ Tracks k (k.storiesOf texts) t := by
  have hstored : ∀ b ∈ k.files, k.storedText b = texts b.id := by
    intro b hb
    rw [storedText, hread b hb]
  have hstories : k.storiesOf k.storedTexts = k.storiesOf texts := by
    funext id
    by_cases hfile : ∃ b, k.blob? id = some b ∧ b.isDirectory = false
    · obtain ⟨b, hb, hd⟩ := hfile
      have hin := mem_files_iff.mpr ⟨id, hb, hd⟩
      rw [storiesOf_file hb hd, storiesOf_file hb hd, ← hk.ids hb, hk.storedTexts_eq hin,
        hstored b hin]
    · have hnot : ∀ b, k.blob? id = some b → b.isDirectory ≠ false :=
        fun b hb hd => hfile ⟨b, hb, hd⟩
      rw [storiesOf_eq_none hnot, storiesOf_eq_none hnot]
  have hload : k.loaded = .ok (k.storedStories.foldl (fun s p => s.install p.1 p.2) k) := by
    refine loaded_eq_ok_iff.mpr ⟨fun b hb => ?_, rfl⟩
    rw [hstored b hb]
    exact hread b hb
  refine ⟨_, hload, hstories ▸ hk.tracks_loaded hload fun b hb => ?_⟩
  rw [hstored b hb]
  exact hset b hb

/-- Recompiling agrees with opening afresh on the latest texts, if no assignment takes its kind from
a variable and no variable is assigned different kinds. -/
theorem recompiled_compile [Fuzzy] {m m' : Storage.Memory} {root : Bytes} {settings : Settings}
    (opened : openProject (.memory m) root settings = .ok s) (edits : List (BlobId × Bytes))
    (places : SamePlaces m m')
    (latest : ∀ b ∈ (s.recompiled edits).files,
      m'.read ((s.recompiled edits).storagePath b) = .ok b.text)
    (settled : ∀ b ∈ s.files, ∀ text, text = b.text ∨ (b.id, text) ∈ edits →
      (s.readText b text).isSettled = true) :
    ∃ t, openProject (.memory m') root settings = .ok t ∧
      (t.store.conflicts = [] → (s.recompiled edits).compile = t.compile) := by
  obtain ⟨s₀, k, hstart, hscan, hload⟩ := openProject_eq_ok_iff.mp opened
  obtain ⟨hstart', hscan'⟩ := places.scanned hstart hscan
  have hk := blank_of_scanned hstart hscan
  have hk' := blank_of_scanned hstart' hscan'
  have hholds := hk.holds_loaded hload
  -- what was read at the start and what is read again is settled, whatever kinds are known
  have hsettled : ∀ b ∈ k.files, ∀ text,
      text = k.storedTexts b.id ∨ (b.id, text) ∈ edits → (k.readText b text).isSettled = true := by
    intro b hb text htext
    obtain ⟨hblob, hfile⟩ := hk.blob?_of_mem hb
    obtain ⟨b', hblob', heq⟩ := hholds.exists_blob? hblob
    have hid : b'.id = b.id := congrArg (·.id) heq
    have hb' : b' ∈ s.files :=
      mem_files_iff.mpr ⟨_, hblob', (congrArg (·.isDirectory) heq).trans hfile⟩
    rw [← hholds.alike.readText hid (congrArg (·.ancestors) heq) (congrArg (·.name) heq)]
    refine settled b' hb' text ?_
    rwa [hholds.text_eq hk.ids hb', hid]
  -- what is inside the moved place has its directory there, too, unless it is that place itself
  have htracks := (hk.tracks_loaded hload fun b hb => hsettled b hb _
    (.inl (hk.storedTexts_eq hb).symm)).recompiled hk fun b hb text hin =>
      hsettled b hb text (.inr hin)
  have hread : ∀ b ∈ k.files,
      m'.read (k.storagePath b) = .ok (retexted k.storedTexts edits b.id) := by
    intro b hb
    obtain ⟨hblob, hfile⟩ := hk.blob?_of_mem hb
    obtain ⟨b', hblob', heq⟩ := htracks.exists_blob? hblob
    have hb' : b' ∈ (s.recompiled edits).files :=
      mem_files_iff.mpr ⟨_, hblob', (congrArg (·.isDirectory) heq).trans hfile⟩
    have hid : b'.id = b.id := congrArg (·.id) heq
    have hpath : (s.recompiled edits).storagePath b' = k.storagePath b :=
      htracks.alike.storagePath (congrArg (·.ancestors) heq) (congrArg (·.name) heq)
    rw [← hid, ← htracks.text_eq hk.ids hb', ← latest b' hb', hpath]
  obtain ⟨t, hload', ht⟩ := hk'.exists_loaded (retexted k.storedTexts edits) hread fun b hb =>
    hsettled b hb _ (retexted_eq _ _ _)
  refine ⟨t, openProject_eq_ok_iff.mpr ⟨_, _, hstart', hscan', hload'⟩, fun hc => ?_⟩
  -- the two blank sessions differ in their storage only, which no track mentions
  have ht : Tracks k (k.storiesOf (retexted k.storedTexts edits)) t :=
    ⟨⟨ht.root, ht.settings, ht.top, ht.size, ht.blobs⟩, ht.tidy, ht.notes, ht.assigned⟩
  exact htracks.compile_eq ht hk.ids hc

/-- Two files assign numbers to one variable, and one of them is recompiled. -/
theorem recompiled_count : ∃ s t,
    openProject (.memory (twoFiles "\x7bx = 1\x7d\n" "\x7bx = 2\x7d\n")) [] {} = .ok s ∧
    openProject (.memory (twoFiles "\x7bx = 3\x7d\n" "\x7bx = 2\x7d\n")) [] {} = .ok t ∧
    (s.recompiled [(1, "\x7bx = 3\x7d\n")]).compile = t.compile := by
  have hopen := open_twoFiles "\x7bx = 1\x7d\n" "\x7bx = 2\x7d\n"
  have hplaces : SamePlaces (twoFiles "\x7bx = 1\x7d\n" "\x7bx = 2\x7d\n")
      (twoFiles "\x7bx = 3\x7d\n" "\x7bx = 2\x7d\n") := ⟨rfl, rfl⟩
  have hset : ∀ b ∈ (twoOpened "\x7bx = 1\x7d\n" "\x7bx = 2\x7d\n").files,
      ∀ text ∈ [b.text, "\x7bx = 3\x7d\n"],
        ((twoOpened "\x7bx = 1\x7d\n" "\x7bx = 2\x7d\n").readText b text).isSettled = true := by
    decide +kernel
  have hlisted : ∀ b : Blob, ∀ text,
      text = b.text ∨ (b.id, text) ∈ [((1 : BlobId), ("\x7bx = 3\x7d\n" : Bytes))] →
        text ∈ [b.text, "\x7bx = 3\x7d\n"] := by
    simp
  obtain ⟨t, ht, heq⟩ := recompiled_compile hopen [(1, "\x7bx = 3\x7d\n")] hplaces
    (by decide +kernel) fun b hb text htext => hset b hb text (hlisted b text htext)
  obtain rfl := Except.ok.inj ((open_twoFiles _ _).symm.trans ht)
  exact ⟨_, _, hopen, ht, heq (by decide +kernel)⟩

theorem compiledFiles_eq_of_compile [Fuzzy] (h : s.compile = t.compile) :
    s.compiledFiles = t.compiledFiles := by
  rw [compile_eq_project, compile_eq_project] at h
  injection h with h
  injection h with h
  injection h with _ h
  injection h

/-- A file is recompiled with the text it has, and shows another kind: `x` takes the kind of `y`,
which was not known yet when the project was opened. -/
theorem recompile_reads_later_kind : ∃ s s',
    openProject (.memory (twoFiles "\x7bx = y\x7d\n" "\x7by = 1\x7d\n")) [] {} = .ok s ∧
    s.recompile 1 "\x7bx = y\x7d\n" = .ok s' ∧ s'.compile ≠ s.compile := by
  refine ⟨_, (twoOpened _ _).retyped 1 "\x7bx = y\x7d\n", open_twoFiles _ _, rfl, ?_⟩
  intro h
  have hfiles := congrArg (List.map (·.toJson.compact)) (compiledFiles_eq_of_compile h)
  revert hfiles
  decide +kernel

end Session

end Storyline
