import Mathlib.Logic.Relation
import Storyline.Proofs.Session.Sources

/-!
# The arena of a session

Whatever happens to an open project, its blobs stay an arena: each has its number, is once in the
list of one directory, knows the directories around it, and no number is given out twice
(`arena_afterEvents`).  All that can happen is made of five steps (`Step`), and each of them keeps
the trees, the paths of sources and the numbers that are gone.

The source of a file has the path of its blob, cleaned.  The two are the same if no name holds a
slash.  Creating a file checks its name before the extension is added, so an extension with a slash
gives a blob a path that its source does not have (`create_unclean`).
-/

namespace Storyline

namespace Storage

variable {storage : Storage} {path name : Bytes}

/-- No name in a listing holds a slash. -/
def Slashless (storage : Storage) : Prop :=
  ∀ path entries, storage.list path = .ok entries → ∀ e ∈ entries, ('/' : UInt8) ∉ e.name

theorem Memory.Formed.slashless {m : Memory} (h : m.Formed) : Slashless (.memory m) :=
  fun _ _ hlist _ he => h.slash_not_mem hlist he

theorem exists_base_of_readDir {disk : Disk} {names : List (Bytes × Bool)}
    (h : disk.readDir path = .ok names) {n : Bytes × Bool} (hn : n ∈ names) :
    ∃ q, n.1 = Path.base q := by
  rw [Disk.readDir] at h
  split at h
  · obtain rfl := Except.ok.inj h
    simp only [Disk.inside, List.mem_map, Bytes.mem_sortOn] at hn
    obtain ⟨_, ⟨e, -, rfl⟩, rfl⟩ := hn
    exact ⟨e.1, rfl⟩
  · cases h
  · cases h

/-- Listed names are not empty. -/
theorem name_ne_nil_of_list {entries : List Listed} (h : storage.list path = .ok entries)
    {e : Listed} (he : e ∈ entries) : e.name ≠ [] := by
  cases storage with
  | memory m =>
    obtain ⟨-, q, -, hname⟩ := Memory.exists_place_of_list h he
    rw [hname]
    exact base_ne_nil q
  | folder f =>
    rw [list, Folder.list, Folder.atPlace] at h
    split at h
    · cases h
    · next place hlocated =>
      cases hread : f.disk.readDir (f.absolute place) with
      | error e => simp [hread, Except.mapError] at h
      | ok names =>
        obtain rfl : names.map (fun n => (⟨n.1, n.2⟩ : Listed)) = entries := by
          simpa [hread, Except.mapError] using h
        obtain ⟨n, hn, rfl⟩ := List.mem_map.mp he
        obtain ⟨q, hq⟩ := exists_base_of_readDir hread hn
        rw [hq]
        exact base_ne_nil q

/-- An entry is renamed only to a name of an entry. -/
theorem isEntryName_of_rename {r : (Bytes × Bool) × Storage}
    (h : storage.rename path name = .ok r) : isEntryName name = true := by
  cases storage with
  | memory m =>
    obtain ⟨r', hr', -⟩ := Session.map_eq_ok_iff.mp h
    exact Memory.isEntryName_of_rename hr'
  | folder f =>
    obtain ⟨r', hr', -⟩ := Session.map_eq_ok_iff.mp h
    rw [Folder.rename] at hr'
    split at hr'
    · cases hr'
    · next hname => simpa using hname

end Storage

namespace Session

open Storage (Listed Segmented Slashless isEntryName named_singleton_iff)

variable {k s t u : Session} {id d p : BlobId} {b : Blob} {name text : Bytes} {isDirectory : Bool}
  {storage : Storage}

/-! ## Steps -/

/-- What can happen to a session at once: its storage changes, a blob is added, renamed or deleted,
or a text is read. -/
inductive Step (s : Session) : Session → Prop
  | store (storage : Storage) : Step s (s.withStorage storage)
  | add {name : Bytes} {p : BlobId} {isDirectory : Bool} (hname : isNewName name = true)
      (hp : s.Directory p) :
      Step s ((s.alloc (s.entryName name isDirectory) p isDirectory).2.filled (s.blobs.size + 1))
  | rename {id : BlobId} {b : Blob} {name : Bytes} (hb : s.blob? id = some b)
      (hname : isEntryName name = true) : Step s ((s.relabelled id b.parent name).repathed id)
  | delete {id : BlobId} {b : Blob} (hb : s.blob? id = some b) : Step s (s.pruned id b.parent)
  | read {id : BlobId} {b : Blob} (hb : s.blob? id = some b) (hfile : b.isDirectory = false)
      (text : Bytes) : Step s (s.install id (s.readText b text))

/-- Any number of steps. -/
abbrev Steps : Session → Session → Prop := Relation.ReflTransGen Step

/-- A call to a session, or a change to its storage from elsewhere. -/
inductive Event where
  | edit (e : Edit)
  | recompile (id : BlobId) (text : Bytes)
  | reload (id : BlobId)
  | elsewhere (storage : Storage)

/-- The session after an event, if it goes through. -/
def outcome (s : Session) : Event → Except Error Session
  | .edit e => s.applied e
  | .recompile id text => s.recompile id text
  | .reload id => s.reload id
  | .elsewhere storage => .ok (s.withStorage storage)

/-- The session after an event; one that fails changes nothing. -/
def afterEvent (s : Session) (e : Event) : Session := (s.outcome e).toOption.getD s

/-- The session after events, one after the other. -/
def afterEvents (s : Session) (events : List Event) : Session := events.foldl afterEvent s

theorem steps_of_recompile (h : s.recompile id text = .ok t) : Steps s t := by
  obtain ⟨b, hfile, h⟩ := bind_eq_ok_iff.mp h
  obtain rfl := Except.ok.inj h
  obtain ⟨hb, hfile⟩ := fileBlob_eq_ok_iff.mp hfile
  exact .single (.read hb hfile text)

theorem steps_of_create {r : Tree × Session} (h : s.create name p isDirectory = .ok r) :
    Steps s r.2 := by
  obtain ⟨hname, directory, storage, hdirectory, -, -, heq⟩ := create_ok h
  have hp : s.Directory p := by
    rcases directoryPath_ok hdirectory with ⟨hzero, -⟩ | ⟨b, hb, hdir, -⟩
    · exact .inl hzero
    · exact .inr ⟨b, hb, hdir⟩
  have hadd : Step (s.withStorage storage) r.2 := by
    rw [heq, withStorage_alloc]
    exact .add hname hp
  exact .tail (.single (.store storage)) hadd

theorem steps_of_rename {r : Tree × Session} (h : s.rename id name = .ok r) : Steps s r.2 := by
  obtain ⟨b, moved, storage, hb, hmoved, heq⟩ := rename_ok h
  have hname := Storage.isEntryName_of_rename hmoved
  have hstep : Step (s.withStorage storage) r.2 := by
    rw [heq, ← relabelled_withStorage]
    exact .rename hb hname
  exact .tail (.single (.store storage)) hstep

theorem steps_of_delete (h : s.delete id = .ok t) : Steps s t := by
  obtain ⟨b, storage, hb, -, rfl⟩ := delete_ok h
  exact .tail (.single (.delete hb)) (.store storage)

theorem steps_of_save (h : s.save id text = .ok t) : Steps s t := by
  obtain ⟨b, -, h⟩ := bind_eq_ok_iff.mp h
  obtain ⟨storage, -, h⟩ := bind_eq_ok_iff.mp h
  exact .trans (.single (.store storage)) (steps_of_recompile h)

theorem steps_of_reload (h : s.reload id = .ok t) : Steps s t := by
  obtain ⟨b, -, h⟩ := bind_eq_ok_iff.mp h
  obtain ⟨text, -, h⟩ := bind_eq_ok_iff.mp h
  exact steps_of_recompile h

/-- Every event is made of steps. -/
theorem steps_of_outcome {e : Event} (h : s.outcome e = .ok t) : Steps s t := by
  cases e with
  | edit e =>
    cases e with
    | create name p isDirectory =>
      obtain ⟨r, hr, rfl⟩ := map_eq_ok_iff.mp h
      exact steps_of_create hr
    | rename id name =>
      obtain ⟨r, hr, rfl⟩ := map_eq_ok_iff.mp h
      exact steps_of_rename hr
    | delete id => exact steps_of_delete h
    | save id text => exact steps_of_save h
  | recompile id text => exact steps_of_recompile h
  | reload id => exact steps_of_reload h
  | elsewhere storage =>
    obtain rfl := Except.ok.inj h
    exact .single (.store storage)

theorem steps_afterEvents (s : Session) (events : List Event) : Steps s (s.afterEvents events) := by
  induction events generalizing s with
  | nil => exact .refl
  | cons e events ih =>
    refine .trans ?_ (ih (s.afterEvent e))
    rw [afterEvent]
    cases he : s.outcome e with
    | error error => exact .refl
    | ok t => exact steps_of_outcome he

/-- What each step keeps, any number of steps keep. -/
theorem Steps.keep {P : Session → Prop} (hstep : ∀ {s t}, Step s t → P s → P t)
    (h : Steps s t) (hs : P s) : P t := by
  induction h with
  | refl => exact hs
  | tail _ hstep' ih => exact hstep hstep' ih

/-! ## What a step keeps -/

theorem Step.grove (h : Step s t) (hs : Grove s) : Grove t := by
  cases h with
  | store storage => exact (alike_withStorage s storage).grove hs
  | add hname hp => exact (alike_filled _ _).grove (hs.alloc hp)
  | rename hb hname => exact (alike_foldl_repath _ _).grove (hs.relabelled hb _)
  | delete hb => exact hs.pruned hb
  | read hb _ text => exact (alike_install s _ _).grove hs

theorem Step.sourced (h : Step s t) (hs : Grove s) (hsourced : s.Sourced) : t.Sourced := by
  cases h with
  | store storage => exact hsourced
  | add hname hp => exact hsourced.added hs hp
  | rename hb hname => exact hsourced.renamed hs hb _
  | delete hb => exact hsourced.pruned hs hb
  | read hb _ text => exact fun j => sourcedAt_install hb text fun _ => hsourced j

theorem Step.settings (h : Step s t) : t.settings = s.settings := by
  cases h with
  | store storage => rfl
  | add hname hp => exact (alike_filled _ _).settings.trans (Extends.alloc s _ _ _).settings
  | rename hb hname =>
    exact (alike_foldl_repath _ _).settings.trans (relabelled_frame s _ _ _).2
  | delete hb => exact (pruned_frame s _ _).2
  | read hb _ text => exact (alike_install s _ _).settings

theorem segmented_of_head? (hne : name ≠ []) (hhead : name.head? ≠ some ('.' : UInt8))
    (hslash : ('/' : UInt8) ∉ name) : Segmented [name] := by
  intro n hn
  obtain rfl := List.mem_singleton.mp hn
  refine ⟨hne, ?_, ?_, hslash⟩
  · rintro rfl
    exact hhead rfl
  · rintro rfl
    exact hhead rfl

/-- The name of a new entry can stand in a path, unless the extension holds a slash. -/
theorem segmented_entryName (hname : isNewName name = true)
    (hextension : ('/' : UInt8) ∉ s.settings.extension) (isDirectory : Bool) :
    Segmented [s.entryName name isDirectory] := by
  have hhead : (s.entryName name isDirectory).head? ≠ some ('.' : UInt8) := head?_entryName hname
  obtain ⟨hempty, hslash, -⟩ := isNewName_iff.mp hname
  rcases s.entryName_eq name isDirectory with heq | heq
  · rw [heq] at hhead ⊢
    exact segmented_of_head? hempty hhead hslash
  · rw [heq] at hhead ⊢
    refine segmented_of_head? (by simp [hempty]) hhead ?_
    rw [List.mem_append]
    exact not_or.mpr ⟨hslash, hextension⟩

theorem Step.lettered (h : Step s t) (hs : Grove s)
    (hextension : ('/' : UInt8) ∉ s.settings.extension) (hletters : s.Lettered) : t.Lettered := by
  cases h with
  | store storage => exact hletters.alike (alike_withStorage s storage)
  | add hname hp =>
    exact (hletters.alloc (segmented_entryName hname hextension _)).alike (alike_filled _ _)
  | rename hb hname =>
    have hsegmented := (named_singleton_iff.mpr hname).segmented
    exact (hletters.relabelled (ne_zero_of_blob? hb) hsegmented).alike (alike_foldl_repath _ _)
  | delete hb => exact hletters.pruned hs hb
  | read hb _ text => exact hletters.alike (alike_install s _ _)

/-- Every blob of the later session was there before or has a number that was not given out. -/
structure Later (s t : Session) : Prop where
  size : s.blobs.size ≤ t.blobs.size
  live : ∀ {id b}, t.blob? id = some b → (∃ b', s.blob? id = some b') ∨ s.blobs.size < id

namespace Later

theorem refl (s : Session) : Later s s := ⟨Nat.le_refl _, fun hb => .inl ⟨_, hb⟩⟩

theorem trans (h : Later s t) (h' : Later t u) : Later s u where
  size := Nat.le_trans h.size h'.size
  live := by
    intro id b hb
    rcases h'.live hb with ⟨b', hb'⟩ | hlt
    · exact h.live hb'
    · exact .inr (Nat.lt_of_le_of_lt h.size hlt)

theorem of_alike (h : Alike s t) : Later s t where
  size := Nat.le_of_eq h.size.symm
  live := by
    intro id b hb
    obtain ⟨b', hb', -⟩ := h.blob? hb
    exact .inl ⟨b', hb'⟩

/-- A number whose blob is gone has no blob again. -/
theorem gone (h : Later s t) (hid : id ≤ s.blobs.size) (hnone : s.blob? id = none) :
    t.blob? id = none := by
  refine Option.eq_none_iff_forall_ne_some.mpr fun b hb => ?_
  rcases h.live hb with ⟨b', hb'⟩ | hlt
  · rw [hnone] at hb'
    cases hb'
  · exact absurd hid (Nat.not_le_of_lt hlt)

end Later

theorem size_relabelled (s : Session) (id p : BlobId) (name : Bytes) :
    (s.relabelled id p name).blobs.size = s.blobs.size := by
  rw [relabelled, mapChildren_size, unplaced, mapBlob_size, mapChildren_size]

theorem size_pruned (s : Session) (id p : BlobId) :
    (s.pruned id p).blobs.size = s.blobs.size := by
  have hdrop : ∀ (gone : List BlobId) (u : Session),
      (gone.foldl drop u).blobs.size = u.blobs.size := by
    intro gone
    induction gone with
    | nil => exact fun u => rfl
    | cons x gone ih =>
      intro u
      rw [List.foldl_cons, ih, drop, Array.size_setIfInBounds]
  rw [pruned, hdrop, mapChildren_size]

theorem Step.later (h : Step s t) (hs : Grove s) : Later s t := by
  cases h with
  | store storage => exact .of_alike (alike_withStorage s storage)
  | @add name p isDirectory hname hp =>
    have hextend := Extends.alloc s (s.entryName name isDirectory) p isDirectory
    refine .trans ⟨hextend.size, ?_⟩ (.of_alike (alike_filled _ _))
    intro id b hb
    rcases hextend.new hb with ⟨b', hb', -⟩ | ⟨hlt, -⟩
    · exact .inl ⟨b', hb'⟩
    · exact .inr hlt
  | rename hb hname =>
    refine .trans ⟨(size_relabelled s _ _ _).ge, ?_⟩ (.of_alike (alike_foldl_repath _ _))
    intro j bj hbj
    obtain ⟨b', hb', -⟩ := of_blob?_relabelled (ne_zero_of_blob? hb) hbj
    exact .inl ⟨b', hb'⟩
  | delete hb =>
    refine ⟨(size_pruned s _ _).ge, ?_⟩
    intro j bj hbj
    obtain ⟨-, b', hb', -⟩ := hs.of_blob?_pruned hb hbj
    exact .inl ⟨b', hb'⟩
  | read hb _ text => exact .of_alike (alike_install s _ _)

theorem Steps.later (h : Steps s t) (hs : Grove s) : Later s t :=
  (h.keep (P := fun u => Grove u ∧ Later s u)
    (fun hstep ⟨hu, hlater⟩ => ⟨hstep.grove hu, hlater.trans (hstep.later hu)⟩)
    ⟨hs, .refl s⟩).2

/-! ## Opening -/

/-- What adding a listed blob to a directory keeps, the walk through a storage keeps. -/
theorem scan_adds {P : Session → Prop}
    (halloc : ∀ {s p path entries e}, storage.list path = .ok entries → e ∈ entries →
      isPassed s.settings e = false → s.Directory p → P s → P (s.alloc e.name p e.isDirectory).2) :
    (fuel : Nat) → {p : BlobId} → {path : Bytes} → {s t : Session} →
    scan fuel p path s = .ok t → s.storage = storage → s.Directory p → P s → P t
  | 0, _, _, s, t, h, _, _, hs => by
    obtain rfl : s = t := by simpa [scan] using h
    exact hs
  | fuel + 1, p, path, s, t, h, hstorage, hp, hs => by
    obtain ⟨entries, hlist, h⟩ := scan_ok h
    rw [hstorage] at hlist
    -- the directory stays one, and the storage as it is, while its names are walked through
    refine (foldlM_keeps (P := fun u => u.storage = storage ∧ u.Directory p ∧ P u) entries ?_ h
      ⟨hstorage, hp, hs⟩).2.2
    rintro e he s u hu ⟨hstorage, hp, hs⟩
    rw [scanEntry_eq] at hu
    split at hu
    · obtain rfl := Except.ok.inj hu
      exact ⟨hstorage, hp, hs⟩
    · next hpassed =>
      have hadded := halloc hlist he (by simpa using hpassed) hp hs
      have hp' := directory_alloc hp e.name p e.isDirectory
      have hstorage' := (alloc_storage s e.name p e.isDirectory).trans hstorage
      split at hu
      · next hdir =>
        refine ⟨(scan_storage hu).trans hstorage', ?_, ?_⟩
        · exact scan_keeps (P := fun u => u.Directory p)
            (fun u name q dir hu => directory_alloc hu name q dir) fuel hu hp'
        · exact scan_adds halloc fuel hu hstorage' (.inr ⟨_, blob?_alloc_next s _ _ _, hdir⟩) hadded
      · obtain rfl := Except.ok.inj hu
        exact ⟨hstorage', hp', hadded⟩

section Opened

variable {root : Bytes} {settings : Settings}

theorem settings_of_scanned (hstart : start storage root settings = .ok s)
    (hscan : s.scanned = .ok k) : k.settings = settings.normalized := by
  obtain ⟨place, rfl⟩ := start_ok hstart
  exact scan_keeps (P := fun u => u.settings = settings.normalized)
    (fun u name p isDirectory hu => (Extends.alloc u name p isDirectory).settings.trans hu) _ hscan
    rfl

theorem grove_of_scanned (hstart : start storage root settings = .ok s)
    (hscan : s.scanned = .ok k) : Grove k := by
  obtain ⟨place, rfl⟩ := start_ok hstart
  refine scan_adds (P := Grove) ?_ _ hscan rfl (.inl rfl) (forest_empty rfl rfl).toGrove
  intro s p path entries e _ _ _ hp hs
  exact hs.alloc hp

theorem lettered_of_scanned (hslashless : storage.Slashless)
    (hstart : start storage root settings = .ok s) (hscan : s.scanned = .ok k) : k.Lettered := by
  obtain ⟨place, rfl⟩ := start_ok hstart
  refine scan_adds (P := Lettered) ?_ _ hscan rfl (.inl rfl) ?_
  · intro s p path entries e hlist he hpassed _ hs
    refine hs.alloc (segmented_of_head? (Storage.name_ne_nil_of_list hlist he) ?_
      (hslashless path entries hlist e he))
    intro hhead
    simp [isPassed, hhead] at hpassed
  · intro id b hb
    simp [blob?] at hb

end Opened

/-! ## The arena -/

/-- What holds of the blobs of a session at any time. -/
structure Arena (s : Session) : Prop where
  numbered : ∀ {id b}, s.blob? id = some b → b.id = id
  listed : ∀ {id b}, s.blob? id = some b →
    ∀ d, (s.childrenOf d).count id = if d = b.parent then 1 else 0
  live : ∀ {d id}, id ∈ s.childrenOf d → ∃ b, s.blob? id = some b
  top : ∀ {id b}, s.blob? id = some b → b.parent = 0 → b.ancestors = []
  inside : ∀ {id b}, s.blob? id = some b → b.parent ≠ 0 → b.parent < id ∧
    ∃ p, s.blob? b.parent = some p ∧ p.isDirectory = true ∧ b.ancestors = p.ancestors ++ [b.parent]
  files : ∀ {id b}, s.blob? id = some b → b.isDirectory = false → b.children = []
  sorted : ∀ d, ((s.childrenOf d).map s.nameOf).Pairwise (· ≤ ·)
  sources : ∀ {id b}, s.blob? id = some b → b.isDirectory = false →
    ∃ c, b.story = some c ∧ c.file.path = Path.clean (s.pathOf b)

theorem Grove.arena (h : Grove s) (hsourced : s.Sourced) : Arena s where
  numbered := h.numbered
  listed := by
    intro id b hb d
    split
    · next hd => exact List.count_eq_one_of_mem (h.once d) (h.children.mpr ⟨b, hb, hd.symm⟩)
    · next hd =>
      refine List.count_eq_zero_of_not_mem fun hin => ?_
      obtain ⟨b', hb', hparent⟩ := h.children.mp hin
      rw [hb] at hb'
      obtain rfl := Option.some.inj hb'
      exact hd hparent.symm
  live := by
    intro d id hin
    obtain ⟨b, hb, -⟩ := h.children.mp hin
    exact ⟨b, hb⟩
  top := by
    intro id b hb hzero
    rw [h.ancestors hb, hzero, ancestorsIn_zero]
  inside := by
    intro id b hb hne
    obtain ⟨p, hp, hdir⟩ := (h.parent hb).resolve_left hne
    refine ⟨h.below hb, p, hp, hdir, ?_⟩
    rw [h.ancestors hb, ancestorsIn_of_blob? hp]
  files := by
    intro id b hb hfile
    have hchildren := h.childrenOf_file hb hfile
    rwa [childrenOf, if_neg (ne_zero_of_blob? hb), hb] at hchildren
  sorted := h.sorted
  sources := fun hb hfile => hsourced _ _ hb hfile

/-- The blobs of an open project stay an arena whatever happens to it, whether calls go through or
fail.  If neither what was listed nor the extension holds a slash, every source has the very path of
its blob.  A number whose blob was deleted has no blob again. -/
theorem arena_afterEvents {root : Bytes} {settings : Settings}
    (opened : openProject storage root settings = .ok s) (events : List Event) :
    Arena (s.afterEvents events) ∧
    (storage.Slashless → ('/' : UInt8) ∉ settings.extension →
      ∀ id b, (s.afterEvents events).blob? id = some b → b.isDirectory = false →
        ∃ c, b.story = some c ∧ c.file.path = (s.afterEvents events).pathOf b) ∧
    ∀ id b, (s.afterEvents events).blob? id = some b →
      ∀ more, ((s.afterEvents events).afterEvents more).blob? id = none →
        ∀ late, (((s.afterEvents events).afterEvents more).afterEvents late).blob? id = none := by
  obtain ⟨s₀, k, hstart, hscan, hload⟩ := openProject_eq_ok_iff.mp opened
  have halike := alike_of_loaded hload
  have hs : Grove s := halike.grove (grove_of_scanned hstart hscan)
  have hsourced : s.Sourced := (blank_of_scanned hstart hscan).sourced hload
  -- the events are steps, so what a step keeps holds after them
  have hsteps := steps_afterEvents s events
  obtain ⟨hgrove, hafter⟩ := hsteps.keep (P := fun u => Grove u ∧ u.Sourced)
    (fun hstep hu => ⟨hstep.grove hu.1, hstep.sourced hu.1 hu.2⟩) ⟨hs, hsourced⟩
  refine ⟨hgrove.arena hafter, ?_, ?_⟩
  · intro hslashless hextension id b hb hfile
    have hsettings := halike.settings.trans (settings_of_scanned hstart hscan)
    have hextension : ('/' : UInt8) ∉ s.settings.extension := by
      rw [hsettings, Settings.normalized]
      split
      · show ('/' : UInt8) ∉ (".story" : Bytes)
        decide
      · exact hextension
    have hletters : s.Lettered := (lettered_of_scanned hslashless hstart hscan).alike halike
    obtain ⟨-, -, hletters⟩ := hsteps.keep
      (P := fun u => Grove u ∧ u.settings = s.settings ∧ u.Lettered)
      -- every name is free of slashes, so the path of a file is what the names are joined to
      (fun hstep hu => ⟨hstep.grove hu.1, hstep.settings.trans hu.2.1,
        hstep.lettered hu.1 (hu.2.1 ▸ hextension) hu.2.2⟩) ⟨hs, rfl, hletters⟩
    obtain ⟨c, hc, hpath⟩ := hafter id b hb hfile
    exact ⟨c, hc, hpath.trans (hletters.clean_pathOf hgrove hb)⟩
  · intro id b hb more hnone late
    have hmore := steps_afterEvents (s.afterEvents events) more
    have hlate := steps_afterEvents ((s.afterEvents events).afterEvents more) late
    -- a number that was once given out is not given out again
    have hid := Nat.le_trans (le_size_of_blob? hb) (hmore.later hgrove).size
    exact (hlate.later (hmore.keep Step.grove hgrove)).gone hid hnone

/-- Two files after the edits of `takeOver`: the file in the directory that was renamed has the
path it was moved to, and the number of the file that was deleted is spent. -/
theorem arena_twoFiles : Arena ((twoOpened "A\n" "B\n").afterEvents (takeOver.map .edit)) ∧
    (∃ b c, ((twoOpened "A\n" "B\n").afterEvents (takeOver.map .edit)).blob? 4 = some b ∧
      b.story = some c ∧ c.file.path = "e/x.story") ∧
    ∀ late, (((twoOpened "A\n" "B\n").afterEvents (takeOver.map .edit)).afterEvents late).blob? 2
      = none := by
  have hopen := open_twoFiles "A\n" "B\n"
  obtain ⟨harena, hsources, -⟩ := arena_afterEvents hopen (takeOver.map .edit)
  obtain ⟨-, -, hspent⟩ := arena_afterEvents hopen []
  refine ⟨harena, ?_, ?_⟩
  · have hmoved : (((twoOpened "A\n" "B\n").afterEvents (takeOver.map .edit)).blob? 4).map
        (fun b => (b.isDirectory,
          ((twoOpened "A\n" "B\n").afterEvents (takeOver.map .edit)).pathOf b))
        = some (false, ("e/x.story" : Bytes)) := by decide +kernel
    obtain ⟨b, hb, heq⟩ := Option.map_eq_some_iff.mp hmoved
    obtain ⟨hfile, hpath⟩ := Prod.mk.inj heq
    obtain ⟨c, hc, hsource⟩ := hsources (Storage.Memory.formed_ofFiles _).slashless (by decide)
      4 b hb hfile
    exact ⟨b, c, hb, hc, hsource.trans hpath⟩
  · have hlive : ((twoOpened "A\n" "B\n").blob? 2).isSome = true := by decide +kernel
    have hdead : (((twoOpened "A\n" "B\n").afterEvents (takeOver.map .edit)).blob? 2).isNone
        = true := by decide +kernel
    obtain ⟨b, hb⟩ := Option.isSome_iff_exists.mp hlive
    exact hspent 2 b hb (takeOver.map .edit) (Option.isNone_iff_eq_none.mp hdead)

/-- An extension with a slash at its end: the blob of a new file has the path `a.story/`, its source
`a.story`. -/
theorem create_unclean : ∃ s b c,
    openProject (.memory {}) [] { extension := ".story/" } = .ok s ∧
      Slashless (.memory {}) ∧
      (s.afterEvents [.edit (.create "a" 0 false)]).blob? 1 = some b ∧ b.isDirectory = false ∧
      b.story = some c ∧ c.file.path = "a.story" ∧
      (s.afterEvents [.edit (.create "a" 0 false)]).pathOf b = "a.story/" := by
  have hcreated : ((openProject (.memory {}) [] { extension := ".story/" }).toOption.bind fun s =>
      ((s.afterEvents [.edit (.create "a" 0 false)]).blob? 1).map fun b =>
        (b.isDirectory, b.story.map (·.file.path),
          (s.afterEvents [.edit (.create "a" 0 false)]).pathOf b))
      = some (false, some ("a.story" : Bytes), ("a.story/" : Bytes)) := by decide +kernel
  cases hopen : openProject (.memory {}) [] { extension := ".story/" } with
  | error e => simp [hopen, Except.toOption] at hcreated
  | ok s =>
    rw [hopen] at hcreated
    obtain ⟨b, hb, heq⟩ := Option.map_eq_some_iff.mp hcreated
    obtain ⟨hfile, heq⟩ := Prod.mk.inj heq
    obtain ⟨hstory, hpath⟩ := Prod.mk.inj heq
    obtain ⟨c, hc, hsource⟩ := Option.map_eq_some_iff.mp hstory
    exact ⟨s, b, c, rfl, Storage.Memory.formed_empty.slashless, hb, hfile, hc, hsource, hpath⟩

end Session

end Storyline
