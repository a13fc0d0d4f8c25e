import Storyline.Proofs.Session.Blobs
import Storyline.Proofs.Text.Lists
import Storyline.Session.Compile

/-!
# Contents of a session

Reading texts into a session changes nothing but the contents of its files and the store, so the
session stays alike: `Alike` says that two sessions have the same blobs, and `Holds` that the blobs
of one have certain stories as the contents of its files.  What a session shows apart from its
variables is the same for any two sessions that hold the same stories.

So opening a project finds its blobs and then reads its files: it succeeds if the walk does and the
storage has all the files that were found (`loaded_eq_ok_iff`), and reading leaves the blobs as the
walk found them.
-/

namespace Storyline.Session

/-! ## Sessions with the same blobs -/

/-- A blob without its content. -/
def bare (b : Blob) : Blob := { b with story := none }

/-- Sessions that differ in the contents of their files, their stores and their storages only. -/
structure Alike (k s : Session) : Prop where
  root : s.root = k.root
  settings : s.settings = k.settings
  top : s.top = k.top
  size : s.blobs.size = k.blobs.size
  blobs : ∀ id, (s.blob? id).map bare = (k.blob? id).map bare

variable {k s t : Session}

theorem Alike.refl (s : Session) : Alike s s := ⟨rfl, rfl, rfl, rfl, fun _ => rfl⟩

theorem Alike.symm (h : Alike k s) : Alike s k :=
  ⟨h.root.symm, h.settings.symm, h.top.symm, h.size.symm, fun id => (h.blobs id).symm⟩

theorem Alike.trans (h : Alike k s) (h' : Alike s t) : Alike k t :=
  ⟨h'.root.trans h.root, h'.settings.trans h.settings, h'.top.trans h.top, h'.size.trans h.size,
    fun id => (h'.blobs id).trans (h.blobs id)⟩

theorem Alike.blob? (h : Alike k s) {id : BlobId} {b : Blob} (hb : s.blob? id = some b) :
    ∃ b', k.blob? id = some b' ∧ bare b' = bare b := by
  have hid := h.blobs id
  rw [hb] at hid
  exact Option.map_eq_some_iff.1 hid.symm

theorem Alike.nameOf (h : Alike k s) (id : BlobId) : s.nameOf id = k.nameOf id := by
  have hname := congrArg (Option.map (·.name)) (h.blobs id)
  simp only [Option.map_map] at hname
  exact congrArg (·.getD []) hname

theorem Alike.pathOf (h : Alike k s) {b b' : Blob} (ha : b.ancestors = b'.ancestors)
    (hn : b.name = b'.name) : s.pathOf b = k.pathOf b' := by
  have hnames : s.nameOf = k.nameOf := funext h.nameOf
  rw [Session.pathOf, Session.pathOf, ha, hn, hnames]

theorem Alike.storagePath (h : Alike k s) {b b' : Blob} (ha : b.ancestors = b'.ancestors)
    (hn : b.name = b'.name) : s.storagePath b = k.storagePath b' := by
  rw [Session.storagePath, Session.storagePath, h.root, h.pathOf ha hn]

theorem Alike.readText (h : Alike k s) {b b' : Blob} (hid : b.id = b'.id)
    (ha : b.ancestors = b'.ancestors) (hn : b.name = b'.name) (text : Bytes) :
    s.readText b text = k.readText b' text := by
  rw [Session.readText, Session.readText, h.settings, h.pathOf ha hn, hid]

theorem Alike.childrenOf (h : Alike k s) (id : BlobId) : s.childrenOf id = k.childrenOf id := by
  have hc := congrArg (Option.map (·.children)) (h.blobs id)
  simp only [Option.map_map] at hc
  unfold Session.childrenOf
  rw [h.top]
  split
  · rfl
  · exact congrArg (·.getD []) hc

/-- Changing the content of a blob leaves the blobs as they are. -/
theorem alike_mapBlob (s : Session) (id : BlobId) {f : Blob → Blob}
    (hf : ∀ b, bare (f b) = bare b) : Alike s (s.mapBlob id f) where
  root := rfl
  settings := rfl
  top := rfl
  size := mapBlob_size _ _ _
  blobs := by
    intro j
    cases j with
    | zero => rfl
    | succ j =>
      rw [blob?_succ, blob?_succ, mapBlob, Array.getElem?_modify]
      split
      · cases s.blobs[j]? with
        | none => rfl
        | some b =>
          cases b with
          | none => rfl
          | some b => exact congrArg some (hf b)
      · rfl

theorem alike_install (s : Session) (id : BlobId) (story : Story) :
    Alike s (s.install id story) := by
  obtain ⟨hroot, hsettings, htop, hsize, hblobs⟩ := alike_mapBlob s id (fun b => rfl)
    (f := fun b => { b with story := some ⟨story.file, story.document, story.diagnostics, _⟩ })
  exact ⟨hroot, hsettings, htop, hsize, hblobs⟩

/-! ## Sessions with the same stories -/

/-- A story as the content of a file, without what its scripts assign. -/
def content (story : Story) : StoryFile := ⟨story.file, story.document, story.diagnostics, []⟩

/-- A content without what its scripts assign. -/
def plainContent (c : StoryFile) : StoryFile := { c with assigned := [] }

/-- A blob without what its scripts assign. -/
def plainBlob (b : Blob) : Blob := { b with story := b.story.map plainContent }

/-- The session `s` has the blobs of `k`, with the stories `F` as the contents of its files. -/
structure Holds (k : Session) (F : BlobId → Option Story) (s : Session) : Prop where
  root : s.root = k.root
  settings : s.settings = k.settings
  top : s.top = k.top
  size : s.blobs.size = k.blobs.size
  blobs : ∀ id, (s.blob? id).map plainBlob
    = (k.blob? id).map fun b => { b with story := (F id).map content }

variable {F : BlobId → Option Story}

theorem Holds.blob? (h : Holds k F s) {id : BlobId} {b : Blob} (hb : s.blob? id = some b) :
    ∃ b', k.blob? id = some b' ∧ plainBlob b = { b' with story := (F id).map content } := by
  have hid := h.blobs id
  rw [hb] at hid
  obtain ⟨b', hb', heq⟩ := Option.map_eq_some_iff.1 hid.symm
  exact ⟨b', hb', heq.symm⟩

theorem Holds.exists_blob? (h : Holds k F s) {id : BlobId} {b : Blob} (hb : k.blob? id = some b) :
    ∃ b', s.blob? id = some b' ∧ plainBlob b' = { b with story := (F id).map content } := by
  have hid := h.blobs id
  rw [hb] at hid
  exact Option.map_eq_some_iff.1 hid

theorem Holds.alike (h : Holds k F s) : Alike k s where
  root := h.root
  settings := h.settings
  top := h.top
  size := h.size
  blobs := by
    intro id
    have hbare := congrArg (Option.map bare) (h.blobs id)
    simp only [Option.map_map] at hbare
    exact hbare

/-! ## Files in order -/

theorem blobs_eq (s : Session) :
    s.blobs.toList = (List.range s.blobs.size).map fun i => s.blob? (i + 1) := by
  apply List.ext_getElem
  · simp
  · intro i hi hi'
    rw [List.getElem_map, List.getElem_range, blob?_succ]
    have hi : i < s.blobs.size := by simpa using hi
    simp [hi]

theorem files_eq (s : Session) :
    s.files = (List.range s.blobs.size).filterMap fun i =>
      (s.blob? (i + 1)).filter fun b => !b.isDirectory := by
  rw [files, blobs_eq, List.filterMap_map]
  rfl

theorem mem_files_iff {s : Session} {b : Blob} :
    b ∈ s.files ↔ ∃ id, s.blob? id = some b ∧ b.isDirectory = false := by
  simp only [files_eq, List.mem_filterMap, List.mem_range, Option.filter_eq_some_iff]
  constructor
  · rintro ⟨i, -, hb, hd⟩
    exact ⟨i + 1, hb, by simpa using hd⟩
  · rintro ⟨id, hb, hd⟩
    obtain ⟨i, rfl⟩ := Nat.exists_eq_succ_of_ne_zero (ne_zero_of_blob? hb)
    exact ⟨i, le_size_of_blob? hb, hb, by simpa using hd⟩

theorem Holds.files (h : Holds k F s)
    (hids : ∀ {id b}, k.blob? id = some b → b.id = id) :
    s.files.map plainBlob = k.files.map fun b => { b with story := (F b.id).map content } := by
  rw [files_eq, files_eq, h.size, List.map_filterMap, List.map_filterMap]
  refine List.filterMap_congr fun i _ => ?_
  have hb := h.blobs (i + 1)
  cases hk : k.blob? (i + 1) with
  | none =>
    rw [hk] at hb
    rw [Option.map_eq_none_iff.1 hb]
    rfl
  | some b =>
    rw [hk] at hb
    obtain ⟨b', hb', heq⟩ := Option.map_eq_some_iff.1 hb
    have hdir : b'.isDirectory = b.isDirectory := congrArg (·.isDirectory) heq
    rw [hb']
    cases hd : b.isDirectory
    · simp [Option.filter, hdir, hd, heq, hids hk]
    · simp [Option.filter, hdir, hd]

/-! ## Opening a project -/

theorem start_ok {storage : Storage} {root : Bytes} {settings : Settings}
    (h : start storage root settings = .ok s) :
    ∃ place, s = { storage, root := place, settings := settings.normalized } := by
  rw [start] at h
  split at h
  · cases h
  · next place _ => exact ⟨place, (Except.ok.inj h).symm⟩

theorem openProject_eq_ok_iff {storage : Storage} {root : Bytes} {settings : Settings} :
    openProject storage root settings = .ok s ↔ ∃ s₀ k,
      start storage root settings = .ok s₀ ∧ s₀.scanned = .ok k ∧ k.loaded = .ok s := by
  rw [openProject]
  cases hstart : start storage root settings with
  | error e => simp [bind, Except.bind]
  | ok s₀ =>
    cases hscan : s₀.scanned with
    | error e => simp [bind, Except.bind, hscan]
    | ok k => simp [bind, Except.bind, hscan]

theorem fileBlob_eq_ok_iff {id : BlobId} {b : Blob} :
    s.fileBlob id = .ok b ↔ s.blob? id = some b ∧ b.isDirectory = false := by
  rw [fileBlob, blob]
  cases s.blob? id with
  | none => simp [bind, Except.bind]
  | some b' =>
    cases hd : b'.isDirectory with
    | false =>
      simp only [bind, Except.bind, hd, Bool.false_eq_true, if_false, Except.ok.injEq,
        Option.some.injEq]
      exact ⟨fun h => ⟨h, h ▸ hd⟩, fun h => h.1⟩
    | true =>
      simp only [bind, Except.bind, hd, if_true, reduceCtorEq, Option.some.injEq, false_iff]
      rintro ⟨rfl, hfile⟩
      exact absurd (hd.symm.trans hfile) (by decide)

/-! ## Reading the files -/

/-- The text of a file in the storage of a session; nothing if it cannot be read. -/
def storedText (s : Session) (b : Blob) : Bytes :=
  match s.storage.read (s.storagePath b) with
  | .ok text => text
  | .error _ => []

theorem read_eq_storedText {b : Blob} {text : Bytes}
    (h : s.storage.read (s.storagePath b) = .ok text) :
    s.storage.read (s.storagePath b) = .ok (s.storedText b) := by rw [storedText, h]

/-- Files are read if and only if the storage has all of them. -/
theorem readAll_eq_ok_iff {bs : List Blob} {stories : List (BlobId × Story)} :
    s.readAll bs = .ok stories ↔
      (∀ b ∈ bs, s.storage.read (s.storagePath b) = .ok (s.storedText b)) ∧
      stories = bs.map fun b => (b.id, s.readText b (s.storedText b)) := by
  induction bs generalizing stories with
  | nil => simp [readAll, eq_comm]
  | cons b bs ih =>
    rw [readAll, ← storagePath, List.forall_mem_cons]
    cases hread : s.storage.read (s.storagePath b) with
    | error e => simp
    | ok text =>
      have htext : s.storedText b = text := by rw [storedText, hread]
      simp only [htext, true_and, List.map_cons]
      cases hrest : s.readAll bs with
      | error e =>
        have hnot : ¬ ∀ x ∈ bs, s.storage.read (s.storagePath x) = .ok (s.storedText x) :=
          fun hall => by
            have := ih.mpr ⟨hall, rfl⟩
            rw [hrest] at this
            cases this
        simp [bind, Except.bind, hnot]
      | ok rest =>
        obtain ⟨hall, rfl⟩ := ih.mp hrest
        simp only [bind, Except.bind, pure, Except.pure, Except.ok.injEq]
        exact ⟨fun h => ⟨hall, h.symm⟩, fun h => h.2.symm⟩

/-- The stories of the files of a session, as they are stored. -/
def storedStories (k : Session) : List (BlobId × Story) :=
  k.files.map fun b => (b.id, k.readText b (k.storedText b))

theorem loaded_eq_ok_iff : k.loaded = .ok s ↔
    (∀ b ∈ k.files, k.storage.read (k.storagePath b) = .ok (k.storedText b)) ∧
      s = k.storedStories.foldl (fun s p => s.install p.1 p.2) k := by
  rw [loaded]
  cases hread : k.readAll k.files with
  | error e =>
    have hnot : ¬ ∀ b ∈ k.files, k.storage.read (k.storagePath b) = .ok (k.storedText b) :=
      fun hall => by
        have := readAll_eq_ok_iff.mpr ⟨hall, rfl⟩
        rw [hread] at this
        cases this
    simp [bind, Except.bind, hnot]
  | ok stories =>
    obtain ⟨hall, rfl⟩ := readAll_eq_ok_iff.mp hread
    simp only [bind, Except.bind, pure, Except.pure, Except.ok.injEq]
    exact ⟨fun h => ⟨hall, h.symm⟩, fun h => h.2.symm⟩

theorem alike_installAll (stories : List (BlobId × Story)) (s : Session) :
    Alike s (stories.foldl (fun s p => s.install p.1 p.2) s) := by
  induction stories generalizing s with
  | nil => exact Alike.refl s
  | cons p stories ih => exact (alike_install s p.1 p.2).trans (ih _)

theorem storage_installAll (stories : List (BlobId × Story)) (s : Session) :
    (stories.foldl (fun s p => s.install p.1 p.2) s).storage = s.storage := by
  induction stories generalizing s with
  | nil => rfl
  | cons p stories ih => exact ih _

theorem storage_of_loaded (h : k.loaded = .ok s) : s.storage = k.storage := by
  obtain ⟨-, rfl⟩ := loaded_eq_ok_iff.mp h
  exact storage_installAll _ _

theorem alike_of_loaded (h : k.loaded = .ok s) : Alike k s := by
  obtain ⟨-, rfl⟩ := loaded_eq_ok_iff.mp h
  exact alike_installAll _ _

/-! ## Two files -/

/-- A project of two files. -/
def twoFiles (a b : Bytes) : Storage.Memory := .ofFiles [("a.story", a), ("b.story", b)]

/-- The blobs of a project of two files. -/
def twoBlobs (a b : Bytes) : Session :=
  ((({ storage := .memory (twoFiles a b), root := [], settings := {} } : Session).alloc
    "a.story" 0 false).2.alloc "b.story" 0 false).2

/-- A project of two files, opened. -/
def twoOpened (a b : Bytes) : Session :=
  (twoBlobs a b).storedStories.foldl (fun s p => s.install p.1 p.2) (twoBlobs a b)

theorem locate?_a : Storage.locate? "a.story" = some "a.story" := by decide

theorem locate?_b : Storage.locate? "b.story" = some "b.story" := by decide

theorem twoFiles_eq (a b : Bytes) :
    twoFiles a b = { files := [("a.story", a), ("b.story", b)] } := by
  simp only [twoFiles, Storage.Memory.ofFiles, List.foldl_cons, List.foldl_nil, locate?_a,
    locate?_b]
  rfl

theorem read_twoFiles {a b name text : Bytes} (hplace : Storage.locate? name = some name)
    (htext : [(("a.story" : Bytes), a), ("b.story", b)].lookup name = some text) :
    (Storage.memory (twoFiles a b)).read name = .ok text := by
  rw [Storage.read, twoFiles_eq, Storage.Memory.read, Storage.Memory.atPlace, hplace]
  simp only [Storage.Memory.file?, htext]
  rfl

theorem list_twoFiles (a b : Bytes) : (Storage.memory (twoFiles a b)).list []
    = .ok [⟨"a.story", false⟩, ⟨"b.story", false⟩] := by
  have hsorted : Bytes.sortOn (·.name) [(⟨"a.story", false⟩ : Storage.Listed), ⟨"b.story", false⟩]
      = [⟨"a.story", false⟩, ⟨"b.story", false⟩] :=
    Bytes.sortOn_of_pairwise (by decide)
  rw [← hsorted, twoFiles_eq]
  rfl

theorem open_twoFiles (a b : Bytes) :
    openProject (.memory (twoFiles a b)) [] {} = .ok (twoOpened a b) := by
  have hscan : ({ storage := .memory (twoFiles a b), root := [], settings := {} } :
      Session).scanned = .ok (twoBlobs a b) := by
    rw [scanned, scan]
    simp only [list_twoFiles]
    rfl
  have hread : ∀ f ∈ (twoBlobs a b).files,
      (twoBlobs a b).storage.read ((twoBlobs a b).storagePath f)
        = .ok ((twoBlobs a b).storedText f) := by
    intro f hf
    have hf : f ∈ [_, _] := hf
    simp only [List.mem_cons, List.not_mem_nil, or_false] at hf
    rcases hf with rfl | rfl
    · exact read_eq_storedText (read_twoFiles locate?_a rfl)
    · exact read_eq_storedText (read_twoFiles locate?_b rfl)
  exact openProject_eq_ok_iff.mpr ⟨_, _, rfl, hscan, loaded_eq_ok_iff.mpr ⟨hread, rfl⟩⟩

end Storyline.Session
