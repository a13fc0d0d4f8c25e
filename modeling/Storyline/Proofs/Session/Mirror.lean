import Storyline.Proofs.Session.Walk

/-!
# A session mirrors its storage

`Mirrors` says that every directory of a session shows what the storage has there.  Opening a
project gives such a session (`mirrors_of_open`), and every directory of a sound storage can be
opened (`exists_open`).  Two sessions that mirror one storage show the same tree
(`Mirrors.shownTree_eq`), a blob is found by its path, and a file can be read again.
-/

namespace Storyline.Session

open Storage (Listed Memory Named place locate? locate?_place exists_place_of_locate?
  child_place_place named_append_iff segments_place trim_place)

variable {k s t : Session} {id d d' : BlobId} {b : Blob} {n : Bytes} {dir : Bool}
  {m : Memory} {base : List Bytes}

/-! ## Trees without numbers -/

mutual

/-- A tree with nothing said about the numbers of its blobs. -/
def Tree.unnumbered : Tree → Tree
  | .node _ name isDirectory children => .node 0 name isDirectory (Tree.allUnnumbered children)

/-- Trees with nothing said about the numbers of their blobs. -/
def Tree.allUnnumbered : List Tree → List Tree
  | [] => []
  | t :: ts => t.unnumbered :: Tree.allUnnumbered ts

end

theorem Tree.allUnnumbered_eq (ts : List Tree) :
    Tree.allUnnumbered ts = ts.map Tree.unnumbered := by
  induction ts with
  | nil => rfl
  | cons t ts ih => rw [Tree.allUnnumbered, ih, List.map_cons]

/-- The tree of a project, the numbers of its blobs aside. -/
def shownTree (s : Session) : List Tree := s.fileTree.map Tree.unnumbered

theorem unnumbered_treeOf (hb : s.blob? id = some b) (fuel : Nat) :
    (s.treeOf (fuel + 1) id).unnumbered = .node 0 b.name b.isDirectory
      ((s.childrenOf id).map fun c => (s.treeOf fuel c).unnumbered) := by
  rw [treeOf, Tree.unnumbered, Tree.allUnnumbered_eq, List.map_map, nameOf_of_blob? hb, hb]
  rfl

/-! ## The mirror -/

/-- Every directory of the session shows what the storage has there. -/
structure Mirrors (m : Memory) (base : List Bytes) (s : Session) : Prop where
  forest : Forest s
  storage : s.storage = .memory m
  sound : m.Sound
  root : s.root = place base
  top : m.Has base true
  shows : ∀ {d}, s.Directory d → Shows m base s d

namespace Mirrors

/-- The storage has what the session shows. -/
theorem has_blob (h : Mirrors m base s) (hb : s.blob? id = some b) :
    isPassed s.settings ⟨b.name, b.isDirectory⟩ = false ∧
      m.Has (base ++ s.namesIn id) b.isDirectory := by
  have hshown := (h.shows (h.forest.parent hb) b.name b.isDirectory).mp ⟨id, b, hb, rfl, rfl, rfl⟩
  rwa [List.append_assoc, ← h.forest.namesIn_eq hb] at hshown

theorem has_directory (h : Mirrors m base s) (hd : s.Directory d) :
    m.Has (base ++ s.namesIn d) true := by
  rcases hd with rfl | ⟨b, hb, hdir⟩
  · rw [namesIn_zero, List.append_nil]
    exact h.top
  · rw [← hdir]
    exact (h.has_blob hb).2

theorem storagePath_eq (h : Mirrors m base s) (hb : s.blob? id = some b) :
    s.storagePath b = place (base ++ s.namesIn id) := by
  rw [storagePath, h.root, h.forest.pathOf_eq hb, child_place_place h.top.1]
  rw [h.forest.namesIn_eq hb]
  simp

theorem alike (h : Mirrors m base k) (ha : Alike k s) (hstorage : s.storage = .memory m) :
    Mirrors m base s where
  forest := ha.forest h.forest
  storage := hstorage
  sound := h.sound
  root := ha.root.trans h.root
  top := h.top
  shows := by
    intro d hd n dir
    rw [ha.namesIn, ha.settings, ← h.shows (ha.symm.directory hd) n dir]
    constructor
    · rintro ⟨c, b, hb, rfl, rfl, rfl⟩
      obtain ⟨b', hb', heq⟩ := ha.blob? hb
      exact ⟨c, b', hb', congrArg (·.parent) heq, congrArg (·.name) heq,
        congrArg (·.isDirectory) heq⟩
    · rintro ⟨c, b, hb, rfl, rfl, rfl⟩
      obtain ⟨b', hb', heq⟩ := ha.symm.blob? hb
      exact ⟨c, b', hb', congrArg (·.parent) heq, congrArg (·.name) heq,
        congrArg (·.isDirectory) heq⟩

/-! ## What follows from it -/

theorem names_eq (hs : Mirrors m base s) (ht : Mirrors m base t)
    (hsettings : s.settings = t.settings) (hd : s.Directory d) (hd' : t.Directory d')
    (hnames : s.namesIn d = t.namesIn d') :
    (s.childrenOf d).map s.nameOf = (t.childrenOf d').map t.nameOf := by
  have hmem : ∀ {u : Session} (_ : Forest u) (d : BlobId) (n : Bytes),
      n ∈ (u.childrenOf d).map u.nameOf ↔ ∃ dir, u.Child d n dir := by
    intro u hu d n
    rw [List.mem_map]
    constructor
    · rintro ⟨c, hc, rfl⟩
      obtain ⟨b, hb, hparent⟩ := hu.children.mp hc
      exact ⟨b.isDirectory, c, b, hb, hparent, (nameOf_of_blob? hb).symm, rfl⟩
    · rintro ⟨dir, c, b, hb, hparent, rfl, -⟩
      exact ⟨c, hu.children.mpr ⟨b, hb, hparent⟩, nameOf_of_blob? hb⟩
  refine Bytes.names_eq (hs.forest.sorted d) (ht.forest.sorted d') (hs.forest.distinct d)
    (ht.forest.distinct d') fun n => ?_
  rw [hmem hs.forest, hmem ht.forest]
  refine exists_congr fun dir => ?_
  rw [hs.shows hd n dir, ht.shows hd' n dir, hsettings, hnames]

/-- Lists that agree under two views agree under others that are functions of these. -/
theorem map_eq_of_map_eq {α β γ δ : Type} {f : α → γ} {f' : β → γ} {g : α → δ} {g' : β → δ} :
    {l : List α} → {l' : List β} → l.map f = l'.map f' →
      (∀ a ∈ l, ∀ a' ∈ l', f a = f' a' → g a = g' a') → l.map g = l'.map g'
  | [], [], _, _ => rfl
  | [], _ :: _, h, _ => by simp at h
  | _ :: _, [], h, _ => by simp at h
  | a :: l, a' :: l', h, hg => by
    obtain ⟨hhead, htail⟩ := List.cons.inj h
    rw [List.map_cons, List.map_cons, hg a List.mem_cons_self a' List.mem_cons_self hhead,
      map_eq_of_map_eq htail fun x hx x' hx' =>
        hg x (List.mem_cons_of_mem _ hx) x' (List.mem_cons_of_mem _ hx')]

/-- What is below directories to which the same names lead looks the same. -/
theorem trees_eq (hs : Mirrors m base s) (ht : Mirrors m base t)
    (hsettings : s.settings = t.settings) {fuel fuel' : Nat} (hd : s.Directory d)
    (hd' : t.Directory d') (hnames : s.namesIn d = t.namesIn d')
    (hfuel : s.blobs.size ≤ fuel + (s.ancestorsIn d).length)
    (hfuel' : t.blobs.size ≤ fuel' + (t.ancestorsIn d').length) :
    (s.childrenOf d).map (fun c => (s.treeOf fuel c).unnumbered)
      = (t.childrenOf d').map fun c => (t.treeOf fuel' c).unnumbered := by
  -- a blob in a directory is nested deeper than it, so there is fuel left for it
  have hleft : ∀ {u : Session} (_ : Forest u) {fuel d c b}, u.blob? c = some b → b.parent = d →
      u.blobs.size ≤ fuel + (u.ancestorsIn d).length → fuel ≠ 0 := by
    rintro u hu fuel d c b hb rfl hle rfl
    have hdeep := hu.length_ancestorsIn_le (.inr ⟨b, hb⟩)
    rw [hu.ancestorsIn_eq hb, List.length_append, List.length_singleton] at hdeep
    have hsize := le_size_of_blob? hb
    have hle : (u.ancestorsIn b.parent).length + 1 ≤ (u.ancestorsIn b.parent).length :=
      Nat.le_trans hdeep (Nat.le_trans hsize (by rwa [Nat.zero_add] at hle))
    exact Nat.not_succ_le_self _ hle
  -- By induction on the fuel: the names in both directories agree, and so do the trees below each
  -- pair of equal names.
  induction fuel generalizing fuel' d d' with
  | zero =>
    refine map_eq_of_map_eq (hs.names_eq ht hsettings hd hd' hnames) fun c hc => ?_
    obtain ⟨b, hb, hparent⟩ := hs.forest.children.mp hc
    exact absurd rfl (hleft hs.forest hb hparent hfuel)
  | succ fuel ih =>
    refine map_eq_of_map_eq (hs.names_eq ht hsettings hd hd' hnames) fun c hc c' hc' hname => ?_
    obtain ⟨b, hb, rfl⟩ := hs.forest.children.mp hc
    obtain ⟨b', hb', rfl⟩ := ht.forest.children.mp hc'
    obtain ⟨fuel', rfl⟩ := Nat.exists_eq_succ_of_ne_zero (hleft ht.forest hb' rfl hfuel')
    rw [nameOf_of_blob? hb, nameOf_of_blob? hb'] at hname
    have hin : s.namesIn c = t.namesIn c' := by
      rw [hs.forest.namesIn_eq hb, ht.forest.namesIn_eq hb', hnames, hname]
    have hdir : b.isDirectory = b'.isDirectory := by
      have hhas := (hs.has_blob hb).2
      rw [hin] at hhas
      exact hs.sound.unique hhas (ht.has_blob hb').2
    rw [unnumbered_treeOf hb, unnumbered_treeOf hb', hname, hdir]
    -- a file has no children, on either side
    cases hfile : b'.isDirectory with
    | false =>
      rw [hs.forest.childrenOf_file hb (hdir.trans hfile), ht.forest.childrenOf_file hb' hfile]
      rfl
    | true =>
      rw [ih (.inr ⟨b, hb, hdir.trans hfile⟩) (.inr ⟨b', hb', hfile⟩) hin]
      · rw [hs.forest.ancestorsIn_eq hb, List.length_append, List.length_singleton]
        omega
      · rw [ht.forest.ancestorsIn_eq hb', List.length_append, List.length_singleton]
        omega

/-- Sessions that mirror one storage show the same tree. -/
theorem shownTree_eq (hs : Mirrors m base s) (ht : Mirrors m base t)
    (hsettings : s.settings = t.settings) : s.shownTree = t.shownTree := by
  have htree := hs.trees_eq ht hsettings (d := 0) (.inl rfl) (.inl rfl) rfl (Nat.le_refl _)
    (Nat.le_refl _)
  rw [shownTree, shownTree, fileTree, fileTree, List.map_map, List.map_map]
  exact htree

theorem named_namesIn (h : Mirrors m base s) (hb : s.blob? id = some b) : Named (s.namesIn id) :=
  (named_append_iff.mp (h.has_blob hb).2.1).2

/-- A blob is found by its path. -/
theorem lookup?_pathOf (h : Mirrors m base s) (hb : s.blob? id = some b) :
    s.lookup? (s.pathOf b) = some id := by
  have hnamed := h.named_namesIn hb
  have hne : s.namesIn id ≠ [] := by
    rw [h.forest.namesIn_eq hb]
    simp
  rw [lookup?, h.forest.pathOf_eq hb, trim_place hnamed, segments_place hne hnamed]
  exact h.forest.find_namesIn (.inr ⟨b, hb⟩)

theorem exists_read (h : Mirrors m base s) (hb : s.blob? id = some b)
    (hfile : b.isDirectory = false) : ∃ text, s.storage.read (s.storagePath b) = .ok text := by
  obtain ⟨-, hhas⟩ := h.has_blob hb
  rw [hfile] at hhas
  rw [h.storage, h.storagePath_eq hb]
  have hread := (Memory.toBool_read_iff hhas.1).mpr hhas
  cases htext : m.read (place (base ++ s.namesIn id)) with
  | error e =>
    rw [htext] at hread
    cases hread
  | ok text => exact ⟨text, htext⟩

/-- A file can be read again. -/
theorem exists_reload (h : Mirrors m base s) (hb : s.blob? id = some b)
    (hfile : b.isDirectory = false) : ∃ t, s.reload id = .ok t := by
  obtain ⟨text, htext⟩ := h.exists_read hb hfile
  have hblob := fileBlob_eq_ok_iff.mpr ⟨hb, hfile⟩
  refine ⟨s.install id (s.readText b text), ?_⟩
  simp only [reload, recompile, ofStorage, hblob, htext, bind, Except.bind, pure, Except.pure,
    Except.mapError]

end Mirrors

/-! ## Opening -/

theorem forest_empty (hblobs : s.blobs = #[]) (htop : s.top = []) : Forest s := by
  have hnone : ∀ id, s.blob? id = none := fun id => by simp [blob?, hblobs]
  have hchildren : ∀ d, s.childrenOf d = [] := fun d => by simp [childrenOf, htop, hnone]
  refine ⟨⟨?_, ?_, ?_, ?_, ?_, ?_, ?_⟩, ?_⟩
  · intro id b hb
    simp [hnone] at hb
  · intro id b hb
    simp [hnone] at hb
  · intro id b hb
    simp [hnone] at hb
  · intro id b hb
    simp [hnone] at hb
  · intro d c
    simp [hnone, hchildren]
  · intro d
    simp [hchildren]
  · intro d
    simp [hchildren]
  · intro d
    simp [hchildren]

/-- An empty session on the part of a project in memory that some names lead to. -/
def emptyOn (m : Memory) (base : List Bytes) (settings : Settings) : Session :=
  { storage := .memory m, root := place base, settings }

/-- The walk from an empty session on finds a mirror of the storage. -/
theorem exists_scanned (hm : m.Sound) (htop : m.Has base true) (settings : Settings) :
    ∃ k, (emptyOn m base settings).scanned = .ok k ∧ Mirrors m base k ∧ k.settings = settings := by
  have hempty : Forest (emptyOn m base settings) := forest_empty rfl rfl
  have hnames : base ++ (emptyOn m base settings).namesIn 0 = base := List.append_nil base
  obtain ⟨k, hscan, hk, hextend, hshows⟩ := exists_scan hm
    ((emptyOn m base settings).storage.size + 1) hempty rfl (.inl rfl)
    (by
      rintro n dir ⟨c, b, hb, -⟩
      simp [blob?, emptyOn] at hb)
    (by rwa [hnames])
    (by
      rw [hnames]
      simp only [emptyOn, Storage.size]
      omega)
  rw [hnames] at hscan
  refine ⟨k, hscan, ⟨hk, hextend.storage, hm, hextend.root, htop, ?_⟩, hextend.settings⟩
  intro d hd
  exact hshows (Nat.eq_zero_or_pos d) hd

/-- A directory of a sound storage can be opened, and the session mirrors the storage. -/
theorem exists_open (hm : m.Sound) (htop : m.Has base true) {root : Bytes}
    (hroot : locate? root = some (place base)) (settings : Settings) :
    ∃ s, openProject (.memory m) root settings = .ok s ∧ Mirrors m base s ∧
      s.settings = settings.normalized := by
  have hstart : start (.memory m) root settings = .ok (emptyOn m base settings.normalized) := by
    rw [start, hroot]
    rfl
  obtain ⟨k, hscan, hk, hsettings⟩ := exists_scanned hm htop settings.normalized
  have hread : ∀ b ∈ k.files, k.storage.read (k.storagePath b) = .ok (k.storedText b) := by
    intro b hb
    obtain ⟨id, hblob, hfile⟩ := mem_files_iff.mp hb
    obtain ⟨text, htext⟩ := hk.exists_read hblob hfile
    rw [storedText, htext]
  have hload := loaded_eq_ok_iff.mpr ⟨hread, rfl⟩
  have halike := alike_of_loaded hload
  exact ⟨_, openProject_eq_ok_iff.mpr ⟨_, k, hstart, hscan, hload⟩,
    hk.alike halike ((storage_of_loaded hload).trans hk.storage), halike.settings.trans hsettings⟩

/-- A session that was opened on a sound storage mirrors it. -/
theorem mirrors_of_open (hm : m.Sound) {root : Bytes} {settings : Settings}
    (h : openProject (.memory m) root settings = .ok s) : ∃ base,
      locate? root = some (place base) ∧ Mirrors m base s ∧ s.settings = settings.normalized := by
  obtain ⟨s₀, k, hstart, hscan, -⟩ := openProject_eq_ok_iff.mp h
  rw [start] at hstart
  split at hstart
  · cases hstart
  · next p hroot =>
    obtain ⟨base, hbase, rfl⟩ := exists_place_of_locate? hroot
    obtain rfl := Except.ok.inj hstart
    obtain ⟨entries, hlist, -⟩ := scan_ok hscan
    have htop : m.Has base true := by
      refine (Memory.toBool_list_iff hbase).mp ?_
      rw [show m.list (place base) = .ok entries from hlist]
      rfl
    obtain ⟨t, hopen, ht, hsettings⟩ := exists_open hm htop hroot settings
    obtain rfl := Except.ok.inj (h.symm.trans hopen)
    exact ⟨base, hroot, ht, hsettings⟩

end Storyline.Session
