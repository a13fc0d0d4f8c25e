import Storyline.Proofs.Session.Mirror

/-!
# Keeping the mirror

Creating, renaming, deleting and saving keep a session a mirror of its storage, and so does any
sequence of such edits, whether they go through or fail (`edited_mirrors`), if each that goes
through is clear: it makes something under a name that is one, and renames only to names that are
shown and free in the storage.  Renaming does not check any of this, so without that condition a
file can be lost behind another one (`rename_loses_file`).
-/

namespace Storyline.Session

open Storage (Memory Named child isEntryName place child_place parent_place moved
  moved_of_not_front append_moved named_append_iff named_singleton_iff)

variable {s t : Session} {id d p : BlobId} {b : Blob} {name n : Bytes} {isDirectory dir : Bool}
  {m m' : Memory} {base : List Bytes}

/-! ## What an edit that goes through has done -/

theorem bind_eq_ok_iff {ε α β : Type} {x : Except ε α} {f : α → Except ε β} {r : β} :
    (x >>= f) = .ok r ↔ ∃ a, x = .ok a ∧ f a = .ok r := by
  cases x with
  | error e => simp [bind, Except.bind]
  | ok a => simp [bind, Except.bind]

theorem map_eq_ok_iff {ε α β : Type} {x : Except ε α} {f : α → β} {r : β} :
    x.map f = .ok r ↔ ∃ a, x = .ok a ∧ f a = r := by
  cases x <;> simp [Except.map]

theorem ofStorage_eq_ok_iff {α : Type} {x : Except Storage.Error α} {a : α} :
    ofStorage x = .ok a ↔ x = .ok a := by
  cases x <;> simp [ofStorage, Except.mapError]

theorem blob_eq_ok_iff : s.blob id = .ok b ↔ s.blob? id = some b := by
  rw [blob]
  cases s.blob? id <;> simp

theorem directoryPath_ok {directory : Bytes} (h : s.directoryPath p = .ok directory) :
    (p = 0 ∧ directory = s.root) ∨
      ∃ b, s.blob? p = some b ∧ b.isDirectory = true ∧ directory = s.storagePath b := by
  rw [directoryPath] at h
  by_cases hp : p = 0
  · exact .inl ⟨hp, by simpa [hp, pure, Except.pure] using h.symm⟩
  · rw [if_neg hp] at h
    obtain ⟨b, hb, h⟩ := bind_eq_ok_iff.mp h
    split at h
    · next hdir => exact .inr ⟨b, blob_eq_ok_iff.mp hb, hdir, (Except.ok.inj h).symm⟩
    · simp [throw, throwThe, MonadExceptOf.throw] at h

/-- The name that an entry is to have: that of a file has the extension. -/
def entryName (s : Session) (name : Bytes) (isDirectory : Bool) : Bytes :=
  if isDirectory then name else s.withExtension name

theorem alike_withStorage (s : Session) (storage : Storage) : Alike s (s.withStorage storage) :=
  ⟨rfl, rfl, rfl, rfl, fun _ => rfl⟩

/-- The session in which the blob with a number, if it is a file, has an empty text. -/
def filled (s : Session) (id : BlobId) : Session :=
  match s.blob? id with
  | some b => if b.isDirectory then s else s.install id (s.readText b [])
  | none => s

theorem alike_filled (s : Session) (id : BlobId) : Alike s (s.filled id) := by
  unfold filled
  split
  · split
    · exact Alike.refl s
    · exact alike_install s id _
  · exact Alike.refl s

theorem storage_filled (s : Session) (id : BlobId) : (s.filled id).storage = s.storage := by
  unfold filled
  split
  · split <;> rfl
  · rfl

theorem filled_alloc (s : Session) (name : Bytes) (p : BlobId) (isDirectory : Bool) :
    (s.alloc name p isDirectory).2.filled (s.blobs.size + 1)
      = match isDirectory, (s.alloc name p isDirectory).2.blob? (s.blobs.size + 1) with
        | false, some b => (s.alloc name p isDirectory).2.install (s.blobs.size + 1)
            ((s.alloc name p isDirectory).2.readText b [])
        | _, _ => (s.alloc name p isDirectory).2 := by
  rw [filled, blob?_alloc_next]
  cases isDirectory <;> rfl

theorem withStorage_alloc (s : Session) (storage : Storage) (name : Bytes) (p : BlobId)
    (isDirectory : Bool) : (s.alloc name p isDirectory).2.withStorage storage
      = ((s.withStorage storage).alloc name p isDirectory).2 := by
  rw [alloc_withStorage]

theorem create_ok {r : Tree × Session} (h : s.create name p isDirectory = .ok r) :
    isNewName name = true ∧ ∃ directory storage, s.directoryPath p = .ok directory ∧
      (∀ c ∈ s.childrenOf p, s.nameOf c ≠ s.entryName name isDirectory) ∧
      withEntry s.storage (child directory (s.entryName name isDirectory)) isDirectory
        = .ok storage ∧
      r.2 = ((s.alloc (s.entryName name isDirectory) p isDirectory).2.withStorage storage).filled
        (s.blobs.size + 1) := by
  rw [create, ← entryName] at h
  by_cases hname : isNewName name = true
  · refine ⟨hname, ?_⟩
    simp only [hname, Bool.not_true, Bool.false_eq_true, if_false] at h
    obtain ⟨directory, hdirectory, h⟩ := bind_eq_ok_iff.mp h
    split at h
    · simp [throw, throwThe, MonadExceptOf.throw, bind, Except.bind] at h
    · next hpresent =>
      obtain ⟨storage, hstorage, h⟩ := bind_eq_ok_iff.mp h
      refine ⟨directory, storage, hdirectory, by simpa using hpresent,
        ofStorage_eq_ok_iff.mp hstorage, ?_⟩
      obtain rfl := Except.ok.inj h
      rw [withStorage_alloc]
      exact (filled_alloc (s.withStorage storage) _ p isDirectory).symm
  · simp [hname, throw, throwThe, MonadExceptOf.throw, bind, Except.bind] at h

theorem relabelled_withStorage (s : Session) (storage : Storage) (id p : BlobId) (name : Bytes) :
    (s.withStorage storage).relabelled id p name
      = (s.relabelled id p name).withStorage storage := by
  unfold relabelled unplaced mapChildren
  split <;> rfl

theorem storage_foldl_repath (ids : List BlobId) (s : Session) :
    (ids.foldl repath s).storage = s.storage := by
  induction ids generalizing s with
  | nil => rfl
  | cons id ids ih =>
    rw [List.foldl_cons, ih, repath]
    split <;> rfl

/-- The session in which the sources of the files in a blob have the paths of their blobs. -/
def repathed (s : Session) (id : BlobId) : Session := (s.everythingIn id).foldl repath s

theorem rename_ok {r : Tree × Session} (h : s.rename id name = .ok r) : ∃ b moved storage,
    s.blob? id = some b ∧
      s.storage.rename (s.storagePath b) (s.entryName name b.isDirectory) = .ok (moved, storage) ∧
      r.2 = ((s.relabelled id b.parent (s.entryName name b.isDirectory)).withStorage
        storage).repathed id := by
  obtain ⟨b, hb, h⟩ := bind_eq_ok_iff.mp h
  obtain ⟨⟨moved, storage⟩, hstorage, h⟩ := bind_eq_ok_iff.mp h
  have h := (Except.ok.inj h).symm
  refine ⟨b, moved, storage, blob_eq_ok_iff.mp hb, ofStorage_eq_ok_iff.mp hstorage, ?_⟩
  rw [← relabelled_withStorage, h]
  rfl

theorem foldl_drop_withStorage (gone : List BlobId) (s : Session) (storage : Storage) :
    gone.foldl drop (s.withStorage storage) = (gone.foldl drop s).withStorage storage := by
  induction gone generalizing s with
  | nil => rfl
  | cons x gone ih => exact ih (s.drop x)

theorem delete_ok (h : s.delete id = .ok t) : ∃ b storage, s.blob? id = some b ∧
    (if b.isDirectory then s.storage.deleteDirectory (s.storagePath b)
      else s.storage.deleteFile (s.storagePath b)) = .ok storage ∧
    t = (s.pruned id b.parent).withStorage storage := by
  obtain ⟨b, hb, h⟩ := bind_eq_ok_iff.mp h
  obtain ⟨storage, hstorage, h⟩ := bind_eq_ok_iff.mp h
  have h := (Except.ok.inj h).symm
  refine ⟨b, storage, blob_eq_ok_iff.mp hb, ofStorage_eq_ok_iff.mp hstorage, ?_⟩
  have hchildren : (s.withStorage storage).mapChildren b.parent (·.filter (· != id))
      = (s.mapChildren b.parent (·.filter (· != id))).withStorage storage := by
    unfold mapChildren
    split <;> rfl
  rw [pruned, ← foldl_drop_withStorage, ← hchildren, h]
  rfl

/-! ## Names -/

theorem isPassed_entryName (hhead : (s.entryName name isDirectory).head? ≠ some ('.' : UInt8)) :
    isPassed s.settings ⟨s.entryName name isDirectory, isDirectory⟩ = false := by
  rw [isPassed, decide_eq_false hhead, Bool.false_or]
  cases isDirectory with
  | true => rfl
  | false =>
    have hsuffix : s.settings.extension.isSuffixOf (s.withExtension name) = true := by
      rw [withExtension]
      split
      · assumption
      · exact List.isSuffixOf_iff_suffix.mpr (List.suffix_append _ _)
    simp [entryName, hsuffix]

theorem isPassed_directory (hhead : n.head? ≠ some ('.' : UInt8)) (settings : Settings) :
    isPassed settings ⟨n, true⟩ = false := by
  rw [isPassed, decide_eq_false hhead]
  rfl

theorem isNewName_iff : isNewName name = true ↔ name ≠ [] ∧ ('/' : UInt8) ∉ name ∧
    ('\\' : UInt8) ∉ name ∧ name.head? ≠ some ('.' : UInt8) := by
  simp [isNewName, and_assoc]

theorem entryName_eq (s : Session) (name : Bytes) (isDirectory : Bool) :
    s.entryName name isDirectory = name ∨
      s.entryName name isDirectory = name ++ s.settings.extension := by
  rw [entryName, withExtension]
  split
  · exact .inl rfl
  · split
    · exact .inl rfl
    · exact .inr rfl

theorem head?_entryName (hname : isNewName name = true) :
    (s.entryName name isDirectory).head? ≠ some ('.' : UInt8) := by
  obtain ⟨hempty, -, -, hhead⟩ := isNewName_iff.mp hname
  obtain ⟨c, rest, rfl⟩ := List.exists_cons_of_ne_nil hempty
  rcases s.entryName_eq (c :: rest) isDirectory with heq | heq
  · rw [heq]
    exact hhead
  · rw [heq]
    exact hhead

/-- Whether there is neither a file nor a directory at a path. -/
def isFree (storage : Storage) (path : Bytes) : Bool :=
  !(storage.read path).toBool && !(storage.list path).toBool

theorem isFree_memory_iff {names : List Bytes} (h : Named names) :
    isFree (.memory m) (place names) = true ↔ ∀ dir, ¬ m.Has names dir := by
  rw [isFree, Bool.and_eq_true, Bool.not_eq_true', Bool.not_eq_true', ← Bool.not_eq_true,
    ← Bool.not_eq_true, Bool.forall_bool, ← Memory.toBool_read_iff h, ← Memory.toBool_list_iff h]
  rfl

/-! ## Creating -/

theorem of_withEntry {target : Bytes} {storage : Storage}
    (h : withEntry (.memory m) target isDirectory = .ok storage) : ∃ m', storage = .memory m' ∧
      (if isDirectory then m.makeDirectory target else m.write target []) = .ok m' := by
  cases isDirectory with
  | true =>
    simp only [withEntry, if_true, Storage.makeDirectory] at h ⊢
    cases hmake : m.makeDirectory target with
    | error e => simp [hmake] at h
    | ok m' => exact ⟨m', by simpa [hmake] using h.symm, rfl⟩
  | false =>
    simp only [withEntry, Bool.false_eq_true, if_false, Storage.write] at h ⊢
    cases hwrite : m.write target [] with
    | error e => simp [hwrite, Except.map] at h
    | ok m' => exact ⟨m', by simpa [hwrite, Except.map] using h.symm, rfl⟩

namespace Mirrors

/-- A new blob for a new entry of the storage keeps the mirror. -/
theorem alloc (h : Mirrors m base s) (hp : s.Directory p) (hm' : m'.Sound)
    (hpassed : isPassed s.settings ⟨name, isDirectory⟩ = false)
    (hnew : ∀ c ∈ s.childrenOf p, s.nameOf c ≠ name)
    (hfree : ∀ dir, ¬ m.Has (base ++ s.namesIn p ++ [name]) dir)
    (hhas : ∀ {q dir}, m'.Has q dir ↔
      m.Has q dir ∨ (dir = isDirectory ∧ q = base ++ s.namesIn p ++ [name]))
    (ht : Alike (s.alloc name p isDirectory).2 t) (hstorage : t.storage = .memory m') :
    Mirrors m' base t := by
  -- with its new name the blob is still the only one of that name in its directory
  have hforest : Forest (s.alloc name p isDirectory).2 := h.forest.alloc hp hnew
  have hextend := Extends.alloc s name p isDirectory
  suffices hmirror : Mirrors m' base ((s.alloc name p isDirectory).2.withStorage (.memory m')) by
    refine hmirror.alike ?_ hstorage
    exact (alike_withStorage _ _).symm.trans ht
  refine ⟨(alike_withStorage _ _).forest hforest, rfl, hm', hextend.root.trans h.root,
    hhas.mpr (.inl h.top), ?_⟩
  intro d hd n dir
  have hd : (s.alloc name p isDirectory).2.Directory d := hd
  show (s.alloc name p isDirectory).2.Child d n dir ↔
    isPassed (s.alloc name p isDirectory).2.settings ⟨n, dir⟩ = false ∧
      m'.Has (base ++ (s.alloc name p isDirectory).2.namesIn d ++ [n]) dir
  rw [child_alloc_iff, hextend.settings, hhas]
  by_cases hnext : d = s.blobs.size + 1
  · -- the new blob: nothing can be inside what was not there
    subst hnext
    rw [hforest.namesIn_eq (blob?_alloc_next s name p isDirectory),
      h.forest.namesIn_alloc hp hp.known]
    refine iff_of_false ?_ ?_
    · rintro (hold | ⟨heq, -⟩)
      · exact h.forest.not_child_next hold
      · exact hp.known.ne_next heq.symm
    · rintro ⟨-, hin | ⟨-, heq⟩⟩
      · rw [← List.append_assoc] at hin
        exact hfree true (h.sound.closed hin)
      · have hlength := congrArg List.length heq
        simp at hlength
  -- a directory that was there: its children are the old ones, and the new blob if it is in it
  · have hd' : s.Directory d := by
      rcases hd with hzero | ⟨b, hb, hdir⟩
      · exact .inl hzero
      · rcases of_blob?_alloc hb with ⟨heq, -⟩ | ⟨b', hb', heq⟩
        · exact absurd heq hnext
        · exact .inr ⟨b', hb', (congrArg (·.isDirectory) heq).trans hdir⟩
    rw [h.forest.namesIn_alloc hp hd'.known, h.shows hd' n dir, and_or_left]
    refine or_congr_right ⟨?_, ?_⟩
    · rintro ⟨rfl, rfl, rfl⟩
      exact ⟨hpassed, rfl, rfl⟩
    · rintro ⟨-, rfl, heq⟩
      obtain ⟨hnames, hname⟩ := List.append_inj' heq rfl
      exact ⟨h.forest.namesIn_inj hd'.known hp.known (List.append_cancel_left hnames),
        (List.cons.inj hname).1, rfl⟩

theorem of_directoryPath (h : Mirrors m base s) {directory : Bytes}
    (hd : s.directoryPath p = .ok directory) :
    s.Directory p ∧ directory = place (base ++ s.namesIn p) := by
  rcases directoryPath_ok hd with ⟨rfl, rfl⟩ | ⟨b, hb, hdir, rfl⟩
  · rw [namesIn_zero, List.append_nil]
    exact ⟨.inl rfl, h.root⟩
  · exact ⟨.inr ⟨b, hb, hdir⟩, h.storagePath_eq hb⟩

/-- Creating an entry keeps the mirror, if the entry has a name and, for a directory, no file is
where it is to be. -/
theorem create (h : Mirrors m base s) {r : Tree × Session}
    (hcreate : s.create name p isDirectory = .ok r)
    (hentry : isEntryName (s.entryName name isDirectory) = true)
    (hclear : isDirectory = true → ∀ directory, s.directoryPath p = .ok directory →
      (s.storage.read (child directory name)).toBool = false) :
    ∃ m', Mirrors m' base r.2 ∧ r.2.settings = s.settings := by
  obtain ⟨hname, directory, storage, hdirectory, hnew, hwith, heq⟩ := create_ok hcreate
  have hr : Alike (s.alloc (s.entryName name isDirectory) p isDirectory).2 r.2 := by
    rw [heq]
    exact (alike_withStorage _ _).trans (alike_filled _ _)
  have hstorage : r.2.storage = storage := by
    rw [heq]
    exact storage_filled _ _
  obtain ⟨hp, rfl⟩ := h.of_directoryPath hdirectory
  have hhead : (s.entryName name isDirectory).head? ≠ some ('.' : UInt8) := head?_entryName hname
  have hpassed := isPassed_entryName hhead
  have hdir := h.has_directory hp
  have hnamed : Named (base ++ s.namesIn p ++ [s.entryName name isDirectory]) :=
    named_append_iff.mpr ⟨hdir.1, named_singleton_iff.mpr hentry⟩
  -- what the storage has and the session does not pass over, the session shows
  have hshown : ∀ {dir}, isPassed s.settings ⟨s.entryName name isDirectory, dir⟩ = false →
      ¬ m.Has (base ++ s.namesIn p ++ [s.entryName name isDirectory]) dir := by
    intro dir hpassed hin
    obtain ⟨c, b, hb, hparent, hname, -⟩ := (h.shows hp _ dir).mpr ⟨hpassed, hin⟩
    exact hnew c (h.forest.children.mpr ⟨b, hb, hparent⟩) ((nameOf_of_blob? hb).trans hname)
  have hfreeDir := hshown (isPassed_directory hhead s.settings)
  rw [h.storage, child_place hdir.1] at hwith
  obtain ⟨m', rfl, hm⟩ := of_withEntry hwith
  refine ⟨m', ?_, hr.settings.trans (Extends.alloc s _ _ _).settings⟩
  -- a new directory must not take the place of a file, which is what `hclear` rules out
  cases isDirectory with
  | true =>
    have hfreeFile : ¬ m.Has (base ++ s.namesIn p ++ [s.entryName name true]) false := by
      intro hin
      have hread := hclear rfl _ hdirectory
      rw [h.storage, child_place hdir.1] at hread
      have hread' : (m.read (place (base ++ s.namesIn p ++ [name]))).toBool = true :=
        (Memory.toBool_read_iff hnamed).mpr hin
      exact absurd (hread.symm.trans hread') (by decide)
    obtain ⟨hm', hhas⟩ := h.sound.makeDirectory hdir hentry hfreeFile hm
    refine h.alloc hp hm' hpassed hnew ?_ hhas hr hstorage
    rintro (_ | _)
    · exact hfreeFile
    · exact hfreeDir
  -- a new file is written, and nothing of its name was shown
  | false =>
    obtain ⟨hm', hhas⟩ := h.sound.write hnamed hfreeDir hm
    refine h.alloc hp hm' hpassed hnew ?_ hhas hr hstorage
    rintro (_ | _)
    · exact hshown hpassed
    · exact hfreeDir

/-! ## Renaming -/

/-- A blob that has another name, as its entry in the storage has, keeps the mirror. -/
theorem relabel (h : Mirrors m base s) (hb : s.blob? id = some b) (hm' : m'.Sound)
    (hpassed : isPassed s.settings ⟨name, b.isDirectory⟩ = false)
    (hfree : name = b.name ∨ ∀ dir, ¬ m.Has (base ++ s.namesIn b.parent ++ [name]) dir)
    (hhas : ∀ {q dir}, m'.Has q dir ↔ ∃ q', m.Has q' dir ∧
      moved (base ++ s.namesIn b.parent ++ [b.name]) (base ++ s.namesIn b.parent ++ [name]) q' = q)
    (ht : Alike (s.relabelled id b.parent name) t) (hstorage : t.storage = .memory m') :
    Mirrors m' base t := by
  have hid := ne_zero_of_blob? hb
  have hp := h.forest.parent hb
  have hsource : m.Has (base ++ s.namesIn b.parent ++ [b.name]) b.isDirectory := by
    rw [List.append_assoc, ← h.forest.namesIn_eq hb]
    exact (h.has_blob hb).2
  -- no other blob in the directory has the new name, for it would be in the storage
  have hnew : ∀ c ∈ s.childrenOf b.parent, c ≠ id → s.nameOf c ≠ name := by
    rintro c hc hne rfl
    obtain ⟨bc, hbc, hparent⟩ := h.forest.children.mp hc
    rw [nameOf_of_blob? hbc] at hfree
    rcases hfree with heq | hfree
    · exact hne (h.forest.eq_of_name hbc hb hparent heq)
    · refine hfree bc.isDirectory ?_
      rw [← hparent, List.append_assoc, ← h.forest.namesIn_eq hbc]
      exact (h.has_blob hbc).2
  have hforest : Forest (s.relabelled id b.parent name) := h.forest.relabelled hb hnew
  obtain ⟨hroot, hsettings⟩ := relabelled_frame s id b.parent name
  -- names that are as long as those of the blob's directory do not begin with its own
  have hshort : ∀ {q : List Bytes}, q.length ≤ (base ++ s.namesIn b.parent).length →
      ¬ base ++ s.namesIn b.parent ++ [b.name] <+: q := by
    intro q hlength hfront
    have hle := Nat.le_trans hfront.length_le hlength
    rw [List.length_append, List.length_singleton] at hle
    omega
  suffices hmirror : Mirrors m' base ((s.relabelled id b.parent name).withStorage (.memory m')) by
    exact hmirror.alike ((alike_withStorage _ _).symm.trans ht) hstorage
  refine ⟨(alike_withStorage _ _).forest hforest, rfl, hm', hroot.trans h.root,
    hhas.mpr ⟨base, h.top, moved_of_not_front (hshort (by simp))⟩, ?_⟩
  intro d hd n dir
  have hd : s.Directory d := (directory_relabelled hid b.parent name).mp hd
  have hnames : base ++ (s.relabelled id b.parent name).namesIn d
      = moved (base ++ s.namesIn b.parent ++ [b.name]) (base ++ s.namesIn b.parent ++ [name])
          (base ++ s.namesIn d) := by
    rw [h.forest.namesIn_relabelled hb hforest hd.known, append_moved, h.forest.namesIn_eq hb,
      ← List.append_assoc, ← List.append_assoc]
  show (s.relabelled id b.parent name).Child d n dir ↔
    isPassed (s.relabelled id b.parent name).settings ⟨n, dir⟩ = false ∧
      m'.Has (base ++ (s.relabelled id b.parent name).namesIn d ++ [n]) dir
  have hplace : base ++ s.namesIn d = base ++ s.namesIn b.parent ↔ d = b.parent :=
    ⟨fun heq => h.forest.namesIn_inj hd.known hp.known (List.append_cancel_left heq),
      fun heq => by rw [heq]⟩
  -- only one entry of the storage is the blob itself, and with it what is inside moves
  have hentry : base ++ s.namesIn d ++ [n] = base ++ s.namesIn b.parent ++ [b.name] ↔
      d = b.parent ∧ n = b.name := by
    rw [← hplace]
    constructor
    · intro heq
      obtain ⟨hnames, hname⟩ := List.append_inj' heq rfl
      exact ⟨hnames, (List.cons.inj hname).1⟩
    · rintro ⟨heq, rfl⟩
      rw [heq]
  have hkind : m.Has (base ++ s.namesIn b.parent ++ [b.name]) dir ↔ dir = b.isDirectory :=
    ⟨fun hin => h.sound.unique hin hsource, fun heq => heq ▸ hsource⟩
  rw [h.forest.child_relabelled_iff hb, hsettings, hnames, hhas,
    h.sound.has_moved_iff hfree (h.has_directory hd), hplace, hkind, ne_eq, hentry,
    h.shows hd n dir, and_or_left, and_assoc]
  refine or_congr_left ⟨?_, And.right⟩
  rintro ⟨rfl, rfl, rfl⟩
  exact ⟨hpassed, rfl, rfl, rfl⟩

/-- Renaming keeps the mirror, if the new name is shown and nothing else has it. -/
theorem rename (h : Mirrors m base s) {r : Tree × Session} (hrename : s.rename id name = .ok r)
    (hb : s.blob? id = some b)
    (hhead : (s.entryName name b.isDirectory).head? ≠ some ('.' : UInt8))
    (hfree : s.entryName name b.isDirectory = b.name ∨ isFree s.storage
      (child (Storage.parent (s.storagePath b)) (s.entryName name b.isDirectory)) = true) :
    ∃ m', Mirrors m' base r.2 ∧ r.2.settings = s.settings := by
  obtain ⟨b', moved, storage, hb', hmoved, heq⟩ := rename_ok hrename
  obtain rfl : b = b' := Option.some.inj (hb.symm.trans hb')
  have hr : Alike (s.relabelled id b.parent (s.entryName name b.isDirectory)) r.2 := by
    rw [heq]
    exact (alike_withStorage _ _).trans (alike_foldl_repath _ _)
  have hstorage : r.2.storage = storage := by
    rw [heq]
    exact storage_foldl_repath _ _
  have hid : base ++ s.namesIn id = base ++ s.namesIn b.parent ++ [b.name] := by
    rw [h.forest.namesIn_eq hb, List.append_assoc]
  have hnamed : Named (base ++ s.namesIn b.parent ++ [b.name]) := hid ▸ (h.has_blob hb).2.1
  have hparent : Named (base ++ s.namesIn b.parent) := (named_append_iff.mp hnamed).1
  rw [h.storage, h.storagePath_eq hb, hid] at hmoved hfree
  obtain ⟨⟨place', m'⟩, hm', hpair⟩ := map_eq_ok_iff.mp hmoved
  obtain ⟨-, rfl⟩ := Prod.mk.inj hpair
  rw [parent_place hnamed, child_place hparent] at hfree
  have hentry := Memory.isEntryName_of_rename hm'
  have hfree : s.entryName name b.isDirectory = b.name ∨
      ∀ dir, ¬ m.Has (base ++ s.namesIn b.parent ++ [s.entryName name b.isDirectory]) dir :=
    hfree.imp_right (isFree_memory_iff
      (named_append_iff.mpr ⟨hparent, named_singleton_iff.mpr hentry⟩)).mp
  obtain ⟨hsound, hhas⟩ := h.sound.rename hnamed hm' hfree
  exact ⟨m', h.relabel hb hsound (isPassed_entryName hhead) hfree hhas hr hstorage,
    hr.settings.trans (relabelled_frame s id b.parent _).2⟩

/-! ## Deleting -/

/-- Dropping a blob, as its entry in the storage is dropped, keeps the mirror. -/
theorem prune (h : Mirrors m base s) (hb : s.blob? id = some b) (hm' : m'.Sound)
    (hhas : ∀ {q dir}, m'.Has q dir ↔ m.Has q dir ∧ ¬ base ++ s.namesIn id <+: q)
    (ht : Alike (s.pruned id b.parent) t) (hstorage : t.storage = .memory m') :
    Mirrors m' base t := by
  have hforest := h.forest.pruned hb
  obtain ⟨hroot, hsettings⟩ := pruned_frame s id b.parent
  have hids : s.namesIn id = s.namesIn b.parent ++ [b.name] := h.forest.namesIn_eq hb
  suffices hmirror : Mirrors m' base ((s.pruned id b.parent).withStorage (.memory m')) by
    exact hmirror.alike ((alike_withStorage _ _).symm.trans ht) hstorage
  refine ⟨(alike_withStorage _ _).forest hforest, rfl, hm',
    hroot.trans h.root, hhas.mpr ⟨h.top, ?_⟩, ?_⟩
  · intro hp
    have hlength := hp.length_le
    simp only [hids, List.length_append, List.length_singleton] at hlength
    omega
  · intro d hd n dir
    have hd : (s.pruned id b.parent).Directory d := hd
    show (s.pruned id b.parent).Child d n dir ↔
      isPassed (s.pruned id b.parent).settings ⟨n, dir⟩ = false ∧
        m'.Has (base ++ (s.pruned id b.parent).namesIn d ++ [n]) dir
    obtain ⟨hdir, hleft⟩ := (h.forest.directory_pruned_iff hb b.parent).mp hd
    -- of what a directory that is left has, only the blob itself begins with its names
    have hgone : base ++ s.namesIn id <+: base ++ s.namesIn d ++ [n] ↔
        d = b.parent ∧ n = b.name := by
      rw [List.append_assoc, List.prefix_append_right_inj, List.prefix_concat_iff,
        or_iff_left (fun hp => hleft ((h.forest.mem_ancestorsIn_iff hdir.known hb).mpr hp)), hids]
      constructor
      · intro heq
        obtain ⟨hnames, hname⟩ := List.append_inj' heq rfl
        exact ⟨(h.forest.namesIn_inj (h.forest.parent hb).known hdir.known hnames).symm,
          (List.cons.inj hname).1.symm⟩
      · rintro ⟨rfl, rfl⟩
        rfl
    rw [h.forest.child_pruned_iff hb hleft, h.forest.namesIn_pruned hb hd.known, hsettings, hhas,
      hgone, h.shows hdir n dir, and_assoc]

/-- Deleting keeps the mirror. -/
theorem delete (h : Mirrors m base s) (hdelete : s.delete id = .ok t) :
    ∃ m', Mirrors m' base t ∧ t.settings = s.settings := by
  obtain ⟨b, storage, hb, hstorage, heq⟩ := delete_ok hdelete
  have ht : Alike (s.pruned id b.parent) t := heq ▸ alike_withStorage _ _
  have hkept : t.storage = storage := by rw [heq]; rfl
  have hnamed := (h.has_blob hb).2.1
  have hsettings := ht.settings.trans (pruned_frame s id b.parent).2
  rw [h.storage, h.storagePath_eq hb] at hstorage
  split at hstorage
  · obtain ⟨m', hm', rfl⟩ := map_eq_ok_iff.mp hstorage
    obtain ⟨hsound, hhas⟩ := h.sound.deleteDirectory hnamed hm'
    exact ⟨m', h.prune hb hsound hhas ht hkept, hsettings⟩
  · obtain ⟨m', hm', rfl⟩ := map_eq_ok_iff.mp hstorage
    obtain ⟨hsound, hhas⟩ := h.sound.deleteFile hnamed hm'
    exact ⟨m', h.prune hb hsound hhas ht hkept, hsettings⟩

/-! ## Saving -/

/-- Saving keeps the mirror. -/
theorem save {text : Bytes} (h : Mirrors m base s) (hsave : s.save id text = .ok t) :
    ∃ m', Mirrors m' base t ∧ t.settings = s.settings := by
  obtain ⟨b, hfile, hsave⟩ := bind_eq_ok_iff.mp hsave
  obtain ⟨hb, hfile⟩ := fileBlob_eq_ok_iff.mp hfile
  obtain ⟨storage, hwrite, hsave⟩ := bind_eq_ok_iff.mp hsave
  obtain ⟨b', -, hinstall⟩ := bind_eq_ok_iff.mp hsave
  have ht := (Except.ok.inj hinstall).symm
  have halike : Alike s t := by
    rw [ht]
    exact (alike_withStorage s storage).trans (alike_install _ _ _)
  have hkept : t.storage = storage := by
    rw [ht]
    rfl
  obtain ⟨-, hhas⟩ := h.has_blob hb
  have hid : base ++ s.namesIn id = base ++ s.namesIn b.parent ++ [b.name] := by
    rw [h.forest.namesIn_eq hb, List.append_assoc]
  rw [hfile, hid] at hhas
  rw [ofStorage_eq_ok_iff, h.storage, h.storagePath_eq hb, hid] at hwrite
  obtain ⟨m', hm', rfl⟩ := map_eq_ok_iff.mp hwrite
  obtain ⟨hsound, hhas'⟩ := h.sound.write hhas.1 (h.sound.apart hhas) hm'
  -- the file was there already
  have hsame : ∀ {q dir}, m'.Has q dir ↔ m.Has q dir := by
    intro q dir
    rw [hhas', or_iff_left_of_imp]
    rintro ⟨rfl, rfl⟩
    exact hhas
  have hmirror : Mirrors m' base (s.withStorage (.memory m')) := by
    refine ⟨(alike_withStorage _ _).forest h.forest, rfl, hsound, h.root, hsame.mpr h.top, ?_⟩
    intro d hd n dir
    rw [hsame]
    exact h.shows hd n dir
  exact ⟨m', hmirror.alike ((alike_withStorage _ _).symm.trans halike) hkept, halike.settings⟩

end Mirrors

/-! ## Sequences of edits -/

/-- A change to the tree of a project or to the text of one of its files. -/
inductive Edit where
  | create (name : Bytes) (parent : BlobId) (isDirectory : Bool)
  | rename (id : BlobId) (name : Bytes)
  | delete (id : BlobId)
  | save (id : BlobId) (text : Bytes)

/-- The session after an edit, if it goes through. -/
def applied (s : Session) : Edit → Except Error Session
  | .create name parent isDirectory => (s.create name parent isDirectory).map (·.2)
  | .rename id name => (s.rename id name).map (·.2)
  | .delete id => s.delete id
  | .save id text => s.save id text

/-- Whether an edit that goes through leaves a mirror: what it makes has a name, no directory is
made where a file is, and a blob is renamed only to a name that is shown and that nothing else in
the storage has. -/
def isClear (s : Session) : Edit → Bool
  | .create name parent isDirectory =>
    isEntryName (s.entryName name isDirectory) && !(isDirectory &&
      match s.directoryPath parent with
      | .ok directory => (s.storage.read (child directory name)).toBool
      | .error _ => false)
  | .rename id name =>
    match s.blob? id with
    | some b =>
      let name := s.entryName name b.isDirectory
      name.head? != some ('.' : UInt8) &&
        (name = b.name || isFree s.storage (child (Storage.parent (s.storagePath b)) name))
    | none => true
  | .delete _ => true
  | .save _ _ => true

/-- The session after an edit; one that fails changes nothing. -/
def edited (s : Session) (e : Edit) : Session := (s.applied e).toOption.getD s

/-- The session after edits, one after the other. -/
def afterEdits (s : Session) (edits : List Edit) : Session := edits.foldl edited s

/-- Whether each edit that goes through is clear when it is made. -/
def allClear (s : Session) : List Edit → Bool
  | [] => true
  | e :: edits => (!(s.applied e).toBool || s.isClear e) && (s.edited e).allClear edits

namespace Mirrors

/-- An edit that goes through and is clear keeps the mirror. -/
theorem applied (h : Mirrors m base s) {e : Edit} (he : s.applied e = .ok t)
    (hclear : s.isClear e = true) : ∃ m', Mirrors m' base t ∧ t.settings = s.settings := by
  cases e with
  | create name p isDirectory =>
    obtain ⟨r, hr, rfl⟩ := map_eq_ok_iff.mp he
    rw [isClear, Bool.and_eq_true, Bool.not_eq_true'] at hclear
    refine h.create hr hclear.1 ?_
    rintro rfl directory hdirectory
    simpa [hdirectory] using hclear.2
  | rename id name =>
    obtain ⟨r, hr, rfl⟩ := map_eq_ok_iff.mp he
    obtain ⟨b, -, -, hb, -⟩ := rename_ok hr
    simp only [isClear, hb, Bool.and_eq_true, bne_iff_ne, Bool.or_eq_true,
      decide_eq_true_eq] at hclear
    exact h.rename hr hb hclear.1 hclear.2
  | delete id => exact h.delete he
  | save id text => exact h.save he

/-- An edit that is clear or fails keeps the mirror. -/
theorem edited (h : Mirrors m base s) {e : Edit}
    (hclear : (!(s.applied e).toBool || s.isClear e) = true) :
    ∃ m', Mirrors m' base (s.edited e) ∧ (s.edited e).settings = s.settings := by
  rw [Session.edited]
  cases he : s.applied e with
  | error error => exact ⟨m, h, rfl⟩
  | ok t => exact h.applied he (by simpa [he, Except.toBool] using hclear)

/-- Edits that are clear or fail keep the mirror. -/
theorem afterEdits (h : Mirrors m base s) {edits : List Edit} (hclear : s.allClear edits = true) :
    ∃ m', Mirrors m' base (s.afterEdits edits) ∧ (s.afterEdits edits).settings = s.settings := by
  induction edits generalizing m s with
  | nil => exact ⟨m, h, rfl⟩
  | cons e edits ih =>
    rw [allClear, Bool.and_eq_true] at hclear
    obtain ⟨m₁, h₁, hsettings₁⟩ := h.edited hclear.1
    obtain ⟨m₂, h₂, hsettings₂⟩ := ih h₁ hclear.2
    exact ⟨m₂, h₂, hsettings₂.trans hsettings₁⟩

end Mirrors

/-- After any edits, each clear or failing, a project shows the tree that it shows when it is
opened again, the numbers of its blobs aside; no two entries of a directory have one name, each
blob is found by its path, and each file can be read again. -/
theorem edited_mirrors {root : Bytes} {settings : Settings} (sound : m.Sound)
    (opened : openProject (.memory m) root settings = .ok s) (edits : List Edit)
    (clear : s.allClear edits = true) :
    (∃ t, openProject (s.afterEdits edits).storage root settings = .ok t ∧
      (s.afterEdits edits).shownTree = t.shownTree) ∧
    (∀ d, (((s.afterEdits edits).childrenOf d).map (s.afterEdits edits).nameOf).Nodup) ∧
    ∀ id b, (s.afterEdits edits).blob? id = some b →
      (s.afterEdits edits).lookup? ((s.afterEdits edits).pathOf b) = some id ∧
      (b.isDirectory = false → ∃ u, (s.afterEdits edits).reload id = .ok u) := by
  obtain ⟨base, hroot, hs, hsettings⟩ := mirrors_of_open sound opened
  obtain ⟨m', hafter, hkept⟩ := hs.afterEdits clear
  obtain ⟨t, hopen, ht, hsettings'⟩ := exists_open hafter.sound hafter.top hroot settings
  refine ⟨⟨t, hafter.storage ▸ hopen, ?_⟩, hafter.forest.distinct, ?_⟩
  · exact hafter.shownTree_eq ht ((hkept.trans hsettings).trans hsettings'.symm)
  · intro id b hb
    exact ⟨hafter.lookup?_pathOf hb, hafter.exists_reload hb⟩

theorem sound_twoFiles (a b : Bytes) : (twoFiles a b).Sound := by
  refine Memory.sound_ofFiles ?_
  rw [← twoFiles, twoFiles_eq]
  show ∀ p ∈ [("a.story" : Bytes), "b.story"], p ∉ [([] : Bytes)]
  decide

/-- Edits of a project of two files: `a` takes the name of `b`, which is deleted first, and a
directory with a file in it is renamed.  The last edit fails. -/
def takeOver : List Edit :=
  [.create "d" 0 true, .rename 1 "c", .create "x" 3 false, .rename 3 "e", .delete 2, .rename 1 "b",
    .save 1 "C\n", .create "b" 0 false]

theorem edited_twoFiles : ∃ t,
    openProject ((twoOpened "A\n" "B\n").afterEdits takeOver).storage [] {} = .ok t ∧
      t.shownTree
        = [.node 0 "b.story" false [], .node 0 "e" true [.node 0 "x.story" false []]] := by
  obtain ⟨⟨t, hopen, htree⟩, -⟩ := edited_mirrors (sound_twoFiles "A\n" "B\n")
    (open_twoFiles "A\n" "B\n") takeOver (by decide +kernel)
  exact ⟨t, hopen, htree.symm.trans rfl⟩

/-- Renaming `a` to `b` overwrites the file `b`, but not its blob: the project shows two files of
one name where the storage has one. -/
theorem rename_loses_file : ∃ s tree t u,
    openProject (.memory (twoFiles "A\n" "B\n")) [] {} = .ok s ∧
      s.rename 1 "b" = .ok (tree, t) ∧
      t.storage = .memory (.ofFiles [("b.story", "A\n")]) ∧
      ¬ ((t.childrenOf 0).map t.nameOf).Nodup ∧
      openProject t.storage [] {} = .ok u ∧ t.shownTree ≠ u.shownTree := by
  have hfresh : ((openProject (.memory (.ofFiles [("b.story", "A\n")])) [] {}).map
      (·.shownTree.length)).toOption = some 1 := by decide +kernel
  cases hopen : openProject (.memory (.ofFiles [("b.story", "A\n")])) [] {} with
  | error e => simp [hopen, Except.map, Except.toOption] at hfresh
  | ok u =>
    have hone : u.shownTree.length = 1 := by simpa [hopen, Except.map, Except.toOption] using hfresh
    refine ⟨_, _, _, u, open_twoFiles _ _, rfl, rfl, by decide +kernel, hopen, ?_⟩
    intro heq
    rw [← heq] at hone
    exact absurd hone (by decide +kernel)

end Storyline.Session
