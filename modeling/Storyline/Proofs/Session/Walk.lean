import Storyline.Proofs.Session.Contents
import Storyline.Proofs.Session.Edits
import Storyline.Proofs.Storage.Entries

/-!
# The walk through a storage

A directory of a session shows what the storage has there if its blobs are what is listed and not
passed over (`Shows`).  The walk that opens a project never fails on a sound storage, and leaves
every directory showing what the storage has (`exists_scan`): it works on blobs that it adds itself
and leaves all others as they were (`Extends`), so what is finished stays so.
-/

namespace Storyline.Session

open Storage (Listed Memory place child_place named_append_iff)

variable {s t u : Session} {id c d p q : BlobId} {b : Blob} {n : Bytes} {dir : Bool}
  {m : Memory} {base : List Bytes}

/-- A directory of a session has the blobs of what the storage has there, apart from what is passed
over; the project is in the storage where the names `base` lead. -/
def Shows (m : Memory) (base : List Bytes) (s : Session) (d : BlobId) : Prop :=
  ∀ n dir, s.Child d n dir ↔
    isPassed s.settings ⟨n, dir⟩ = false ∧ m.Has (base ++ s.namesIn d ++ [n]) dir

/-! ## Adding blobs below a directory -/

/-- A session with more blobs, all of them below the directory `p`. -/
structure Extends (s t : Session) (p : BlobId) : Prop where
  root : t.root = s.root
  settings : t.settings = s.settings
  storage : t.storage = s.storage
  size : s.blobs.size ≤ t.blobs.size
  old : ∀ {id b}, s.blob? id = some b → ∃ b', t.blob? id = some b' ∧ header b' = header b
  new : ∀ {id b}, t.blob? id = some b → (∃ b', s.blob? id = some b' ∧ header b' = header b) ∨
    (s.blobs.size < id ∧ (b.parent = p ∨ s.blobs.size < b.parent))

namespace Extends

theorem refl (s : Session) (p : BlobId) : Extends s s p :=
  ⟨rfl, rfl, rfl, Nat.le_refl _, fun hb => ⟨_, hb, rfl⟩, fun hb => .inl ⟨_, hb, rfl⟩⟩

theorem trans (h : Extends s t p) (h' : Extends t u q) (hq : q = p ∨ s.blobs.size < q) :
    Extends s u p where
  root := h'.root.trans h.root
  settings := h'.settings.trans h.settings
  storage := h'.storage.trans h.storage
  size := Nat.le_trans h.size h'.size
  old := by
    intro id b hb
    obtain ⟨b', hb', heq⟩ := h.old hb
    obtain ⟨b'', hb'', heq'⟩ := h'.old hb'
    exact ⟨b'', hb'', heq'.trans heq⟩
  new := by
    intro id b hb
    rcases h'.new hb with ⟨b', hb', heq⟩ | ⟨hid, hparent⟩
    · rcases h.new hb' with ⟨b'', hb'', heq'⟩ | ⟨hid, hparent⟩
      · exact .inl ⟨b'', hb'', heq'.trans heq⟩
      · rw [show b'.parent = b.parent from congrArg (·.parent) heq] at hparent
        exact .inr ⟨hid, hparent⟩
    · refine .inr ⟨Nat.lt_of_le_of_lt h.size hid, ?_⟩
      rcases hparent with rfl | hparent
      · exact hq
      · exact .inr (Nat.lt_of_le_of_lt h.size hparent)

theorem alloc (s : Session) (name : Bytes) (p : BlobId) (isDirectory : Bool) :
    Extends s (s.alloc name p isDirectory).2 p where
  root := by
    unfold Session.alloc mapChildren
    split <;> rfl
  settings := by
    unfold Session.alloc mapChildren
    split <;> rfl
  storage := alloc_storage s name p isDirectory
  size := by
    rw [alloc_size]
    exact Nat.le_succ _
  old := fun hb => exists_blob?_alloc hb name p isDirectory
  new := by
    intro id b hb
    rcases of_blob?_alloc hb with ⟨rfl, rfl⟩ | hold
    · exact .inr ⟨Nat.lt_succ_self _, .inl rfl⟩
    · exact .inl hold

theorem directory_iff (h : Extends s t p) (hd : d ≤ s.blobs.size) :
    t.Directory d ↔ s.Directory d := by
  refine or_congr_right ⟨?_, ?_⟩
  · rintro ⟨b, hb, hdir⟩
    rcases h.new hb with ⟨b', hb', heq⟩ | ⟨hlt, -⟩
    · exact ⟨b', hb', (congrArg (·.isDirectory) heq).trans hdir⟩
    · exact absurd hd (Nat.not_le_of_lt hlt)
  · rintro ⟨b, hb, hdir⟩
    obtain ⟨b', hb', heq⟩ := h.old hb
    exact ⟨b', hb', (congrArg (·.isDirectory) heq).trans hdir⟩

theorem namesIn (h : Extends s t p) (hs : Forest s) (ht : Forest t) (hd : s.Known d) :
    t.namesIn d = s.namesIn d := by
  refine (ht.namesIn_congr hs.toGrove ?_ hd).symm
  intro id b hb
  obtain ⟨b', hb', heq⟩ := h.old hb
  exact ⟨b', hb', congrArg (·.parent) heq, congrArg (·.name) heq⟩

/-- Other directories keep what they have. -/
theorem child_iff (h : Extends s t p) (hd : d ≤ s.blobs.size) (hne : d ≠ p) :
    t.Child d n dir ↔ s.Child d n dir := by
  constructor
  · rintro ⟨c, b, hb, rfl, rfl, rfl⟩
    rcases h.new hb with ⟨b', hb', heq⟩ | ⟨-, hp | hlt⟩
    · exact ⟨c, b', hb', congrArg (·.parent) heq, congrArg (·.name) heq,
        congrArg (·.isDirectory) heq⟩
    · exact absurd hp hne
    · exact absurd hd (Nat.not_le_of_lt hlt)
  · rintro ⟨c, b, hb, rfl, rfl, rfl⟩
    obtain ⟨b', hb', heq⟩ := h.old hb
    exact ⟨c, b', hb', congrArg (·.parent) heq, congrArg (·.name) heq, congrArg (·.isDirectory) heq⟩

theorem shows (h : Extends s t p) (hs : Forest s) (ht : Forest t) (hd : s.Directory d) (hne : d ≠ p)
    (hshows : Shows m base s d) : Shows m base t d := by
  intro n dir
  rw [h.child_iff hd.known.le_size hne, h.settings, h.namesIn hs ht hd.known]
  exact hshows n dir

end Extends

/-- What the walk over some names in the directory `p` has done. -/
structure Walked (m : Memory) (base : List Bytes) (p : BlobId) (es : List Listed) (s t : Session) :
    Prop where
  forest : Forest t
  extend : Extends s t p
  children : ∀ {n dir}, t.Child p n dir ↔
    s.Child p n dir ∨ (⟨n, dir⟩ ∈ es ∧ isPassed s.settings ⟨n, dir⟩ = false)
  shows : ∀ {d}, s.blobs.size < d → t.Directory d → Shows m base t d

namespace Walked

variable {e : Listed} {es : List Listed}

theorem nil (hs : Forest s) : Walked m base p [] s s where
  forest := hs
  extend := Extends.refl s p
  children := by simp
  shows := fun hlt hd => absurd hd.known.le_size (Nat.not_le_of_lt hlt)

theorem cons (h : Walked m base p [e] s t) (h' : Walked m base p es t u) (hp : p ≤ s.blobs.size) :
    Walked m base p (e :: es) s u where
  forest := h'.forest
  extend := h.extend.trans h'.extend (.inl rfl)
  children := by
    intro n dir
    rw [h'.children, h.children, h.extend.settings, List.mem_singleton, List.mem_cons, or_assoc,
      ← or_and_right]
  shows := by
    intro d hlt hd
    by_cases hle : d ≤ t.blobs.size
    · have hd' := (h'.extend.directory_iff hle).mp hd
      have hne : d ≠ p := fun heq => Nat.not_le_of_lt hlt (heq ▸ hp)
      exact h'.extend.shows h.forest h'.forest hd' hne (h.shows hlt hd')
    · exact h'.shows (Nat.lt_of_not_le hle) hd

end Walked

/-! ## The walk -/

theorem Forest.not_child_next (h : Forest s) : ¬ s.Child (s.blobs.size + 1) n dir := by
  rintro ⟨c, b, hb, hparent, -⟩
  exact (h.parent hb).known.ne_next hparent

theorem Forest.name_ne_of_not_child (h : Forest s) {name : Bytes}
    (hnew : ∀ dir, ¬ s.Child p name dir) : ∀ c ∈ s.childrenOf p, s.nameOf c ≠ name := by
  rintro c hc rfl
  obtain ⟨b, hb, hparent⟩ := h.children.mp hc
  exact hnew b.isDirectory ⟨c, b, hb, hparent, (nameOf_of_blob? hb).symm, rfl⟩

/-- The walk through a directory that has no blobs yet finds all that the storage has there and
below. -/
def Walks (m : Memory) (base : List Bytes) (fuel : Nat) : Prop :=
  ∀ {p s}, Forest s → s.storage = .memory m → s.Directory p → (∀ n dir, ¬ s.Child p n dir) →
    m.Has (base ++ s.namesIn p) true →
    m.directories.length ≤ fuel + (base ++ s.namesIn p).length →
    ∃ t, scan fuel p (place (base ++ s.namesIn p)) s = .ok t ∧ Forest t ∧ Extends s t p ∧
      ∀ {d}, d = p ∨ s.blobs.size < d → t.Directory d → Shows m base t d

/-- One listed name becomes a blob, with all that is below it. -/
theorem exists_scanEntry {fuel : Nat} (hwalks : Walks m base fuel) (hs : Forest s)
    (hstorage : s.storage = .memory m) (hp : s.Directory p) {e : Listed}
    (hhas : m.Has (base ++ s.namesIn p ++ [e.name]) e.isDirectory)
    (hfuel : m.directories.length ≤ fuel + 1 + (base ++ s.namesIn p).length)
    (hnew : ∀ dir, ¬ s.Child p e.name dir) :
    ∃ t, scanEntry (scan fuel) p (place (base ++ s.namesIn p)) s e = .ok t ∧
      Walked m base p [e] s t := by
  have hnamed := (named_append_iff.mp hhas.1).1
  have hother := hs.name_ne_of_not_child hnew
  rw [scanEntry_eq]
  split
  -- a name that is passed over gets no blob
  · next hpassed =>
    refine ⟨s, rfl, { Walked.nil hs with children := ?_ }⟩
    intro n dir
    simp only [List.mem_singleton, iff_self_or]
    rintro ⟨rfl, hnot⟩
    rw [hpassed] at hnot
    cases hnot
  · next hpassed =>
    have hforest : Forest (s.alloc e.name p e.isDirectory).2 := hs.alloc hp hother
    have hextend := Extends.alloc s e.name p e.isDirectory
    -- the new blob, or what was in the directory before
    have hchildren : ∀ {n dir}, (s.alloc e.name p e.isDirectory).2.Child p n dir ↔
        s.Child p n dir ∨ (⟨n, dir⟩ ∈ [e] ∧ isPassed s.settings ⟨n, dir⟩ = false) := by
      intro n dir
      rw [child_alloc_iff, List.mem_singleton]
      refine or_congr_right ⟨?_, ?_⟩
      · rintro ⟨-, rfl, rfl⟩
        exact ⟨rfl, by simpa using hpassed⟩
      · rintro ⟨rfl, -⟩
        exact ⟨rfl, rfl, rfl⟩
    have hnext := blob?_alloc_next s e.name p e.isDirectory
    split
    -- a directory is scanned in turn; it is empty before, so that the walk says all that it holds
    · next hdir =>
      have hnames : (s.alloc e.name p e.isDirectory).2.namesIn (s.blobs.size + 1)
          = s.namesIn p ++ [e.name] := by
        rw [hforest.namesIn_eq hnext, hs.namesIn_alloc hp hp.known]
      have hempty : ∀ n dir,
          ¬ (s.alloc e.name p e.isDirectory).2.Child (s.blobs.size + 1) n dir := by
        intro n dir
        rw [child_alloc_iff]
        rintro (hold | ⟨heq, -⟩)
        · exact hs.not_child_next hold
        · exact hp.known.ne_next heq.symm
      rw [hdir] at hhas
      obtain ⟨t, hscan, ht, hext, hshows⟩ := hwalks hforest
        ((alloc_storage _ _ _ _).trans hstorage) (.inr ⟨_, hnext, hdir⟩) hempty
        (by rwa [hnames, ← List.append_assoc])
        (by
          simp only [hnames, List.length_append, List.length_singleton] at hfuel ⊢
          omega)
      rw [hnames, ← List.append_assoc] at hscan
      rw [child_place hnamed]
      refine ⟨t, hscan, ht, hextend.trans hext (.inr (Nat.lt_succ_self _)), ?_, ?_⟩
      · intro n dir
        rw [hext.child_iff (by rw [alloc_size]; exact Nat.le_succ_of_le hp.known.le_size)
          hp.known.ne_next]
        exact hchildren
      · intro d hlt hd
        refine hshows ?_ hd
        rw [alloc_size]
        rcases Nat.eq_or_lt_of_le hlt with heq | hlt
        · exact .inl heq.symm
        · exact .inr hlt
    -- a file has no children, and is no directory to be shown
    · next hdir =>
      refine ⟨_, rfl, hforest, hextend, hchildren, ?_⟩
      intro d hlt hd
      have hle := hd.known.le_size
      rw [alloc_size] at hle
      obtain rfl : d = s.blobs.size + 1 := Nat.le_antisymm hle hlt
      rcases hd with hzero | ⟨b, hb, hisdir⟩
      · exact absurd hzero (Nat.succ_ne_zero _)
      · rw [hnext] at hb
        obtain rfl := Option.some.inj hb
        exact absurd hisdir hdir

/-- A list of names is walked through one after the other. -/
theorem exists_foldlM_scanEntry {fuel : Nat} (hwalks : Walks m base fuel) {es : List Listed}
    {names : List Bytes} (hs : Forest s) (hstorage : s.storage = .memory m) (hp : s.Directory p)
    (hnames : s.namesIn p = names)
    (hhas : ∀ e ∈ es, m.Has (base ++ names ++ [e.name]) e.isDirectory)
    (hfuel : m.directories.length ≤ fuel + 1 + (base ++ names).length)
    (hdistinct : (es.map (·.name)).Nodup) (hnew : ∀ e ∈ es, ∀ dir, ¬ s.Child p e.name dir) :
    ∃ t, es.foldlM (scanEntry (scan fuel) p (place (base ++ names))) s = .ok t ∧
      Walked m base p es s t := by
  induction es generalizing s with
  | nil => exact ⟨s, rfl, Walked.nil hs⟩
  | cons e es ih =>
    rw [List.map_cons, List.nodup_cons] at hdistinct
    subst hnames
    obtain ⟨t, hentry, ht⟩ := exists_scanEntry hwalks hs hstorage hp (hhas e List.mem_cons_self)
      hfuel (hnew e List.mem_cons_self)
    obtain ⟨u, hrest, hu⟩ := ih ht.forest (ht.extend.storage.trans hstorage)
      ((ht.extend.directory_iff hp.known.le_size).mpr hp) (ht.extend.namesIn hs ht.forest hp.known)
      (fun x hx => hhas x (List.mem_cons_of_mem _ hx)) hdistinct.2 (by
        intro x hx dir
        rw [ht.children]
        rintro (hold | ⟨hin, -⟩)
        · exact hnew x (List.mem_cons_of_mem _ hx) dir hold
        · have hname : x.name = e.name := congrArg (·.name) (List.mem_singleton.mp hin)
          exact hdistinct.1 (hname ▸ List.mem_map.mpr ⟨x, hx, rfl⟩))
    refine ⟨u, ?_, ht.cons hu hp.known.le_size⟩
    rw [List.foldlM_cons, hentry]
    exact hrest

/-- The walk through a sound storage leaves every directory showing what is there. -/
theorem exists_scan (hm : m.Sound) (fuel : Nat) : Walks m base fuel := by
  induction fuel with
  | zero =>
    intro p s hs hstorage hp hempty hhas hfuel
    have hdeep := hm.length_lt hhas
    omega
  | succ fuel ih =>
    intro p s hs hstorage hp hempty hhas hfuel
    obtain ⟨entries, hlist, hdistinct, hentries⟩ := hm.exists_list hhas
    have hlist : s.storage.list (place (base ++ s.namesIn p)) = .ok entries := by
      rw [hstorage]
      exact hlist
    obtain ⟨t, hfold, ht⟩ := exists_foldlM_scanEntry ih hs hstorage hp rfl
      (fun e he => (hentries e).mp he) hfuel hdistinct fun e _ dir => hempty e.name dir
    refine ⟨t, ?_, ht.forest, ht.extend, ?_⟩
    · rw [scan, hlist]
      exact hfold
    · rintro d (rfl | hlt) hd
      · intro n dir
        rw [ht.children, ht.extend.settings, ht.extend.namesIn hs ht.forest hp.known,
          or_iff_right (hempty n dir), hentries, and_comm]
      · exact ht.shows hlt hd

end Storyline.Session
