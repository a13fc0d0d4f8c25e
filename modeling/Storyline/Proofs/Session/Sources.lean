import Storyline.Proofs.Session.Recompile
import Storyline.Proofs.Session.Upkeep

/-!
# The paths of sources

The source of a file has a path of its own, by which reports name it: that of its blob, cleaned
(`Sourced`).  Adding, reading, renaming and deleting blobs keep this: a text that is read takes the
path of its blob, and renaming a blob gives new paths to everything in it, and to nothing else.  The
path of a blob is clean already if all blobs have names that can stand in a path
(`Lettered.clean_pathOf`).
-/

namespace Storyline.Session

open Storage (Segmented place)

variable {k s t : Session} {id d j p : BlobId} {b b' : Blob} {name : Bytes} {isDirectory : Bool}

/-- The source of a blob, if it is a file, has the path of the blob. -/
def SourcedAt (s : Session) (id : BlobId) : Prop :=
  ∀ b, s.blob? id = some b → b.isDirectory = false →
    ∃ c, b.story = some c ∧ c.file.path = Path.clean (s.pathOf b)

/-- All sources have the paths of their blobs. -/
def Sourced (s : Session) : Prop := ∀ id, s.SourcedAt id

/-- A blob that is as it was in another session, at the same place, has the path it had there. -/
theorem SourcedAt.of_header (h : s.SourcedAt id) (hs : Grove s) (ht : Grove t)
    (hheader : ∀ b, t.blob? id = some b → ∃ b', s.blob? id = some b' ∧ header b' = header b)
    (hnames : t.Known id → t.namesIn id = s.namesIn id) : t.SourcedAt id := by
  intro b hb hfile
  obtain ⟨b', hb', heq⟩ := hheader b hb
  obtain ⟨c, hc, hpath⟩ := h b' hb' ((congrArg (·.isDirectory) heq).trans hfile)
  refine ⟨c, (congrArg (·.story) heq).symm.trans hc, ?_⟩
  rw [hpath, hs.pathOf_eq hb', ht.pathOf_eq hb, hnames (.inr ⟨b, hb⟩)]

/-! ## Reading -/

/-- A text that is read takes the path of its blob; other sources keep theirs. -/
theorem sourcedAt_install (hb : s.blob? id = some b) (text : Bytes)
    (h : j ≠ id → s.SourcedAt j) : (s.install id (s.readText b text)).SourcedAt j := by
  have hpaths : ∀ x, (s.install id (s.readText b text)).pathOf x = s.pathOf x :=
    fun _ => (alike_install s id _).pathOf rfl rfl
  intro b' hb' hfile
  rw [blob?_install (ne_zero_of_blob? hb)] at hb'
  by_cases hj : j = id
  · subst hj
    rw [if_pos rfl, hb] at hb'
    obtain rfl := Option.some.inj hb'
    exact ⟨_, rfl, congrArg Path.clean (hpaths _).symm⟩
  · rw [if_neg hj] at hb'
    rw [hpaths]
    exact h hj b' hb' hfile

theorem sourcedAt_filled (h : j ≠ id → s.SourcedAt j) : (s.filled id).SourcedAt j := by
  rw [filled]
  split
  · next b hb =>
    split
    · next hdir =>
      by_cases hj : j = id
      · intro b' hb' hfile
        rw [hj, hb] at hb'
        obtain rfl := Option.some.inj hb'
        exact absurd (hdir.symm.trans hfile) (by decide)
      · exact h hj
    · exact sourcedAt_install hb [] h
  · next hnone =>
    by_cases hj : j = id
    · intro b' hb'
      rw [hj, hnone] at hb'
      cases hb'
    · exact h hj

/-- Opening a project gives every source the path of its blob. -/
theorem Blank.sourced (hk : Blank k) (h : k.loaded = .ok s) : s.Sourced := by
  have hholds := hk.holds_loaded h
  intro id b hb hfile
  obtain ⟨b', hb', heq⟩ := hholds.blob? hb
  have hfile' : b'.isDirectory = false := (congrArg (·.isDirectory) heq).symm.trans hfile
  rw [storiesOf_file hb' hfile'] at heq
  obtain ⟨c, hc, hcontent⟩ := Option.map_eq_some_iff.mp (congrArg (·.story) heq)
  have hpath : s.pathOf b = k.pathOf b' :=
    hholds.alike.pathOf (congrArg (·.ancestors) heq) (congrArg (·.name) heq)
  exact ⟨c, hc, hpath ▸ congrArg (·.file.path) hcontent⟩

/-! ## Adding, renaming and deleting -/

/-- Adding a blob and reading it, if it is a file, keeps the paths. -/
theorem Sourced.added (h : s.Sourced) (hs : Grove s) (hp : s.Directory p) :
    ((s.alloc name p isDirectory).2.filled (s.blobs.size + 1)).Sourced := by
  intro j
  refine sourcedAt_filled fun hj => ?_
  have hold : ∀ b, (s.alloc name p isDirectory).2.blob? j = some b →
      ∃ b', s.blob? j = some b' ∧ header b' = header b :=
    fun b hb => (of_blob?_alloc hb).resolve_left fun hnew => hj hnew.1
  refine (h j).of_header hs (hs.alloc hp) hold fun hknown => hs.namesIn_alloc hp ?_
  refine hknown.imp_right ?_
  rintro ⟨b, hb⟩
  obtain ⟨b', hb', -⟩ := hold b hb
  exact ⟨b', hb'⟩

/-- A blob whose source has its path. -/
def resourced (s : Session) (b : Blob) : Blob :=
  { b with
    story := b.story.map fun c =>
      { c with file := { c.file with path := Path.clean (s.pathOf b) } } }

theorem exists_path_resourced (s : Session) {c : StoryFile} (hc : b.story = some c) :
    ∃ c', (s.resourced b).story = some c' ∧ c'.file.path = Path.clean (s.pathOf b) :=
  ⟨_, congrArg (Option.map _) hc, rfl⟩

theorem Alike.resourced (h : Alike k s) (b : Blob) : s.resourced b = k.resourced b := by
  rw [Session.resourced, Session.resourced, h.pathOf rfl rfl]

theorem resourced_resourced (s : Session) (b : Blob) :
    s.resourced (s.resourced b) = s.resourced b := by
  simp only [resourced, Option.map_map]
  rfl

theorem blob?_repath (s : Session) (id j : BlobId) :
    (s.repath id).blob? j = (s.blob? j).map fun b => if j = id then s.resourced b else b := by
  rw [repath]
  split
  · next hnone =>
    by_cases hj : j = id
    · rw [hj, hnone]
      rfl
    · simp [hj]
  · next b hb =>
    rw [blob?_mapBlob (ne_zero_of_blob? hb)]
    by_cases hj : j = id
    · subst hj
      simp only [if_true, hb]
      rfl
    · simp [hj]

theorem blob?_foldl_repath (ids : List BlobId) (s : Session) (j : BlobId) :
    (ids.foldl repath s).blob? j
      = (s.blob? j).map fun b => if j ∈ ids then s.resourced b else b := by
  induction ids generalizing s with
  | nil => simp
  | cons id ids ih =>
    rw [List.foldl_cons, ih, blob?_repath, Option.map_map]
    refine Option.map_congr fun b _ => ?_
    simp only [Function.comp_apply, (alike_repath s id).resourced, List.mem_cons]
    by_cases hj : j = id
    · by_cases hin : j ∈ ids
      · simp [hj, resourced_resourced]
      · simp [hj, resourced_resourced]
    · simp [hj]

/-- What is not in a renamed blob keeps its names. -/
theorem namesIn_relabelled_outside (hb : s.blob? id = some b) (hd : id ∉ s.ancestorsIn d) :
    (s.relabelled id p name).namesIn d = s.namesIn d := by
  rw [namesIn, namesIn, ancestorsIn_relabelled (ne_zero_of_blob? hb)]
  refine List.map_congr_left fun c hc => ?_
  have hne : c ≠ id := fun heq => hd (heq ▸ hc)
  rw [nameOf_relabelled hb, if_neg hne]

/-- Renaming a blob and giving new paths to everything in it keeps the paths. -/
theorem Sourced.renamed (h : s.Sourced) (hs : Grove s) (hb : s.blob? id = some b) (name : Bytes) :
    ((s.relabelled id b.parent name).repathed id).Sourced := by
  have hid := ne_zero_of_blob? hb
  have hgrove := hs.relabelled hb name
  have hpaths : ∀ x, ((s.relabelled id b.parent name).repathed id).pathOf x
      = (s.relabelled id b.parent name).pathOf x :=
    fun _ => (alike_foldl_repath _ _).pathOf rfl rfl
  intro j bj hbj hfile
  rw [repathed, blob?_foldl_repath] at hbj
  obtain ⟨bu, hbu, rfl⟩ := Option.map_eq_some_iff.mp hbj
  obtain ⟨bs, hbs, heq⟩ := of_blob?_relabelled hid hbu
  have hstory : bu.story = bs.story := congrArg (·.story) heq
  by_cases hin : j ∈ (s.relabelled id b.parent name).everythingIn id
  · rw [if_pos hin] at hfile ⊢
    have hfile : bs.isDirectory = false := (congrArg (·.isDirectory) heq).symm.trans hfile
    obtain ⟨c, hc, -⟩ := h j bs hbs hfile
    obtain ⟨c', hc', hpath⟩ :=
      exists_path_resourced (s.relabelled id b.parent name) (hstory.trans hc)
    exact ⟨c', hc', hpath.trans (congrArg Path.clean (hpaths _).symm)⟩
  · rw [if_neg hin] at hfile ⊢
    have hfile : bs.isDirectory = false := (congrArg (·.isDirectory) heq).symm.trans hfile
    obtain ⟨c, hc, hpath⟩ := h j bs hbs hfile
    refine ⟨c, hstory.trans hc, ?_⟩
    -- what got no new path is not in the renamed blob
    have hout : id ∉ s.ancestorsIn j := by
      obtain ⟨bid, hbid, -⟩ := exists_blob?_relabelled hid b.parent name hb
      rw [← ancestorsIn_relabelled hid b.parent name]
      exact fun hmem => hin ((hgrove.mem_everythingIn_iff hbid).mpr ⟨⟨bu, hbu⟩, hmem⟩)
    rw [hpath, hpaths, hs.pathOf_eq hbs, hgrove.pathOf_eq hbu, namesIn_relabelled_outside hb hout]

/-- Deleting a blob keeps the paths. -/
theorem Sourced.pruned (h : s.Sourced) (hs : Grove s) (hb : s.blob? id = some b) :
    (s.pruned id b.parent).Sourced := by
  intro j
  refine (h j).of_header hs (hs.pruned hb) ?_ (hs.namesIn_pruned hb)
  intro bj hbj
  exact (hs.of_blob?_pruned hb hbj).2

/-! ## Clean paths -/

/-- All blobs have names that can stand in a path. -/
def Lettered (s : Session) : Prop := ∀ id b, s.blob? id = some b → Segmented [b.name]

namespace Lettered

/-- The path of a blob is clean. -/
theorem clean_pathOf (h : s.Lettered) (hs : Grove s) (hb : s.blob? id = some b) :
    Path.clean (s.pathOf b) = s.pathOf b := by
  have hnames : ∀ {d}, s.Known d → Segmented (s.namesIn d) := by
    refine hs.known_ind (P := fun d => Segmented (s.namesIn d)) ?_ ?_
    · intro n hn
      cases hn
    · intro id b hb ih n hn
      rw [hs.namesIn_eq hb] at hn
      rcases List.mem_append.mp hn with hn | hn
      · exact ih n hn
      · exact h id b hb n hn
  rw [hs.pathOf_eq hb]
  refine (hnames (.inr ⟨b, hb⟩)).clean_place ?_
  rw [hs.namesIn_eq hb]
  simp

theorem alike (h : k.Lettered) (ht : Alike k s) : s.Lettered := by
  intro id b hb
  obtain ⟨b', hb', heq⟩ := ht.blob? hb
  rw [← show b'.name = b.name from congrArg (·.name) heq]
  exact h id b' hb'

theorem alloc (h : s.Lettered) (hname : Segmented [name]) :
    (s.alloc name p isDirectory).2.Lettered := by
  intro id b hb
  rcases of_blob?_alloc hb with ⟨-, rfl⟩ | ⟨b', hb', heq⟩
  · exact hname
  · rw [← show b'.name = b.name from congrArg (·.name) heq]
    exact h id b' hb'

theorem relabelled (h : s.Lettered) (hid : id ≠ 0) (hname : Segmented [name]) :
    (s.relabelled id p name).Lettered := by
  intro j b hb
  obtain ⟨b', hb', heq⟩ := of_blob?_relabelled hid hb
  rw [show b.name = if j = id then name else b'.name from congrArg (·.name) heq]
  split
  · exact hname
  · exact h j b' hb'

theorem pruned (h : s.Lettered) (hs : Grove s) (hb : s.blob? id = some b) :
    (s.pruned id p).Lettered := by
  intro j bj hbj
  obtain ⟨-, b', hb', heq⟩ := hs.of_blob?_pruned hb hbj
  rw [← show b'.name = bj.name from congrArg (·.name) heq]
  exact h j b' hb'

end Lettered

end Storyline.Session
