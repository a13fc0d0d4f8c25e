import Mathlib.Data.List.Induction
import Mathlib.Data.List.Nodup
import Mathlib.Data.List.Perm.Subperm
import Storyline.Proofs.Storage.Places
import Storyline.Proofs.Text.Lists
import Storyline.Storage.Basic

/-!
# What is in a project in memory

A project in memory is judged by what it has at which names: `Has` says that the names lead to a
file or to a directory.  `Sound` is what holds of every project that is made of files: whatever has
names is in a directory, and nothing is there twice.  Under it each operation is an equation on
`Has`: writing and making add a name, deleting drops what begins with a name, and renaming changes
the names in front.
-/

namespace Storyline.Storage.Memory

variable {m m' : Memory} {names t q d : List Bytes} {n n' p text : Bytes} {dir : Bool}

/-! ## Places -/

/-- The places of the directories, or those of the files. -/
def places (m : Memory) (isDirectory : Bool) : List Bytes :=
  if isDirectory then m.directories else m.files.map (·.1)

theorem hasDirectory_iff : m.hasDirectory p = true ↔ p ∈ m.places true := by
  simp [hasDirectory, places]

theorem isSome_file?_iff : (m.file? p).isSome = true ↔ p ∈ m.places false := by
  rw [Option.isSome_iff_ne_none, file?, ne_eq, List.lookup_eq_none_iff]
  simp only [places, Bool.false_eq_true, if_false, List.mem_map, not_forall, bne_iff_ne, ne_eq,
    not_not, exists_prop]
  exact exists_congr fun f => and_congr_right fun _ => eq_comm

theorem mem_putFile (m : Memory) (place text : Bytes) :
    p ∈ (m.putFile place text).places dir ↔ p ∈ m.places dir ∨ (dir = false ∧ p = place) := by
  cases dir with
  | true => simp [places, putFile]
  | false =>
    by_cases hp : p = place
    · simp [places, putFile, hp]
    · simp [places, putFile, hp]

theorem mem_putDirectory (m : Memory) (place : Bytes) :
    p ∈ (m.putDirectory place).places dir ↔ p ∈ m.places dir ∨ (dir = true ∧ p = place) := by
  unfold putDirectory
  split
  · next hin =>
    have hin := hasDirectory_iff.mp hin
    constructor
    · exact .inl
    · rintro (h | ⟨rfl, rfl⟩)
      · exact h
      · exact hin
  · cases dir <;> simp [places]

theorem mem_foldl_putFile {α : Type} (g t : α → Bytes) (xs : List α) (m : Memory) :
    p ∈ (xs.foldl (fun m x => m.putFile (g x) (t x)) m).places dir
      ↔ p ∈ m.places dir ∨ (dir = false ∧ ∃ x ∈ xs, p = g x) := by
  induction xs generalizing m with
  | nil => simp
  | cons x xs ih =>
    rw [List.foldl_cons, ih, mem_putFile, List.exists_mem_cons_iff]
    tauto

theorem mem_foldl_putDirectory {α : Type} (g : α → Bytes) (xs : List α) (m : Memory) :
    p ∈ (xs.foldl (fun m x => m.putDirectory (g x)) m).places dir
      ↔ p ∈ m.places dir ∨ (dir = true ∧ ∃ x ∈ xs, p = g x) := by
  induction xs generalizing m with
  | nil => simp
  | cons x xs ih =>
    rw [List.foldl_cons, ih, mem_putDirectory, List.exists_mem_cons_iff]
    tauto

/-- The project with some of its files and some of its directories. -/
def filtered (m : Memory) (keepFile keepDirectory : Bytes → Bool) : Memory :=
  ⟨m.files.filter fun f => keepFile f.1, m.directories.filter keepDirectory⟩

theorem mem_filtered (m : Memory) (keepFile keepDirectory : Bytes → Bool) :
    p ∈ (m.filtered keepFile keepDirectory).places dir ↔
      p ∈ m.places dir ∧ (if dir then keepDirectory p else keepFile p) = true := by
  cases dir with
  | true => simp [places, filtered]
  | false =>
    simp only [places, filtered, Bool.false_eq_true, if_false, List.mem_map, List.mem_filter]
    constructor
    · rintro ⟨f, ⟨hf, hkeep⟩, rfl⟩
      exact ⟨⟨f, hf, rfl⟩, hkeep⟩
    · rintro ⟨⟨f, hf, rfl⟩, hkeep⟩
      exact ⟨f, ⟨hf, hkeep⟩, rfl⟩

/-- No place is there twice. -/
def Distinct (m : Memory) : Prop := ∀ dir, (m.places dir).Nodup

theorem Distinct.putFile (h : Distinct m) (place text : Bytes) :
    Distinct (m.putFile place text) := by
  intro dir
  cases dir with
  | true => exact h true
  | false =>
    have hstay : ((m.files.filter fun f => f.1 != place).map (·.1)).Nodup :=
      (List.filter_sublist.map _).nodup (h false)
    simp only [places, Memory.putFile, Bool.false_eq_true, if_false, List.map_append, List.map_cons,
      List.map_nil]
    refine List.nodup_append.mpr ⟨hstay, List.nodup_singleton _, ?_⟩
    intro a ha b hb
    obtain rfl : b = place := by simpa using hb
    obtain ⟨f, hf, rfl⟩ := List.mem_map.mp ha
    simpa using (List.mem_filter.mp hf).2

theorem Distinct.putDirectory (h : Distinct m) (place : Bytes) :
    Distinct (m.putDirectory place) := by
  unfold Memory.putDirectory
  split
  · exact h
  · next hnot =>
    intro dir
    cases dir with
    | false => exact h false
    | true =>
      refine List.nodup_append.mpr ⟨h true, List.nodup_singleton _, ?_⟩
      rintro a ha b hb rfl
      obtain rfl : a = place := by simpa using hb
      exact hnot (hasDirectory_iff.mpr ha)

theorem Distinct.foldl {α : Type} {f : Memory → α → Memory}
    (hf : ∀ {m x}, Distinct m → Distinct (f m x)) (xs : List α) (h : Distinct m) :
    Distinct (xs.foldl f m) := by
  induction xs generalizing m with
  | nil => exact h
  | cons x xs ih => exact ih (hf h)

theorem Distinct.filtered (h : Distinct m) (keepFile keepDirectory : Bytes → Bool) :
    Distinct (m.filtered keepFile keepDirectory) := by
  intro dir
  cases dir with
  | true => exact List.filter_sublist.nodup (h true)
  | false => exact (List.filter_sublist.map _).nodup (h false)

/-! ## What is at which names -/

/-- The names lead to a directory of the project, or to a file. -/
def Has (m : Memory) (names : List Bytes) (isDirectory : Bool) : Prop :=
  Named names ∧ place names ∈ m.places isDirectory

/-- Every place has names, whatever has names is in a directory, and nothing is there twice. -/
structure Formed (m : Memory) : Prop where
  distinct : Distinct m
  named : ∀ {dir p}, p ∈ m.places dir → ∃ names, Named names ∧ p = place names
  top : m.Has [] true
  closed : ∀ {dir names n}, m.Has (names ++ [n]) dir → m.Has names true

/-- A well-formed project in which nothing is a file and a directory. -/
structure Sound (m : Memory) : Prop extends Formed m where
  apart : ∀ {names}, m.Has names false → ¬ m.Has names true

theorem Sound.top_not_file (h : m.Sound) : ¬ m.Has [] false := fun hfile => h.apart hfile h.top

theorem Sound.unique (h : m.Sound) {dir' : Bool} (hdir : m.Has names dir)
    (hdir' : m.Has names dir') : dir = dir' := by
  cases dir <;> cases dir'
  · rfl
  · exact absurd hdir' (h.apart hdir)
  · exact absurd hdir (h.apart hdir')
  · rfl

theorem Formed.has_front (h : m.Formed) {more : List Bytes} (hne : more ≠ [])
    (hhas : m.Has (names ++ more) dir) : m.Has names true := by
  induction more using List.reverseRecOn generalizing dir with
  | nil => exact absurd rfl hne
  | append_singleton more n ih =>
    rw [← List.append_assoc] at hhas
    have hup := h.closed hhas
    by_cases hmore : more = []
    · rwa [hmore, List.append_nil] at hup
    · exact ih hmore hup

theorem Formed.has_of_front (h : m.Formed) (hd : m.Has names true) (hq : q <+: names) :
    m.Has q true := by
  obtain ⟨more, rfl⟩ := hq
  by_cases hmore : more = []
  · simpa [hmore] using hd
  · exact h.has_front hmore hd

/-- Directories are nested no deeper than there are directories. -/
theorem Formed.length_lt (h : m.Formed) (hq : m.Has q true) : q.length < m.directories.length := by
  have hshorter : ∀ i, m.Has (q.take i) true := fun i => h.has_of_front hq (List.take_prefix i q)
  have hnodup : ((List.range (q.length + 1)).map fun i => place (q.take i)).Nodup := by
    refine List.Nodup.map_on (fun i hi j hj heq => ?_) List.nodup_range
    have htake := (place_inj (hshorter i).1 (hshorter j).1).mp heq
    have hlength := congrArg List.length htake
    rw [List.length_take, List.length_take] at hlength
    have hi := List.mem_range.mp hi
    have hj := List.mem_range.mp hj
    omega
  have hsubset : ((List.range (q.length + 1)).map fun i => place (q.take i)) ⊆ m.directories := by
    intro p hp
    obtain ⟨i, -, rfl⟩ := List.mem_map.mp hp
    exact (hshorter i).2
  have hle := (List.Nodup.subperm hnodup hsubset).length_le
  rwa [List.length_map, List.length_range] at hle

/-- Names begin with others if their place is the same or inside. -/
theorem prefix_iff (hne : t ≠ []) (ht : Named t) (hq : Named q) :
    t <+: q ↔ place q = place t ∨ isInside (place t) (place q) = true := by
  rw [isInside_place hne ht hq, place_inj hq ht]
  constructor
  · rintro ⟨more, rfl⟩
    by_cases hmore : more = []
    · exact .inl (by simp [hmore])
    · exact .inr ⟨more, hmore, rfl⟩
  · rintro (rfl | ⟨more, -, rfl⟩)
    · exact List.prefix_refl _
    · exact List.prefix_append _ _

/-- Nothing is inside a file. -/
theorem Sound.eq_of_prefix_of_file (h : m.Sound) (hfile : m.Has names false) (hp : names <+: q)
    (hq : m.Has q dir) : q = names := by
  obtain ⟨more, rfl⟩ := hp
  by_contra hne
  exact h.apart hfile (h.has_front (fun hnil => hne (by simp [hnil])) hq)

theorem Has.name (h : m.Has (names ++ [n]) dir) : isEntryName n = true :=
  named_singleton_iff.mp (named_append_iff.mp h.1).2

/-- Places are in a project if it has their names. -/
theorem Formed.mem_places_iff (h : m.Formed) : p ∈ m.places dir ↔ ∃ names, p = place names ∧
    m.Has names dir := by
  constructor
  · intro hp
    obtain ⟨names, hnames, rfl⟩ := h.named hp
    exact ⟨names, rfl, hnames, hp⟩
  · rintro ⟨names, rfl, -, hp⟩
    exact hp

/-! ## Reading and listing -/

theorem atPlace_place {α : Type} (operation : Bytes) (h : Named names)
    (run : Bytes → Except Fault α) : atPlace operation (place names) run
      = (run (place names)).mapError fun fault => ⟨operation, place names, fault⟩ := by
  simp only [atPlace, locate?_place h]

theorem toBool_read_iff (h : Named names) :
    (m.read (place names)).toBool = true ↔ m.Has names false := by
  rw [read, atPlace_place _ h, Has, ← isSome_file?_iff]
  cases m.file? (place names) <;> simp [h, Except.mapError, Except.toBool]

/-- The names in a directory, as they stand in the project. -/
def listed (m : Memory) (directory : Bytes) : List Listed :=
  (m.files.filterMap fun f => if parent f.1 = directory then some ⟨Path.base f.1, false⟩ else none)
    ++ m.directories.filterMap fun d =>
      if !d.isEmpty && d != directory && parent d = directory then some ⟨Path.base d, true⟩
      else none

theorem list_place (h : Named names) : m.list (place names) = if m.hasDirectory (place names)
    then .ok (Bytes.sortOn (·.name) (m.listed (place names)))
    else .error ⟨"list", place names, .missing⟩ := by
  rw [list, atPlace_place _ h]
  split <;> rfl

theorem toBool_list_iff (h : Named names) :
    (m.list (place names)).toBool = true ↔ m.Has names true := by
  rw [list_place h, Has, ← hasDirectory_iff]
  split <;> simp_all [Except.toBool]

theorem Formed.mem_listed_iff (h : m.Formed) (htop : ¬ m.Has [] false) (hd : Named names)
    (e : Listed) : e ∈ m.listed (place names) ↔ m.Has (names ++ [e.name]) e.isDirectory := by
  have hfile : ∀ {ns}, Named ns → place ns ∈ m.places false → ns ≠ [] := by
    rintro ns hns hin rfl
    exact htop ⟨hns, hin⟩
  constructor
  · intro he
    -- a listed name comes from a file or from a directory right below
    rcases List.mem_append.mp he with he | he
    · obtain ⟨f, hf, he⟩ := List.mem_filterMap.mp he
      have hin : f.1 ∈ m.places false := List.mem_map.mpr ⟨f, hf, rfl⟩
      obtain ⟨ns, hns, hf⟩ := h.named hin
      rw [hf] at hin he
      obtain ⟨hparent, rfl⟩ := by simpa using he
      have heq := (parent_base_iff (hfile hns hin) hns hd).mp ⟨hparent, rfl⟩
      exact heq ▸ ⟨hns, hin⟩
    · obtain ⟨p, hin, he⟩ := List.mem_filterMap.mp he
      have hin : p ∈ m.places true := hin
      obtain ⟨ns, hns, rfl⟩ := h.named hin
      obtain ⟨⟨⟨hne, -⟩, hparent⟩, rfl⟩ := by simpa using he
      have hne : ns ≠ [] := fun hnil => hne (by rw [hnil, place_nil])
      have heq := (parent_base_iff hne hns hd).mp ⟨hparent, rfl⟩
      exact heq ▸ ⟨hns, hin⟩
  · obtain ⟨n, dir⟩ := e
    rintro ⟨hnamed, hin⟩
    have hparent := parent_place hnamed
    have hbase := base_place hnamed
    -- and either kind is listed by the last name of its place
    cases dir with
    | false =>
      obtain ⟨f, hf, heq⟩ := List.mem_map.mp hin
      refine List.mem_append_left _ (List.mem_filterMap.mpr ⟨f, hf, ?_⟩)
      rw [heq, if_pos hparent, hbase]
    | true =>
      refine List.mem_append_right _ (List.mem_filterMap.mpr ⟨_, hin, ?_⟩)
      have hempty := place_ne_nil (by simp) hnamed
      have hself : place (names ++ [n]) ≠ place names := by
        rw [ne_eq, place_inj hnamed hd]
        simp
      rw [if_pos (by simp [hempty, hself, hparent]), hbase]

/-- Nothing is listed twice. -/
theorem Formed.nodup_listed (h : m.Formed) (htop : ¬ m.Has [] false) (hd : Named names) :
    (m.listed (place names)).Nodup := by
  -- places in one directory that differ have different names
  have hdiffer : ∀ {dir p p'}, p ∈ m.places dir → p' ∈ m.places dir → p ≠ p' → p ≠ [] → p' ≠ [] →
      parent p = place names → parent p' = place names → Path.base p ≠ Path.base p' := by
    intro dir p p' hp hp' hne hp0 hp0' hparent hparent' hbase
    obtain ⟨ns, hns, rfl⟩ := h.named hp
    obtain ⟨ns', hns', rfl⟩ := h.named hp'
    have hempty : ns ≠ [] := fun hnil => hp0 (by rw [hnil, place_nil])
    have hempty' : ns' ≠ [] := fun hnil => hp0' (by rw [hnil, place_nil])
    have heq := (parent_base_iff hempty hns hd).mp ⟨hparent, hbase⟩
    have heq' := (parent_base_iff hempty' hns' hd).mp ⟨hparent', rfl⟩
    exact hne (congrArg place (heq.trans heq'.symm))
  have hfile : ∀ {p}, p ∈ m.places false → p ≠ [] := by
    rintro p hp rfl
    exact htop ⟨named_nil, hp⟩
  refine List.nodup_append.mpr ⟨?_, ?_, ?_⟩
  -- files among themselves, directories among themselves, and then one of each kind
  · have hfiles : m.files.Pairwise fun f f' => f.1 ≠ f'.1 :=
      List.pairwise_map.mp (h.distinct false)
    refine List.pairwise_filterMap.mpr (hfiles.imp_of_mem ?_)
    intro f f' hf hf' hne e he e' he' heq
    subst heq
    have hf : f.1 ∈ m.places false := List.mem_map.mpr ⟨f, hf, rfl⟩
    have hf' : f'.1 ∈ m.places false := List.mem_map.mpr ⟨f', hf', rfl⟩
    obtain ⟨hparent, rfl⟩ := by simpa using he
    obtain ⟨hparent', hbase⟩ := by simpa using he'
    exact hdiffer hf hf' hne (hfile hf) (hfile hf') hparent hparent' hbase.symm
  · refine List.pairwise_filterMap.mpr ((h.distinct true).imp_of_mem ?_)
    intro p p' hp hp' hne e he e' he' heq
    subst heq
    obtain ⟨⟨⟨hp0, -⟩, hparent⟩, rfl⟩ := by simpa using he
    obtain ⟨⟨⟨hp0', -⟩, hparent'⟩, hbase⟩ := by simpa using he'
    exact hdiffer hp hp' hne hp0 hp0' hparent hparent' hbase.symm
  -- the two kinds tell a file and a directory of one name apart
  · rintro e he e' he' rfl
    obtain ⟨f, -, he⟩ := List.mem_filterMap.mp he
    obtain ⟨p, -, he'⟩ := List.mem_filterMap.mp he'
    obtain ⟨-, rfl⟩ := by simpa using he
    simp at he'

/-- In a sound project a name stands for one entry. -/
theorem Sound.nodup_names_listed (h : m.Sound) (hd : Named names) :
    ((m.listed (place names)).map (·.name)).Nodup := by
  refine List.Nodup.map_on ?_ (h.nodup_listed h.top_not_file hd)
  rintro ⟨n, dir⟩ he ⟨n', dir'⟩ he' heq
  obtain rfl : n = n' := heq
  have hdir : dir = dir' := h.unique ((h.mem_listed_iff h.top_not_file hd _).mp he)
    ((h.mem_listed_iff h.top_not_file hd _).mp he')
  rw [hdir]

/-- A directory lists what the project has there, each name once and in order. -/
theorem Sound.exists_list (h : m.Sound) (hd : m.Has names true) : ∃ entries,
    m.list (place names) = .ok entries ∧ (entries.map (·.name)).Nodup ∧
      ∀ e, e ∈ entries ↔ m.Has (names ++ [e.name]) e.isDirectory := by
  refine ⟨Bytes.sortOn (·.name) (m.listed (place names)), ?_, ?_, ?_⟩
  · rw [list_place hd.1, if_pos (hasDirectory_iff.mpr hd.2)]
  · exact ((Bytes.sortOn_perm _ _).map _).nodup_iff.mpr (h.nodup_names_listed hd.1)
  · intro e
    rw [Bytes.mem_sortOn]
    exact h.mem_listed_iff h.top_not_file hd.1 e

theorem list_ok {entries : List Listed} (h : m.list p = .ok entries) :
    ∃ directory, entries = Bytes.sortOn (·.name) (m.listed directory) := by
  rw [list, atPlace] at h
  split at h
  · cases h
  · next directory hlocated =>
    refine ⟨directory, ?_⟩
    split at h
    · exact (Except.ok.inj h).symm
    · cases h

/-- What is listed is the last name of a place. -/
theorem exists_place_of_list {entries : List Listed} (h : m.list p = .ok entries) {e : Listed}
    (he : e ∈ entries) : ∃ dir, ∃ q ∈ m.places dir, e.name = Path.base q := by
  obtain ⟨directory, rfl⟩ := list_ok h
  rw [Bytes.mem_sortOn, listed, List.mem_append, List.mem_filterMap, List.mem_filterMap] at he
  rcases he with ⟨f, hf, he⟩ | ⟨q, hq, he⟩
  · refine ⟨false, f.1, List.mem_map.mpr ⟨f, hf, rfl⟩, ?_⟩
    split at he
    · exact congrArg (·.name) (Option.some.inj he).symm
    · cases he
  · refine ⟨true, q, hq, ?_⟩
    split at he
    · exact congrArg (·.name) (Option.some.inj he).symm
    · cases he

/-- Listings of a well-formed project hold no slash. -/
theorem Formed.slash_not_mem (h : m.Formed) {entries : List Listed} (hlist : m.list p = .ok entries)
    {e : Listed} (he : e ∈ entries) : ('/' : UInt8) ∉ e.name := by
  obtain ⟨dir, q, hq, hname⟩ := exists_place_of_list hlist he
  obtain ⟨names, hnames, rfl⟩ := h.named hq
  rw [hname]
  rcases List.eq_nil_or_concat names with rfl | ⟨front, n, rfl⟩
  · decide
  · rw [List.concat_eq_append] at hnames ⊢
    rw [base_place hnames]
    exact (named_append_iff.mp hnames).2.segmented n List.mem_cons_self |>.2.2.2

/-! ## Adding -/

/-- A project with one more name, if that is in a directory and new, is sound. -/
theorem Sound.add (h : m.Sound) (hdistinct : Distinct m') (hd : m.Has names true)
    (hn : isEntryName n = true) (hfree : ¬ m.Has (names ++ [n]) (!dir))
    (hmem : ∀ {dir' p}, p ∈ m'.places dir' ↔
      p ∈ m.places dir' ∨ (dir' = dir ∧ p = place (names ++ [n]))) :
    m'.Sound ∧ ∀ {q dir'}, m'.Has q dir' ↔ m.Has q dir' ∨ (dir' = dir ∧ q = names ++ [n]) := by
  have hnamed : Named (names ++ [n]) :=
    named_append_iff.mpr ⟨hd.1, named_singleton_iff.mpr hn⟩
  have hhas : ∀ {q dir'}, m'.Has q dir' ↔ m.Has q dir' ∨ (dir' = dir ∧ q = names ++ [n]) := by
    intro q dir'
    rw [Has, Has, hmem]
    constructor
    · rintro ⟨hq, hin | ⟨hdir, heq⟩⟩
      · exact .inl ⟨hq, hin⟩
      · exact .inr ⟨hdir, (place_inj hq hnamed).mp heq⟩
    · rintro (⟨hq, hin⟩ | ⟨hdir, rfl⟩)
      · exact ⟨hq, .inl hin⟩
      · exact ⟨hnamed, .inr ⟨hdir, rfl⟩⟩
  refine ⟨⟨⟨hdistinct, ?_, hhas.mpr (.inl h.top), ?_⟩, ?_⟩, hhas⟩
  · intro dir' p hp
    rcases hmem.mp hp with hp | ⟨-, rfl⟩
    · exact h.named hp
    · exact ⟨_, hnamed, rfl⟩
  · intro dir' q x hq
    rcases hhas.mp hq with hq | ⟨-, heq⟩
    · exact hhas.mpr (.inl (h.closed hq))
    · obtain ⟨rfl, -⟩ := List.append_inj' heq rfl
      exact hhas.mpr (.inl hd)
  · intro q hfile hdir
    rcases hhas.mp hfile with hfile | ⟨rfl, rfl⟩
    · rcases hhas.mp hdir with hdir | ⟨rfl, rfl⟩
      · exact h.apart hfile hdir
      · exact hfree hfile
    · rcases hhas.mp hdir with hdir | ⟨habs, -⟩
      · exact hfree hdir
      · cases habs

/-- Writing adds the file, or leaves everything where it is. -/
theorem Sound.write (h : m.Sound) (hnamed : Named (names ++ [n]))
    (hfree : ¬ m.Has (names ++ [n]) true) (hw : m.write (place (names ++ [n])) text = .ok m') :
    m'.Sound ∧ ∀ {q dir}, m'.Has q dir ↔ m.Has q dir ∨ (dir = false ∧ q = names ++ [n]) := by
  rw [Memory.write, atPlace_place _ hnamed, parent_place hnamed] at hw
  obtain ⟨hnames, hn⟩ := named_append_iff.mp hnamed
  split at hw
  · next hdir =>
    obtain rfl : m.putFile (place (names ++ [n])) text = m' := by
      simpa [Except.mapError] using hw
    exact h.add (h.distinct.putFile _ _) ⟨hnames, hasDirectory_iff.mp hdir⟩
      (named_singleton_iff.mp hn) hfree (mem_putFile m _ _)
  · simp [Except.mapError] at hw

theorem length_le_length_place (h : Named names) : names.length ≤ (place names).length := by
  induction names using List.reverseRecOn with
  | nil => exact Nat.zero_le _
  | append_singleton names n ih =>
    obtain ⟨hnames, hn⟩ := named_append_iff.mp h
    have hlength := List.length_pos_iff.mpr (isEntryName_iff.mp (named_singleton_iff.mp hn)).1
    have hih := ih hnames
    by_cases hne : names = []
    · subst hne
      exact hlength
    · rw [place_concat hne]
      simp only [List.length_append, List.length_cons, List.length_nil]
      omega

/-- The places around one are those of fewer of its names. -/
theorem mem_around_go (h : Named names) {fuel : Nat} (hfuel : names.length ≤ fuel + 1) :
    p ∈ around.go fuel (place names) ↔ ∃ q, q <+: names.dropLast ∧ p = place q := by
  have hroot : p ∈ [[]] ↔ ∃ q : List Bytes, q <+: [] ∧ p = place q := by
    simp [place_nil]
  induction names using List.reverseRecOn generalizing fuel with
  | nil =>
    cases fuel with
    | zero => exact hroot
    | succ fuel =>
      rw [around.go, place_nil, parent_nil, if_pos List.isEmpty_nil]
      exact hroot
  | append_singleton names n ih =>
    obtain ⟨hnames, -⟩ := named_append_iff.mp h
    rw [List.dropLast_concat]
    rcases List.eq_nil_or_concat names with rfl | ⟨front, last, hlast⟩
    · cases fuel with
      | zero => exact hroot
      | succ fuel =>
        rw [around.go, parent_place h, place_nil, if_pos List.isEmpty_nil]
        exact hroot
    · rw [List.concat_eq_append] at hlast
      obtain ⟨fuel, rfl⟩ : ∃ k, fuel = k + 1 := by
        refine Nat.exists_eq_add_one.mpr ?_
        simp only [hlast, List.length_append, List.length_cons, List.length_nil] at hfuel
        omega
      have hne : names ≠ [] := by simp [hlast]
      have hrest : p ∈ around.go fuel (place names) ↔ ∃ q, q <+: names.dropLast ∧ p = place q :=
        ih hnames (by simpa using hfuel)
      have hsplit : ∀ q, q <+: names ↔ q = names ∨ q <+: names.dropLast := by
        intro q
        rw [hlast, List.dropLast_concat, List.prefix_concat_iff]
      rw [around.go, parent_place h, if_neg (by simpa using place_ne_nil hne hnames), List.mem_cons,
        hrest]
      simp only [hsplit, or_and_right, exists_or, exists_eq_left]

theorem mem_around (h : Named names) :
    p ∈ around (place names) ↔ ∃ q, q <+: names.dropLast ∧ p = place q :=
  mem_around_go h (Nat.le_succ_of_le (length_le_length_place h))

theorem mem_putAround (m : Memory) (place : Bytes) :
    p ∈ (m.putAround place).places dir ↔ p ∈ m.places dir ∨ (dir = true ∧ p ∈ around place) := by
  have hfold : p ∈ (m.putAround place).places dir ↔
      p ∈ m.places dir ∨ (dir = true ∧ ∃ x ∈ around place, p = x) :=
    mem_foldl_putDirectory _ (around place) m
  simpa using hfold

theorem Distinct.putAround (h : Distinct m) (place : Bytes) : Distinct (m.putAround place) :=
  h.foldl (fun hm => hm.putDirectory _) _

/-- Making a directory adds it, if it is to be in another one. -/
theorem Sound.makeDirectory (h : m.Sound) (hd : m.Has names true) (hn : isEntryName n = true)
    (hfree : ¬ m.Has (names ++ [n]) false)
    (hmake : m.makeDirectory (place (names ++ [n])) = .ok m') :
    m'.Sound ∧ ∀ {q dir}, m'.Has q dir ↔ m.Has q dir ∨ (dir = true ∧ q = names ++ [n]) := by
  have hnamed : Named (names ++ [n]) := named_append_iff.mpr ⟨hd.1, named_singleton_iff.mpr hn⟩
  rw [Memory.makeDirectory, atPlace_place _ hnamed] at hmake
  obtain rfl := Except.ok.inj hmake
  refine h.add ((h.distinct.putDirectory _).putAround _) hd hn hfree ?_
  intro dir p
  rw [mem_putAround, mem_putDirectory, mem_around hnamed, List.dropLast_concat]
  constructor
  · rintro (hp | ⟨rfl, q, hq, rfl⟩)
    · exact hp
    · exact .inl (h.has_of_front hd hq).2
  · exact .inl

/-! ## Deleting -/

/-- A project without what begins with some names is sound. -/
theorem Sound.remove (h : m.Sound) (hne : t ≠ []) {keepFile keepDirectory : Bytes → Bool}
    (hkeep : ∀ {q dir}, m.Has q dir →
      ((if dir then keepDirectory (place q) else keepFile (place q)) = true ↔ ¬ t <+: q)) :
    (m.filtered keepFile keepDirectory).Sound ∧
      ∀ {q dir}, (m.filtered keepFile keepDirectory).Has q dir ↔ m.Has q dir ∧ ¬ t <+: q := by
  have hhas : ∀ {q dir},
      (m.filtered keepFile keepDirectory).Has q dir ↔ m.Has q dir ∧ ¬ t <+: q := by
    intro q dir
    rw [Has, mem_filtered, ← and_assoc, ← Has]
    exact and_congr_right hkeep
  refine ⟨⟨⟨h.distinct.filtered _ _, ?_, ?_, ?_⟩, ?_⟩, hhas⟩
  · intro dir p hp
    exact h.named ((mem_filtered _ _ _).mp hp).1
  · exact hhas.mpr ⟨h.top, fun hp => hne (List.prefix_nil.mp hp)⟩
  · intro dir q n hq
    obtain ⟨hq, hnot⟩ := hhas.mp hq
    exact hhas.mpr ⟨h.closed hq, fun hp => hnot (hp.trans (List.prefix_append _ _))⟩
  · intro q hfile hdir
    exact h.apart (hhas.mp hfile).1 (hhas.mp hdir).1

/-- Deleting a file drops it and nothing else. -/
theorem Sound.deleteFile (h : m.Sound) (ht : Named t) (hdelete : m.deleteFile (place t) = .ok m') :
    m'.Sound ∧ ∀ {q dir}, m'.Has q dir ↔ m.Has q dir ∧ ¬ t <+: q := by
  rw [Memory.deleteFile, atPlace_place _ ht] at hdelete
  cases hfile : m.file? (place t) with
  | none => simp [hfile, Except.mapError] at hdelete
  | some text =>
    have hin : m.Has t false := ⟨ht, isSome_file?_iff.mp (by rw [hfile]; rfl)⟩
    obtain rfl : m.filtered (· != place t) (fun _ => true) = m' := by
      simpa [hfile, Except.mapError, filtered] using hdelete
    refine h.remove ?_ ?_
    · rintro rfl
      exact h.apart hin h.top
    · intro q dir hq
      have hfront : t <+: q ↔ q = t :=
        ⟨fun hp => h.eq_of_prefix_of_file hin hp hq, fun heq => heq ▸ List.prefix_refl _⟩
      rw [hfront]
      cases dir with
      | true =>
        simp only [if_true, true_iff]
        rintro rfl
        exact h.apart hin hq
      | false => simp [place_inj hq.1 ht]

/-- Deleting a directory drops it with everything inside it. -/
theorem Sound.deleteDirectory (h : m.Sound) (ht : Named t)
    (hdelete : m.deleteDirectory (place t) = .ok m') :
    m'.Sound ∧ ∀ {q dir}, m'.Has q dir ↔ m.Has q dir ∧ ¬ t <+: q := by
  rw [Memory.deleteDirectory, atPlace_place _ ht] at hdelete
  by_cases hempty : (place t).isEmpty = true
  · simp [hempty, Except.mapError] at hdelete
  by_cases hdir : m.hasDirectory (place t) = true
  · have hin : m.Has t true := ⟨ht, hasDirectory_iff.mp hdir⟩
    have hne : t ≠ [] := by
      rintro rfl
      exact hempty rfl
    obtain rfl : m.filtered (fun p => !isInside (place t) p)
        (fun p => p != place t && !isInside (place t) p) = m' := by
      simpa [hempty, hdir, Except.mapError, filtered] using hdelete
    refine h.remove hne ?_
    intro q dir hq
    rw [prefix_iff hne ht hq.1]
    cases dir with
    | true => simp
    | false =>
      have hother : place q ≠ place t := by
        rw [ne_eq, place_inj hq.1 ht]
        rintro rfl
        exact h.apart hq hin
      simp [hother]
  · simp [hempty, hdir, Except.mapError] at hdelete

/-! ## Renaming -/

/-- Names that a project has are told apart after a move, if nothing was in its way. -/
theorem Sound.moved_inj (h : m.Sound) {source target q q' : List Bytes} {dir dir' : Bool}
    (hfree : target = source ∨ ∀ dir, ¬ m.Has target dir) (hq : m.Has q dir) (hq' : m.Has q' dir')
    (heq : moved source target q = moved source target q') : q = q' := by
  rcases hfree with rfl | hfree
  · rwa [moved_self, moved_self] at heq
  have hinside : ∀ {more dir}, ¬ m.Has (target ++ more) dir := by
    intro more dir hin
    by_cases hmore : more = []
    · exact hfree dir (by simpa [hmore] using hin)
    · exact hfree true (h.has_front hmore hin)
  by_cases hp : source <+: q <;> by_cases hp' : source <+: q'
  · obtain ⟨more, rfl⟩ := hp
    obtain ⟨more', rfl⟩ := hp'
    rw [moved_append, moved_append, List.append_cancel_left_eq] at heq
    rw [heq]
  · obtain ⟨more, rfl⟩ := hp
    rw [moved_append, moved_of_not_front hp'] at heq
    exact absurd (heq ▸ hq') hinside
  · obtain ⟨more', rfl⟩ := hp'
    rw [moved_append, moved_of_not_front hp] at heq
    exact absurd (heq ▸ hq) hinside
  · rwa [moved_of_not_front hp, moved_of_not_front hp'] at heq

/-- A project whose entries moved to another name of their directory is well-formed. -/
theorem Formed.move (h : m.Formed) (hdistinct : Distinct m') (hsource : m.Has (d ++ [n]) dir)
    (hn' : isEntryName n' = true)
    (hmem : ∀ {dir p}, p ∈ m'.places dir ↔
      ∃ q, m.Has q dir ∧ p = place (moved (d ++ [n]) (d ++ [n']) q)) :
    m'.Formed ∧
      ∀ {q dir}, m'.Has q dir ↔ ∃ q', m.Has q' dir ∧ moved (d ++ [n]) (d ++ [n']) q' = q := by
  have hd : m.Has d true := h.closed hsource
  have htarget : Named (d ++ [n']) := named_append_iff.mpr ⟨hd.1, named_singleton_iff.mpr hn'⟩
  have hhas : ∀ {q dir}, m'.Has q dir ↔
      ∃ q', m.Has q' dir ∧ moved (d ++ [n]) (d ++ [n']) q' = q := by
    intro q dir
    rw [Has, hmem]
    constructor
    · rintro ⟨hq, q', hq', heq⟩
      exact ⟨q', hq', ((place_inj hq (named_moved htarget hq'.1)).mp heq).symm⟩
    · rintro ⟨q', hq', rfl⟩
      exact ⟨named_moved htarget hq'.1, q', hq', rfl⟩
  -- a place is not moved by its own directory
  have hshort : ∀ {x}, ¬ d ++ [x] <+: d := by
    intro x hp
    have hlength := hp.length_le
    rw [List.length_append, List.length_singleton] at hlength
    omega
  refine ⟨⟨hdistinct, ?_, ?_, ?_⟩, hhas⟩
  · intro dir p hp
    obtain ⟨q, hq, rfl⟩ := hmem.mp hp
    exact ⟨_, named_moved htarget hq.1, rfl⟩
  · exact hhas.mpr ⟨[], h.top, moved_of_not_front (by simp)⟩
  · intro dir q x hq
    obtain ⟨q', hq', heq⟩ := hhas.mp hq
    -- what is inside the moved place has its directory there, too, unless it is that place itself
    by_cases hp : d ++ [n] <+: q'
    · obtain ⟨more, rfl⟩ := hp
      rw [moved_append] at heq
      rcases List.eq_nil_or_concat more with rfl | ⟨front, last, rfl⟩
      · rw [List.append_nil] at heq
        obtain ⟨rfl, -⟩ := List.append_inj' heq rfl
        exact hhas.mpr ⟨d, hd, moved_of_not_front hshort⟩
      · rw [List.concat_eq_append, ← List.append_assoc] at heq hq'
        obtain ⟨rfl, -⟩ := List.append_inj' heq rfl
        exact hhas.mpr ⟨_, h.closed hq', moved_append _ _ _⟩
    · rw [moved_of_not_front hp] at heq
      subst heq
      exact hhas.mpr ⟨q, h.closed hq', moved_of_not_front fun hq =>
        hp (hq.trans (List.prefix_append _ _))⟩

/-- A project whose entries moved to a free name of their directory is sound. -/
theorem Sound.move (h : m.Sound) (hdistinct : Distinct m') (hsource : m.Has (d ++ [n]) dir)
    (hn' : isEntryName n' = true) (hfree : n' = n ∨ ∀ dir, ¬ m.Has (d ++ [n']) dir)
    (hmem : ∀ {dir p}, p ∈ m'.places dir ↔
      ∃ q, m.Has q dir ∧ p = place (moved (d ++ [n]) (d ++ [n']) q)) :
    m'.Sound ∧
      ∀ {q dir}, m'.Has q dir ↔ ∃ q', m.Has q' dir ∧ moved (d ++ [n]) (d ++ [n']) q' = q := by
  have hfree : d ++ [n'] = d ++ [n] ∨ ∀ dir, ¬ m.Has (d ++ [n']) dir :=
    hfree.imp_left fun heq => by rw [heq]
  obtain ⟨hformed, hhas⟩ := h.toFormed.move hdistinct hsource hn' hmem
  refine ⟨⟨hformed, ?_⟩, hhas⟩
  intro q hfile hdir
  obtain ⟨q', hq', heq⟩ := hhas.mp hfile
  obtain ⟨q'', hq'', heq'⟩ := hhas.mp hdir
  obtain rfl := h.moved_inj hfree hq' hq'' (heq.trans heq'.symm)
  exact h.apart hq' hq''

/-- After a move a directory has what it had, the moved entry under its new name. -/
theorem Sound.has_moved_iff (h : m.Sound) (hfree : n' = n ∨ ∀ dir, ¬ m.Has (d ++ [n']) dir)
    (hq : m.Has q true) {x : Bytes} :
    (∃ q', m.Has q' dir ∧ moved (d ++ [n]) (d ++ [n']) q' = moved (d ++ [n]) (d ++ [n']) q ++ [x]) ↔
      (q = d ∧ x = n' ∧ m.Has (d ++ [n]) dir) ∨ (m.Has (q ++ [x]) dir ∧ q ++ [x] ≠ d ++ [n]) := by
  have hself : moved (d ++ [n]) (d ++ [n']) (d ++ [n]) = d ++ [n'] := by
    simpa using moved_append (d ++ [n]) (d ++ [n']) []
  have hshort : ¬ d ++ [n] <+: d := by
    intro hp
    have hlength := hp.length_le
    rw [List.length_append, List.length_singleton] at hlength
    omega
  constructor
  · rintro ⟨q', hq', heq⟩
    -- the entry is the moved one itself, or another whose directory moved along
    by_cases hmoved : q' = d ++ [n]
    · subst hmoved
      rw [hself] at heq
      obtain ⟨hdir, hx⟩ := List.append_inj' heq rfl
      refine .inl ⟨?_, (List.cons.inj hx).1.symm, hq'⟩
      by_cases hp : d ++ [n] <+: q
      · obtain ⟨more, rfl⟩ := hp
        have hlength := congrArg List.length hdir
        rw [moved_append] at hlength
        simp only [List.length_append, List.length_singleton] at hlength
        omega
      · rw [moved_of_not_front hp] at hdir
        exact hdir.symm
    · rcases List.eq_nil_or_concat q' with rfl | ⟨front, last, rfl⟩
      · rw [moved_of_not_front (by simp)] at heq
        simp at heq
      · rw [List.concat_eq_append] at hq' hmoved heq
        rw [moved_concat (Ne.symm hmoved)] at heq
        obtain ⟨hfront, hlast⟩ := List.append_inj' heq rfl
        have hfree : d ++ [n'] = d ++ [n] ∨ ∀ dir, ¬ m.Has (d ++ [n']) dir :=
          hfree.imp_left fun heq => by rw [heq]
        obtain rfl := h.moved_inj hfree (h.closed hq') hq hfront
        obtain rfl : last = x := (List.cons.inj hlast).1
        exact .inr ⟨hq', hmoved⟩
  · rintro (⟨rfl, rfl, hsource⟩ | ⟨hhas, hne⟩)
    · exact ⟨_, hsource, by rw [hself, moved_of_not_front hshort]⟩
    · exact ⟨_, hhas, moved_concat (Ne.symm hne)⟩

/-- Whether an entry goes with a directory that is moved. -/
def goesWith (source : Bytes) (isDirectory : Bool) (p : Bytes) : Bool :=
  (isDirectory && decide (p = source)) || isInside source p

theorem mem_moveDirectory (m : Memory) (source target : Bytes) :
    p ∈ (m.moveDirectory source target).places dir ↔
      (p ∈ m.places dir ∧ goesWith source dir p = false) ∨
      ∃ p' ∈ m.places dir, goesWith source dir p' = true ∧ p = target ++ p'.drop source.length := by
  have hkept : p ∈ places ⟨m.files.filter fun f => !isInside source f.1,
      m.directories.filter fun d => !(d = source || isInside source d)⟩ dir ↔
      p ∈ m.places dir ∧ goesWith source dir p = false := by
    refine (mem_filtered m (fun p => !isInside source p)
      (fun p => !(p = source || isInside source p))).trans (and_congr_right fun _ => ?_)
    cases dir <;> simp [goesWith]
  rw [← hkept, moveDirectory, List.partition_eq_filter_filter, List.partition_eq_filter_filter]
  simp only [mem_foldl_putDirectory, mem_foldl_putFile]
  rw [or_assoc]
  refine or_congr Iff.rfl ?_
  cases dir <;> simp [places, goesWith, and_assoc]

/-- A directory is moved with everything whose names begin with its own, if these are no file's. -/
theorem Formed.mem_moveDirectory_iff (h : m.Formed) {source target : List Bytes} (hne : source ≠ [])
    (hsource : m.Has source true) (hfile : ¬ m.Has source false) (htarget : target ≠ []) :
    p ∈ (m.moveDirectory (place source) (place target)).places dir ↔
      ∃ q, m.Has q dir ∧ p = place (moved source target q) := by
  have hgoes : ∀ {q dir}, m.Has q dir → (goesWith (place source) dir (place q) = true ↔
      source <+: q) := by
    intro q dir hq
    rw [prefix_iff hne hsource.1 hq.1]
    cases dir with
    | true => simp [goesWith]
    | false =>
      have hother : place q ≠ place source := by
        rw [ne_eq, place_inj hq.1 hsource.1]
        rintro rfl
        exact hfile hq
      simp [goesWith, hother]
  have hplace : ∀ {q}, source <+: q →
      place target ++ (place q).drop (place source).length = place (moved source target q) := by
    rintro q ⟨more, rfl⟩
    rw [moved_append]
    exact move_place hne htarget more
  rw [mem_moveDirectory]
  constructor
  · rintro (⟨hp, hstay⟩ | ⟨p', hp', hgo, rfl⟩)
    · obtain ⟨q, rfl, hq⟩ := h.mem_places_iff.mp hp
      have hnot : ¬ source <+: q := fun hp => by simp [(hgoes hq).mpr hp] at hstay
      exact ⟨q, hq, by rw [moved_of_not_front hnot]⟩
    · obtain ⟨q, rfl, hq⟩ := h.mem_places_iff.mp hp'
      exact ⟨q, hq, hplace ((hgoes hq).mp hgo)⟩
  · rintro ⟨q, hq, rfl⟩
    by_cases hp : source <+: q
    · exact .inr ⟨place q, hq.2, (hgoes hq).mpr hp, (hplace hp).symm⟩
    · rw [moved_of_not_front hp]
      exact .inl ⟨hq.2, Bool.eq_false_iff.mpr fun hgo => hp ((hgoes hq).mp hgo)⟩

theorem Distinct.moveDirectory (h : Distinct m) (source target : Bytes) :
    Distinct (m.moveDirectory source target) := by
  rw [Memory.moveDirectory, List.partition_eq_filter_filter, List.partition_eq_filter_filter]
  refine Distinct.foldl (fun hm => hm.putDirectory _) _
    (Distinct.foldl (fun hm => hm.putFile _ _) _ ?_)
  exact h.filtered (fun p => !isInside source p) (fun p => !(p = source || isInside source p))

/-- A file that is moved leaves everything else where it is. -/
theorem Sound.mem_moveFile_iff (h : m.Sound) {source target : List Bytes}
    (hsource : m.Has source false) (text : Bytes) :
    p ∈ ((m.filtered (· != place source) (fun _ => true)).putFile (place target) text).places dir ↔
      ∃ q, m.Has q dir ∧ p = place (moved source target q) := by
  have hself : moved source target source = target := by
    simpa using moved_append source target []
  -- nothing is inside a file, so only the file itself moves
  have hfront : ∀ {q dir}, m.Has q dir → (source <+: q ↔ q = source ∧ dir = false) := by
    intro q dir hq
    constructor
    · intro hp
      obtain rfl := h.eq_of_prefix_of_file hsource hp hq
      refine ⟨rfl, ?_⟩
      cases dir with
      | false => rfl
      | true => exact absurd hq (h.apart hsource)
    · rintro ⟨rfl, -⟩
      exact List.prefix_refl _
  rw [mem_putFile, mem_filtered]
  constructor
  · rintro (⟨hp, hkeep⟩ | ⟨rfl, rfl⟩)
    · obtain ⟨q, rfl, hq⟩ := h.mem_places_iff.mp hp
      refine ⟨q, hq, ?_⟩
      rw [moved_of_not_front]
      intro hp
      obtain ⟨rfl, rfl⟩ := (hfront hq).mp hp
      simp at hkeep
    · exact ⟨source, hsource, by rw [hself]⟩
  · rintro ⟨q, hq, rfl⟩
    by_cases hp : source <+: q
    · obtain ⟨rfl, rfl⟩ := (hfront hq).mp hp
      exact .inr ⟨rfl, by rw [hself]⟩
    · rw [moved_of_not_front hp]
      refine .inl ⟨hq.2, ?_⟩
      cases dir with
      | true => rfl
      | false =>
        have hne : q ≠ source := fun heq => hp ((hfront hq).mpr ⟨heq, rfl⟩)
        simpa [place_inj hq.1 hsource.1] using hne

theorem isEntryName_of_rename {r : (Bytes × Bool) × Memory} (hrename : m.rename p n' = .ok r) :
    isEntryName n' = true := by
  rw [Memory.rename] at hrename
  split at hrename
  · simp at hrename
  · next hname => simpa using hname

/-- Renaming changes the names of an entry, and of everything inside it, to a free name. -/
theorem Sound.rename (h : m.Sound) (hs : Named (d ++ [n])) {r : Bytes × Bool}
    (hrename : m.rename (place (d ++ [n])) n' = .ok (r, m'))
    (hfree : n' = n ∨ ∀ dir, ¬ m.Has (d ++ [n']) dir) : m'.Sound ∧
      ∀ {q dir}, m'.Has q dir ↔ ∃ q', m.Has q' dir ∧ moved (d ++ [n]) (d ++ [n']) q' = q := by
  have hn' := isEntryName_of_rename hrename
  rw [Memory.rename] at hrename
  split at hrename
  · simp at hrename
  · rw [atPlace_place _ hs, parent_place hs, child_place (named_append_iff.mp hs).1] at hrename
    cases hfile : m.file? (place (d ++ [n])) with
    | some text =>
      have hin : m.Has (d ++ [n]) false := ⟨hs, isSome_file?_iff.mp (by rw [hfile]; rfl)⟩
      obtain ⟨-, rfl⟩ : _ ∧
          (m.filtered (· != place (d ++ [n])) (fun _ => true)).putFile (place (d ++ [n'])) text
            = m' := by
        simpa [hfile, Except.mapError, filtered] using hrename
      exact h.move ((h.distinct.filtered _ _).putFile _ _) hin hn' hfree
        (h.mem_moveFile_iff hin text)
    | none =>
      simp only [hfile] at hrename
      split at hrename
      · next hdir =>
        have hin : m.Has (d ++ [n]) true :=
          ⟨hs, hasDirectory_iff.mp (Bool.and_eq_true_iff.mp hdir).1⟩
        obtain ⟨-, rfl⟩ : _ ∧ m.moveDirectory (place (d ++ [n])) (place (d ++ [n'])) = m' := by
          simpa [Except.mapError] using hrename
        exact h.move (h.distinct.moveDirectory _ _) hin hn' hfree
          (h.mem_moveDirectory_iff (by simp) hin (fun hfile => h.apart hfile hin) (by simp))
      · simp [Except.mapError] at hrename

/-! ## Projects made of files -/

theorem formed_empty : Formed {} := by
  refine ⟨?_, ?_, ?_, ?_⟩
  · intro dir
    cases dir <;> simp [places]
  · intro dir p hp
    refine ⟨[], named_nil, ?_⟩
    cases dir <;> simp_all [places, place_nil]
  · exact ⟨named_nil, List.mem_singleton.mpr rfl⟩
  · rintro dir names n ⟨hnamed, hin⟩
    have hne := place_ne_nil (by simp) hnamed
    cases dir <;> simp_all [places]

/-- A project with more is well-formed if what was added has names and is in a directory. -/
theorem Formed.extend (h : m.Formed) (hdistinct : Distinct m')
    (hold : ∀ {dir p}, p ∈ m.places dir → p ∈ m'.places dir)
    (hnew : ∀ {dir p}, p ∈ m'.places dir → p ∈ m.places dir ∨ ∃ names, Named names ∧
      p = place names ∧ ∀ front n, names = front ++ [n] → place front ∈ m'.places true) :
    m'.Formed := by
  refine ⟨hdistinct, ?_, ⟨named_nil, hold h.top.2⟩, ?_⟩
  · intro dir p hp
    rcases hnew hp with hp | ⟨names, hnames, rfl, -⟩
    · exact h.named hp
    · exact ⟨names, hnames, rfl⟩
  · rintro dir names n ⟨hnamed, hin⟩
    refine ⟨(named_append_iff.mp hnamed).1, ?_⟩
    rcases hnew hin with hin | ⟨names', hnames', heq, hfront⟩
    · exact hold (h.closed ⟨hnamed, hin⟩).2
    · exact hfront names n ((place_inj hnamed hnames').mp heq).symm

/-- A project with one more file, and the directories around it, is well-formed. -/
theorem Formed.put (h : m.Formed) (ht : Named t) (text : Bytes) :
    Formed ((m.putFile (place t) text).putAround (place t)) := by
  have hmem : ∀ {dir p}, p ∈ ((m.putFile (place t) text).putAround (place t)).places dir ↔
      p ∈ m.places dir ∨ (dir = false ∧ p = place t) ∨
        (dir = true ∧ ∃ q, q <+: t.dropLast ∧ p = place q) := by
    intro dir p
    rw [mem_putAround, mem_putFile, mem_around ht, or_assoc]
  refine h.extend ((h.distinct.putFile _ _).putAround _) (fun hp => hmem.mpr (.inl hp)) ?_
  intro dir p hp
  rcases hmem.mp hp with hp | ⟨-, rfl⟩ | ⟨-, q, hq, rfl⟩
  · exact .inl hp
  · refine .inr ⟨t, ht, rfl, fun front n heq => hmem.mpr (.inr (.inr ⟨rfl, front, ?_, rfl⟩))⟩
    have hfront : t.dropLast = front := by rw [heq, List.dropLast_concat]
    exact hfront ▸ List.prefix_refl _
  · refine .inr ⟨q, ht.of_front (hq.trans (List.dropLast_prefix _)), rfl, fun front n heq =>
      hmem.mpr (.inr (.inr ⟨rfl, front, ?_, rfl⟩))⟩
    exact (heq ▸ List.prefix_append front [n]).trans hq

/-- Putting files one after the other keeps a memory well-formed. -/
theorem Formed.putFiles {m : Memory} (hm : m.Formed) (files : List (Bytes × Bytes)) :
    (files.foldl (fun m f =>
      match locate? f.1 with
      | some place => (m.putFile place f.2).putAround place
      | none => m) m).Formed := by
  induction files generalizing m with
  | nil => exact hm
  | cons f files ih =>
    rw [List.foldl_cons]
    apply ih
    split
    · next p hp =>
      obtain ⟨names, hnames, rfl⟩ := exists_place_of_locate? hp
      exact hm.put hnames f.2
    · exact hm

theorem formed_ofFiles (files : List (Bytes × Bytes)) : (ofFiles files).Formed :=
  formed_empty.putFiles files

/-- A project made of files is sound, unless one of them is to be a directory too. -/
theorem sound_ofFiles {files : List (Bytes × Bytes)}
    (h : ∀ p ∈ (ofFiles files).places false, p ∉ (ofFiles files).places true) :
    (ofFiles files).Sound :=
  ⟨formed_ofFiles files, fun hfile hdir => h _ hfile.2 hdir.2⟩

end Storyline.Storage.Memory
