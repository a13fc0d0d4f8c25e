import Storyline.Proofs.Storage.Entries

/-!
# Nothing is out of reach

Whatever is done to a project in memory, each of its entries stays in a directory, and its root a
directory and no file (`Rooted`).  Every change keeps this: what is added is in a directory that is
there or is added too, and what is taken away goes with all that is inside it.

So whoever lists the root, and then every directory that a listing tells of (`reached`), comes to
all that is there, and to nothing twice.
-/

namespace Storyline.Storage

/-- What is done to a project. -/
inductive Change where
  | write (path text : Bytes)
  | rename (path name : Bytes)
  | deleteFile (path : Bytes)
  | deleteDirectory (path : Bytes)
  | makeDirectory (path : Bytes)
deriving DecidableEq, Repr

namespace Change

/-- What becomes of a project in memory by a change, unless that fails. -/
def run (m : Memory) : Change → Except Error Memory
  | write path text => m.write path text
  | rename path name => (m.rename path name).map fun r => r.2
  | deleteFile path => m.deleteFile path
  | deleteDirectory path => m.deleteDirectory path
  | makeDirectory path => m.makeDirectory path

/-- A project in memory after a change; one that fails leaves it as it is. -/
def apply (m : Memory) (c : Change) : Memory :=
  match c.run m with
  | .ok m' => m'
  | .error _ => m

/-- The change does not write a file in the place of the root. -/
def SparesRoot : Change → Prop
  | write path _ => locate? path ≠ some []
  | _ => True

instance : (c : Change) → Decidable c.SparesRoot
  | write path _ => inferInstanceAs (Decidable (locate? path ≠ some []))
  | rename _ _ | deleteFile _ | deleteDirectory _ | makeDirectory _ => isTrue trivial

end Change

namespace Memory

variable {m m' : Memory} {names t d : List Bytes} {n name p text : Bytes} {dir : Bool} {fuel : Nat}

/-- A well-formed project whose root is no file. -/
structure Rooted (m : Memory) : Prop extends Formed m where
  top_not_file : ¬ m.Has [] false

/-! ## Changes -/

/-- Filtering keeps a project rooted, if it keeps the directories of what it keeps. -/
theorem Rooted.filtered (h : m.Rooted) {keepFile keepDirectory : Bytes → Bool}
    (htop : keepDirectory [] = true)
    (hkeep : ∀ {dir names n}, m.Has (names ++ [n]) dir →
      (if dir then keepDirectory (place (names ++ [n])) else keepFile (place (names ++ [n]))) = true →
      keepDirectory (place names) = true) :
    (m.filtered keepFile keepDirectory).Rooted := by
  refine ⟨⟨h.distinct.filtered _ _, ?_, ⟨named_nil, (mem_filtered _ _ _).mpr ⟨h.top.2, htop⟩⟩, ?_⟩,
    ?_⟩
  · intro dir p hp
    exact h.named ((mem_filtered _ _ _).mp hp).1
  · rintro dir names n ⟨hnamed, hin⟩
    obtain ⟨hin, hkept⟩ := (mem_filtered _ _ _).mp hin
    have hup := h.closed ⟨hnamed, hin⟩
    exact ⟨hup.1, (mem_filtered _ _ _).mpr ⟨hup.2, hkeep ⟨hnamed, hin⟩ hkept⟩⟩
  · rintro ⟨-, hin⟩
    exact h.top_not_file ⟨named_nil, ((mem_filtered _ _ _).mp hin).1⟩

/-- Adding keeps a project rooted, if what is added is in a directory and no file at the root. -/
theorem Rooted.extend (h : m.Rooted) (hdistinct : Distinct m')
    (hold : ∀ {dir p}, p ∈ m.places dir → p ∈ m'.places dir)
    (hnew : ∀ {dir p}, p ∈ m'.places dir → p ∈ m.places dir ∨ ∃ names, Named names ∧
      p = place names ∧ (dir = false → names ≠ []) ∧
        ∀ front n, names = front ++ [n] → place front ∈ m'.places true) :
    m'.Rooted := by
  refine ⟨h.toFormed.extend hdistinct hold fun hp => (hnew hp).imp_right ?_, ?_⟩
  · rintro ⟨names, hnames, hp, -, hfront⟩
    exact ⟨names, hnames, hp, hfront⟩
  · rintro ⟨-, hin⟩
    rcases hnew hin with hin | ⟨names, hnames, hp, hne, -⟩
    · exact h.top_not_file ⟨named_nil, hin⟩
    · exact hne rfl ((place_eq_nil_iff hnames).mp hp.symm)

/-- A file can be put into any directory that is there. -/
theorem Rooted.putFile (h : m.Rooted) (hd : m.Has names true) (hn : isEntryName n = true)
    (text : Bytes) : (m.putFile (place (names ++ [n])) text).Rooted := by
  have hnamed : Named (names ++ [n]) := named_append_iff.mpr ⟨hd.1, named_singleton_iff.mpr hn⟩
  refine h.extend (h.distinct.putFile _ _) (fun hp => (mem_putFile _ _ _).mpr (.inl hp)) ?_
  intro dir p hp
  rcases (mem_putFile _ _ _).mp hp with hp | ⟨-, rfl⟩
  · exact .inl hp
  · refine .inr ⟨_, hnamed, rfl, fun _ => by simp, fun front last heq => ?_⟩
    obtain ⟨rfl, -⟩ := List.append_inj' heq rfl
    exact (mem_putFile _ _ _).mpr (.inl hd.2)

theorem Rooted.write (h : m.Rooted) {path : Bytes} (hpath : locate? path ≠ some [])
    (hw : m.write path text = .ok m') : m'.Rooted := by
  rw [Memory.write, atPlace] at hw
  cases hlocated : locate? path with
  | none => simp [hlocated] at hw
  | some p =>
    obtain ⟨names, hnames, rfl⟩ := exists_place_of_locate? hlocated
    rcases List.eq_nil_or_concat names with rfl | ⟨front, n, rfl⟩
    · exact absurd hlocated hpath
    · rw [List.concat_eq_append] at hnames hlocated
      obtain ⟨hfront, hn⟩ := named_append_iff.mp hnames
      simp only [hlocated, parent_place hnames] at hw
      split at hw
      · next hdir =>
        obtain rfl := Except.ok.inj hw
        exact h.putFile ⟨hfront, hasDirectory_iff.mp hdir⟩ (named_singleton_iff.mp hn) text
      · cases hw

theorem Rooted.dropFile (h : m.Rooted) (p : Bytes) :
    (m.filtered (· != p) fun _ => true).Rooted :=
  h.filtered rfl fun _ _ => rfl

theorem Rooted.deleteFile (h : m.Rooted) (hdelete : m.deleteFile p = .ok m') : m'.Rooted := by
  rw [Memory.deleteFile, atPlace] at hdelete
  split at hdelete
  · cases hdelete
  · next q hlocated =>
    cases hfile : m.file? q with
    | none => simp [hfile, Except.mapError] at hdelete
    | some text =>
      obtain rfl : m.filtered (· != q) (fun _ => true) = m' := by
        simpa [hfile, Except.mapError, Memory.filtered] using hdelete
      exact h.dropFile q

/-- Dropping what is inside a directory, and the directory itself, leaves nothing in it behind. -/
theorem Rooted.dropInside (h : m.Rooted) (ht : Named t) (hne : t ≠ []) :
    (m.filtered (fun p => !isInside (place t) p)
      fun p => p != place t && !isInside (place t) p).Rooted := by
  have hstays : ∀ {q}, Named q →
      ((place q != place t && !isInside (place t) (place q)) = true ↔ ¬ t <+: q) := by
    intro q hq
    rw [prefix_iff hne ht hq]
    simp
  refine h.filtered ?_ ?_
  · exact (hstays named_nil).mpr fun hp => hne (List.prefix_nil.mp hp)
  · intro dir names n hhas hkept
    obtain ⟨hnames, -⟩ := named_append_iff.mp hhas.1
    refine (hstays hnames).mpr fun hp => ?_
    obtain ⟨more, rfl⟩ := hp
    rw [List.append_assoc] at hhas hkept
    have hinside : isInside (place t) (place (t ++ (more ++ [n]))) = true :=
      (isInside_place hne ht hhas.1).mpr ⟨more ++ [n], by simp, rfl⟩
    cases dir <;> simp [hinside] at hkept

theorem Rooted.deleteDirectory (h : m.Rooted) (hdelete : m.deleteDirectory p = .ok m') :
    m'.Rooted := by
  rw [Memory.deleteDirectory, atPlace] at hdelete
  split at hdelete
  · cases hdelete
  · next q hlocated =>
    obtain ⟨names, hnames, rfl⟩ := exists_place_of_locate? hlocated
    by_cases hempty : (place names).isEmpty = true
    · simp [hempty, Except.mapError] at hdelete
    · have hne : names ≠ [] := by
        rintro rfl
        exact hempty rfl
      simp only [hempty, Bool.false_eq_true, if_false] at hdelete
      split at hdelete
      · obtain rfl := Except.ok.inj hdelete
        exact h.dropInside hnames hne
      · cases hdelete

theorem Rooted.makeDirectory (h : m.Rooted) (hmake : m.makeDirectory p = .ok m') : m'.Rooted := by
  rw [Memory.makeDirectory, atPlace] at hmake
  split at hmake
  · cases hmake
  · next q hlocated =>
    obtain ⟨names, hnames, rfl⟩ := exists_place_of_locate? hlocated
    obtain rfl := Except.ok.inj hmake
    have hmem : ∀ {dir p}, p ∈ ((m.putDirectory (place names)).putAround (place names)).places dir ↔
        p ∈ m.places dir ∨ (dir = true ∧ ∃ q, q <+: names ∧ p = place q) := by
      intro dir p
      have hfront : ∀ q, q <+: names ↔ q = names ∨ q <+: names.dropLast := by
        intro q
        rcases List.eq_nil_or_concat names with rfl | ⟨front, n, rfl⟩
        · simp
        · rw [List.concat_eq_append, List.dropLast_concat, List.prefix_concat_iff]
      rw [mem_putAround, mem_putDirectory, mem_around hnames, or_assoc, ← and_or_left]
      simp only [hfront, or_and_right, exists_or, exists_eq_left]
    refine h.extend ((h.distinct.putDirectory _).putAround _) (fun hp => hmem.mpr (.inl hp)) ?_
    intro dir p hp
    rcases hmem.mp hp with hp | ⟨rfl, q, hq, rfl⟩
    · exact .inl hp
    · refine .inr ⟨q, hnames.of_front hq, rfl, fun hfile => Bool.noConfusion hfile,
        fun front n heq => ?_⟩
      exact hmem.mpr (.inr ⟨rfl, front, (heq ▸ List.prefix_append front [n]).trans hq, rfl⟩)

/-- A directory can be moved to any other name, also to one where there is something. -/
theorem Rooted.moveDirectory (h : m.Rooted) (hsource : m.Has (d ++ [n]) true)
    (hfile : ¬ m.Has (d ++ [n]) false) (hname : isEntryName name = true) :
    (m.moveDirectory (place (d ++ [n])) (place (d ++ [name]))).Rooted := by
  obtain ⟨hformed, hhas⟩ := h.toFormed.move (h.distinct.moveDirectory _ _) hsource hname
    (h.toFormed.mem_moveDirectory_iff (by simp) hsource hfile (by simp))
  refine ⟨hformed, fun htop => ?_⟩
  obtain ⟨q, hq, heq⟩ := hhas.mp htop
  by_cases hp : d ++ [n] <+: q
  · obtain ⟨more, rfl⟩ := hp
    rw [moved_append] at heq
    simp at heq
  · rw [moved_of_not_front hp] at heq
    exact h.top_not_file (heq ▸ hq)

theorem Rooted.rename (h : m.Rooted) {r : Bytes × Bool} (hrename : m.rename p name = .ok (r, m')) :
    m'.Rooted := by
  have hname := isEntryName_of_rename hrename
  rw [Memory.rename, if_neg (by simp [hname]), atPlace] at hrename
  cases hlocated : locate? p with
  | none => simp [hlocated] at hrename
  | some q =>
    obtain ⟨names, hnames, rfl⟩ := exists_place_of_locate? hlocated
    simp only [hlocated] at hrename
    -- a file moves alone, a directory with what is inside it
    cases hfile : m.file? (place names) with
    | some text =>
      have hin : m.Has names false := ⟨hnames, isSome_file?_iff.mp (by rw [hfile]; rfl)⟩
      obtain ⟨d, n, rfl⟩ := (List.eq_nil_or_concat names).resolve_left
        fun hnil => h.top_not_file (hnil ▸ hin)
      rw [List.concat_eq_append] at hnames hin hfile hrename
      have hd := h.closed hin
      simp only [hfile, parent_place hnames, child_place hd.1] at hrename
      obtain rfl := (Prod.mk.inj (Except.ok.inj hrename)).2
      rw [← List.filter_true m.directories]
      exact (h.dropFile (place (d ++ [n]))).putFile
        ⟨hd.1, (mem_filtered _ _ _).mpr ⟨hd.2, rfl⟩⟩ hname text
    | none =>
      have hnot : ¬ m.Has names false := fun hin => by
        simpa [hfile] using isSome_file?_iff.mpr hin.2
      simp only [hfile] at hrename
      split at hrename
      · next hdir =>
        obtain ⟨hdir, hempty⟩ := Bool.and_eq_true_iff.mp hdir
        have hin : m.Has names true := ⟨hnames, hasDirectory_iff.mp hdir⟩
        obtain ⟨d, n, rfl⟩ := (List.eq_nil_or_concat names).resolve_left (by
          rintro rfl
          simp [place_nil] at hempty)
        rw [List.concat_eq_append] at hnames hin hnot hrename
        rw [parent_place hnames, child_place (h.closed hin).1] at hrename
        obtain rfl := (Prod.mk.inj (Except.ok.inj hrename)).2
        exact h.moveDirectory hin hnot hname
      · cases hrename

theorem Rooted.run (h : m.Rooted) {c : Change} (hc : c.SparesRoot) (hrun : c.run m = .ok m') :
    m'.Rooted := by
  cases c with
  | write path text => exact h.write hc hrun
  | rename path name =>
    cases hrename : m.rename path name with
    | error e => simp [Change.run, hrename, Except.map] at hrun
    | ok r =>
      obtain rfl : r.2 = m' := by simpa [Change.run, hrename, Except.map] using hrun
      exact h.rename hrename
  | deleteFile path => exact h.deleteFile hrun
  | deleteDirectory path => exact h.deleteDirectory hrun
  | makeDirectory path => exact h.makeDirectory hrun

theorem Rooted.apply (h : m.Rooted) {c : Change} (hc : c.SparesRoot) : (c.apply m).Rooted := by
  rw [Change.apply]
  split
  · next m' hrun => exact h.run hc hrun
  · exact h

theorem Rooted.applyAll (h : m.Rooted) {changes : List Change} (hc : ∀ c ∈ changes, c.SparesRoot) :
    (changes.foldl Change.apply m).Rooted := by
  induction changes generalizing m with
  | nil => exact h
  | cons c changes ih =>
    exact ih (h.apply (hc c List.mem_cons_self)) fun c' hc' => hc c' (List.mem_cons_of_mem _ hc')

theorem rooted_empty : Rooted {} := by
  refine ⟨formed_empty, ?_⟩
  rintro ⟨-, hin⟩
  cases hin

/-- Putting files one after the other, none of them at the root, keeps a project rooted. -/
theorem Rooted.putFiles (h : m.Rooted) {files : List (Bytes × Bytes)}
    (hf : ∀ f ∈ files, locate? f.1 ≠ some []) :
    (files.foldl (fun m f =>
      match locate? f.1 with
      | some place => (m.putFile place f.2).putAround place
      | none => m) m).Rooted := by
  refine ⟨h.toFormed.putFiles files, ?_⟩
  rintro ⟨-, hin⟩
  have htop : [] ∉ m.places false := fun hin => h.top_not_file ⟨named_nil, hin⟩
  clear h
  induction files generalizing m with
  | nil => exact htop hin
  | cons f files ih =>
    refine ih (fun g hg => hf g (List.mem_cons_of_mem _ hg)) hin ?_
    dsimp only
    split
    · next p hp =>
      rw [mem_putAround, mem_putFile]
      rintro ((hin | ⟨-, rfl⟩) | ⟨hdir, -⟩)
      · exact htop hin
      · exact hf f List.mem_cons_self hp
      · cases hdir
    · exact htop

/-! ## Listing everything -/

/-- Everything that is reached from a directory by listing it and the directories that are found,
at most `fuel` of them one inside the other: places, and whether they are directories. -/
def reached (m : Memory) : (fuel : Nat) → Bytes → List (Bytes × Bool)
  | 0, _ => []
  | fuel + 1, directory =>
    let found := match m.list directory with
      | .ok entries => entries
      | .error _ => []
    (directory, true) :: found.flatMap fun e =>
      if e.isDirectory then reached m fuel (child directory e.name)
      else [(child directory e.name, false)]

/-- A directory lists what the project has there, nothing twice, in the order of the names. -/
theorem Rooted.list (h : m.Rooted) (hd : m.Has names true) : ∃ entries,
    m.list (place names) = .ok entries ∧ entries.Nodup ∧
      (entries.Pairwise fun e e' => e.name ≤ e'.name) ∧
      ∀ e, e ∈ entries ↔ m.Has (names ++ [e.name]) e.isDirectory := by
  refine ⟨Bytes.sortOn (·.name) (m.listed (place names)), ?_, ?_, Bytes.pairwise_sortOn _ _, ?_⟩
  · rw [list_place hd.1, if_pos (hasDirectory_iff.mpr hd.2)]
  · exact (Bytes.sortOn_perm _ _).nodup_iff.mpr (h.nodup_listed h.top_not_file hd.1)
  · intro e
    rw [Bytes.mem_sortOn]
    exact h.mem_listed_iff h.top_not_file hd.1 e

/-- What is in a directory, at any depth, is reached from it, and nothing else. -/
theorem Rooted.mem_reached_iff (h : m.Rooted) (hd : m.Has names true)
    (hfuel : m.directories.length ≤ names.length + fuel) :
    (p, dir) ∈ m.reached fuel (place names) ↔
      ∃ more, p = place (names ++ more) ∧ m.Has (names ++ more) dir ∧ (more = [] → dir = true) := by
  -- By induction on the fuel, which lasts as long as there are directories to go down into.
  induction fuel generalizing names with
  | zero =>
    have hdeep := h.length_lt hd
    omega
  | succ fuel ih =>
    obtain ⟨entries, hlist, -, -, hmem⟩ := h.list hd
    simp only [reached, hlist, List.mem_cons, List.mem_flatMap, Prod.mk.injEq]
    constructor
    · rintro (⟨rfl, rfl⟩ | ⟨e, he, hin⟩)
      · exact ⟨[], by simp, by simpa using hd, fun _ => rfl⟩
      · have he := (hmem e).mp he
        rw [child_place hd.1] at hin
        split at hin
        · next hdir =>
          rw [hdir] at he
          obtain ⟨more, rfl, hhas, -⟩ := (ih he (by simp; omega)).mp hin
          exact ⟨e.name :: more, by simp, by simpa using hhas, by simp⟩
        · next hdir =>
          obtain ⟨rfl, rfl⟩ := Prod.mk.inj (List.mem_singleton.mp hin)
          exact ⟨[e.name], rfl, by simpa [hdir] using he, by simp⟩
    · rintro ⟨more, rfl, hhas, hself⟩
      cases more with
      | nil => exact .inl ⟨by simp, hself rfl⟩
      | cons n more =>
        have hhas' : m.Has ((names ++ [n]) ++ more) dir := by simpa using hhas
        -- an entry that is a file ends the way, any other is a directory on it
        by_cases hfile : more = [] ∧ dir = false
        · obtain ⟨rfl, rfl⟩ := hfile
          refine .inr ⟨⟨n, false⟩, (hmem _).mpr hhas, ?_⟩
          simp [child_place hd.1]
        · have hself : more = [] → dir = true := fun hmore => by simpa [hmore] using hfile
          have hup : m.Has (names ++ [n]) true := by
            by_cases hmore : more = []
            · rw [← hself hmore]
              simpa [hmore] using hhas'
            · exact h.has_front hmore hhas'
          refine .inr ⟨⟨n, true⟩, (hmem _).mpr hup, ?_⟩
          rw [if_pos rfl, child_place hd.1]
          exact (ih hup (by simp; omega)).mpr ⟨more, by simp, hhas', hself⟩

/-- Nothing is reached twice. -/
theorem Rooted.nodup_reached (h : m.Rooted) (hd : m.Has names true)
    (hfuel : m.directories.length ≤ names.length + fuel) : (m.reached fuel (place names)).Nodup := by
  induction fuel generalizing names with
  | zero =>
    have hdeep := h.length_lt hd
    omega
  | succ fuel ih =>
    obtain ⟨entries, hlist, hnodup, -, hmem⟩ := h.list hd
    have hfuel : ∀ n, m.directories.length ≤ (names ++ [n]).length + fuel := fun n => by
      simp
      omega
    -- what is reached through an entry begins with its names
    have hbranch : ∀ e ∈ entries, ∀ x ∈ (if e.isDirectory = true
        then m.reached fuel (child (place names) e.name)
        else [(child (place names) e.name, false)]),
        ∃ more, x.1 = place (names ++ e.name :: more) ∧ Named (names ++ e.name :: more) ∧
          (more = [] → x.2 = e.isDirectory) ∧ (e.isDirectory = false → more = []) := by
      rintro e he ⟨p, dir⟩ hx
      have he := (hmem e).mp he
      rw [child_place hd.1] at hx
      split at hx
      · next hdir =>
        rw [hdir] at he ⊢
        obtain ⟨more, rfl, hhas, hself⟩ := (h.mem_reached_iff he (hfuel _)).mp hx
        exact ⟨more, by simp, by simpa using hhas.1, hself, by simp⟩
      · next hdir =>
        obtain ⟨rfl, rfl⟩ := Prod.mk.inj (List.mem_singleton.mp hx)
        exact ⟨[], rfl, he.1, fun _ => by simpa using hdir, fun _ => rfl⟩
    -- the directory itself is in none of the branches, each branch lists nothing twice, and two
    -- branches share nothing
    simp only [reached, hlist]
    rw [List.nodup_cons, List.nodup_flatMap]
    refine ⟨?_, ?_, ?_⟩
    · intro hin
      obtain ⟨e, he, hx⟩ := List.mem_flatMap.mp hin
      obtain ⟨more, heq, hnamed, -⟩ := hbranch e he _ hx
      simpa using (place_inj hd.1 hnamed).mp heq
    · intro e he
      have he := (hmem e).mp he
      split
      · next hdir =>
        rw [child_place hd.1]
        exact ih (hdir ▸ he) (hfuel _)
      · exact List.nodup_singleton _
    · refine hnodup.imp_of_mem ?_
      intro e e' he he' hne x hx hx'
      obtain ⟨more, heq, hnamed, hself, hfile⟩ := hbranch e he x hx
      obtain ⟨more', heq', hnamed', hself', hfile'⟩ := hbranch e' he' x hx'
      obtain ⟨hname, hmore⟩ : e.name = e'.name ∧ more = more' := by
        simpa using (place_inj hnamed hnamed').mp (heq.symm.trans heq')
      subst hmore
      have hdir : e.isDirectory = e'.isDirectory := by
        cases hcase : e.isDirectory <;> cases hcase' : e'.isDirectory
        · rfl
        · rw [← hcase, ← hcase', ← hself (hfile hcase), hself' (hfile hcase)]
        · rw [← hcase, ← hcase', ← hself (hfile' hcase'), hself' (hfile' hcase')]
        · rfl
      obtain ⟨n, kind⟩ := e
      obtain ⟨n', kind'⟩ := e'
      exact hne (congrArg₂ Listed.mk hname hdir)

/-- All that a project has: places, and whether they are directories. -/
def entries (m : Memory) : List (Bytes × Bool) :=
  m.files.map (fun f => (f.1, false)) ++ m.directories.map fun d => (d, true)

theorem mem_entries : (p, dir) ∈ m.entries ↔ p ∈ m.places dir := by
  cases dir <;> simp [entries, places]

theorem Distinct.nodup_entries (h : Distinct m) : m.entries.Nodup := by
  refine List.nodup_append.mpr ⟨?_, ?_, ?_⟩
  · have hplaces : (m.files.map fun f => f.1).Nodup := h false
    refine List.Nodup.of_map Prod.fst ?_
    rwa [List.map_map]
  · exact (h true).map fun d d' heq => (Prod.mk.inj heq).1
  · intro x hx y hy heq
    obtain ⟨f, -, rfl⟩ := List.mem_map.mp hx
    obtain ⟨d, -, rfl⟩ := List.mem_map.mp hy
    exact Bool.false_ne_true (Prod.mk.inj heq).2

/-- From the root everything is reached. -/
theorem Rooted.reached_perm (h : m.Rooted) (hfuel : m.directories.length ≤ fuel) :
    (m.reached fuel []).Perm m.entries := by
  have hfuel' : m.directories.length ≤ ([] : List Bytes).length + fuel := by simpa using hfuel
  refine (List.perm_ext_iff_of_nodup (h.nodup_reached h.top hfuel') h.distinct.nodup_entries).mpr ?_
  rintro ⟨p, dir⟩
  rw [h.mem_reached_iff h.top hfuel', mem_entries, h.mem_places_iff]
  refine exists_congr fun names => ?_
  rw [List.nil_append]
  refine and_congr_right fun _ => and_iff_left_of_imp fun hhas hnil => ?_
  subst hnil
  cases dir with
  | false => exact absurd hhas h.top_not_file
  | true => rfl

/-- The directory of whatever a project has is a directory of it. -/
theorem Rooted.parent_mem (h : m.Rooted) (hp : p ∈ m.places dir) : parent p ∈ m.directories := by
  obtain ⟨names, rfl, hhas⟩ := h.mem_places_iff.mp hp
  rcases List.eq_nil_or_concat names with rfl | ⟨front, n, rfl⟩
  · rw [place_nil, parent_nil]
    exact h.top.2
  · rw [List.concat_eq_append] at hhas ⊢
    rw [parent_place hhas.1]
    exact (h.closed hhas).2

/-- Whatever is done to a project, its root is a directory, whatever it has is in a directory, and
listing directories from the root on comes to all files and all directories, once each, and in each
directory in the order of their names. -/
theorem reached_all {files : List (Bytes × Bytes)} {changes : List Change}
    (hfiles : ∀ f ∈ files, locate? f.1 ≠ some []) (hchanges : ∀ c ∈ changes, c.SparesRoot) :
    let m := changes.foldl Change.apply (ofFiles files)
    [] ∈ m.directories ∧ (∀ d ∈ m.directories, parent d ∈ m.directories)
      ∧ (∀ f ∈ m.files, parent f.1 ∈ m.directories)
      ∧ (∀ d ∈ m.directories, ∃ entries, m.list d = .ok entries ∧
          entries.Pairwise fun e e' => e.name ≤ e'.name)
      ∧ ∀ fuel, m.directories.length ≤ fuel →
          (m.reached fuel []).Perm m.entries ∧ (m.reached fuel []).Nodup := by
  intro m
  have h : m.Rooted := (rooted_empty.putFiles hfiles).applyAll hchanges
  refine ⟨h.top.2, ?_, ?_, ?_, ?_⟩
  · intro d hd
    have hd : d ∈ m.places true := hd
    exact h.parent_mem hd
  · intro f hf
    have hf : f.1 ∈ m.places false := List.mem_map.mpr ⟨f, hf, rfl⟩
    exact h.parent_mem hf
  · intro d hd
    have hd : d ∈ m.places true := hd
    obtain ⟨names, rfl, hhas⟩ := h.mem_places_iff.mp hd
    obtain ⟨entries, hlist, -, hsorted, -⟩ := h.list hhas
    exact ⟨entries, hlist, hsorted⟩
  · intro fuel hfuel
    have hperm := h.reached_perm hfuel
    exact ⟨hperm, hperm.nodup_iff.mpr h.distinct.nodup_entries⟩

/-- A directory that gets the name of another one is merged with it; one whose name only begins
like its own stays. -/
theorem reached_all_merged :
    let files : List (Bytes × Bytes) := [("a/x", "1"), ("ab/y", "2"), ("b/x", "3")]
    let changes : List Change :=
      [.makeDirectory "a/c", .rename "a" "b", .write "b/c/z" "4", .deleteDirectory "a"]
    let m := changes.foldl Change.apply (ofFiles files)
    let all : List (Bytes × Bool) := [("ab/y", false), ("b/x", false), ("b/c/z", false),
      ("", true), ("ab", true), ("b", true), ("b/c", true)]
    (∀ f ∈ files, locate? f.1 ≠ some []) ∧ (∀ c ∈ changes, c.SparesRoot)
      ∧ (m.reached 4 []).Perm all := by
  intro files changes m all
  have hfiles : ∀ f ∈ files, locate? f.1 ≠ some [] := by decide
  have hchanges : ∀ c ∈ changes, c.SparesRoot := by decide
  have hentries : m.entries = all := by decide
  refine ⟨hfiles, hchanges, ?_⟩
  rw [← hentries]
  exact ((reached_all hfiles hchanges).2.2.2.2 4 (by decide)).1

end Memory

end Storyline.Storage
