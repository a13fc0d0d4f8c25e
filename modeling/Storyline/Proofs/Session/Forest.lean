import Mathlib.Data.List.Basic
import Mathlib.Data.List.Nodup
import Mathlib.Data.List.TakeDrop
import Mathlib.Data.List.TakeWhile
import Storyline.Proofs.Session.Contents
import Storyline.Proofs.Storage.Places
import Storyline.Proofs.Text.Lists
import Storyline.Session.Edit

/-!
# The tree of a session

`Grove` says that the blobs of a session form trees: every blob has its number, is in a directory,
knows the directories around it, and is once among the blobs of its directory, which are in the
order of their names.  In a `Forest` no directory has a name twice; a blob is then known from the
names that lead to it (`namesIn_inj`), is inside the blobs whose names its own begin with, and is
found by its path.
-/

namespace Storyline.Session

open Storage (place)

variable {s t : Session} {id c d d' : BlobId} {b b' : Blob}

/-! ## Names that lead to a blob -/

/-- The names that lead to a directory or file from the root of the project on. -/
def namesIn (s : Session) (d : BlobId) : List Bytes := (s.ancestorsIn d).map s.nameOf

/-- The project itself or one of its directories. -/
def Directory (s : Session) (d : BlobId) : Prop :=
  d = 0 ∨ ∃ b, s.blob? d = some b ∧ b.isDirectory = true

/-- The project itself or one of its blobs. -/
def Known (s : Session) (d : BlobId) : Prop := d = 0 ∨ ∃ b, s.blob? d = some b

theorem Directory.known (h : s.Directory d) : s.Known d := h.imp_right fun ⟨b, hb, _⟩ => ⟨b, hb⟩

theorem ancestorsIn_zero (s : Session) : s.ancestorsIn 0 = [] := rfl

theorem namesIn_zero (s : Session) : s.namesIn 0 = [] := rfl

theorem ancestorsIn_of_blob? (hb : s.blob? id = some b) :
    s.ancestorsIn id = b.ancestors ++ [id] := by
  rw [ancestorsIn, if_neg (ne_zero_of_blob? hb), hb]
  rfl

theorem nameOf_of_blob? (hb : s.blob? id = some b) : s.nameOf id = b.name := by
  rw [nameOf, hb]
  rfl

/-- The blobs of a session form trees. -/
structure Grove (s : Session) : Prop where
  numbered : ∀ {id b}, s.blob? id = some b → b.id = id
  parent : ∀ {id b}, s.blob? id = some b → s.Directory b.parent
  below : ∀ {id b}, s.blob? id = some b → b.parent < id
  ancestors : ∀ {id b}, s.blob? id = some b → b.ancestors = s.ancestorsIn b.parent
  children : ∀ {d c}, c ∈ s.childrenOf d ↔ ∃ b, s.blob? c = some b ∧ b.parent = d
  sorted : ∀ d, ((s.childrenOf d).map s.nameOf).Pairwise (· ≤ ·)
  once : ∀ d, (s.childrenOf d).Nodup

/-- The blobs of a session form trees in which no directory has a name twice. -/
structure Forest (s : Session) : Prop extends Grove s where
  distinct : ∀ d, ((s.childrenOf d).map s.nameOf).Nodup

namespace Grove

/-- What holds of the project and of everything that is in something it holds of, holds of all
blobs. -/
theorem known_ind (h : Grove s) {P : BlobId → Prop} (hzero : P 0)
    (hstep : ∀ {id b}, s.blob? id = some b → P b.parent → P id) (hd : s.Known d) : P d := by
  induction d using Nat.strongRecOn with
  | ind d ih =>
    rcases hd with rfl | ⟨b, hb⟩
    · exact hzero
    · exact hstep hb (ih b.parent (h.below hb) (h.parent hb).known)

theorem ancestorsIn_eq (h : Grove s) (hb : s.blob? id = some b) :
    s.ancestorsIn id = s.ancestorsIn b.parent ++ [id] := by
  rw [ancestorsIn_of_blob? hb, h.ancestors hb]

theorem namesIn_eq (h : Grove s) (hb : s.blob? id = some b) :
    s.namesIn id = s.namesIn b.parent ++ [b.name] := by
  rw [namesIn, h.ancestorsIn_eq hb, List.map_append, List.map_singleton, nameOf_of_blob? hb,
    ← namesIn]

theorem pathOf_eq (h : Grove s) (hb : s.blob? id = some b) :
    s.pathOf b = place (s.namesIn id) := by
  rw [h.namesIn_eq hb, pathOf, h.ancestors hb]
  rfl

theorem length_ancestorsIn_le (h : Grove s) (hd : s.Known d) : (s.ancestorsIn d).length ≤ d := by
  refine h.known_ind (P := fun d => (s.ancestorsIn d).length ≤ d) (Nat.le_refl 0) ?_ hd
  intro id b hb ih
  rw [h.ancestorsIn_eq hb, List.length_append, List.length_singleton]
  exact Nat.le_trans (Nat.add_le_add_right ih 1) (h.below hb)

/-- Nothing is in a file. -/
theorem childrenOf_file (h : Grove s) (hb : s.blob? id = some b) (hfile : b.isDirectory = false) :
    s.childrenOf id = [] := by
  refine List.eq_nil_iff_forall_not_mem.mpr fun c hc => ?_
  obtain ⟨bc, hbc, rfl⟩ := h.children.mp hc
  rcases h.parent hbc with hzero | ⟨b', hb', hdir⟩
  · exact ne_zero_of_blob? hb hzero
  · rw [hb] at hb'
    cases hb'
    rw [hfile] at hdir
    cases hdir

/-! ## Everything in a blob -/

/-- On the way from a blob to one inside it the first step leads to a blob in its directory. -/
theorem exists_child (h : Grove s) (hd : s.Known d) (hid : id ∈ s.ancestorsIn d) (hne : d ≠ id) :
    ∃ c b, s.blob? c = some b ∧ b.parent = id ∧ c ∈ s.ancestorsIn d := by
  refine h.known_ind (P := fun d => id ∈ s.ancestorsIn d → d ≠ id →
    ∃ c b, s.blob? c = some b ∧ b.parent = id ∧ c ∈ s.ancestorsIn d) ?_ ?_ hd hid hne
  · intro hid
    cases hid
  · intro d b hb ih hid hne
    rw [h.ancestorsIn_eq hb, List.mem_append, List.mem_singleton] at hid
    have hin := hid.resolve_right (Ne.symm hne)
    by_cases hparent : b.parent = id
    · refine ⟨d, b, hb, hparent, ?_⟩
      rw [h.ancestorsIn_eq hb]
      exact List.mem_append_right _ List.mem_cons_self
    · obtain ⟨c, bc, hbc, hc, hmem⟩ := ih hin hparent
      refine ⟨c, bc, hbc, hc, ?_⟩
      rw [h.ancestorsIn_eq hb]
      exact List.mem_append_left _ hmem

theorem mem_ancestorsIn_self (h : Grove s) (hb : s.blob? id = some b) : id ∈ s.ancestorsIn id := by
  rw [h.ancestorsIn_eq hb]
  exact List.mem_append_right _ List.mem_cons_self

/-- What is around a blob is around everything in it. -/
theorem ancestorsIn_front (h : Grove s) (hd : s.Known d) (hc : c ∈ s.ancestorsIn d) :
    s.ancestorsIn c <+: s.ancestorsIn d := by
  refine h.known_ind (P := fun d => c ∈ s.ancestorsIn d → s.ancestorsIn c <+: s.ancestorsIn d) ?_ ?_
    hd hc
  · intro hc
    simp [ancestorsIn_zero] at hc
  · intro d b hb ih hc
    rw [h.ancestorsIn_eq hb, List.mem_append, List.mem_singleton] at hc
    rcases hc with hc | rfl
    · rw [h.ancestorsIn_eq hb]
      exact (ih hc).trans (List.prefix_append _ _)
    · exact List.prefix_refl _

theorem mem_ancestorsIn_of_mem_subtree (h : Grove s) {x : BlobId} {fuel : Nat}
    (hb : s.blob? id = some b) (hx : x ∈ s.subtree fuel id) :
    (∃ bx, s.blob? x = some bx) ∧ id ∈ s.ancestorsIn x := by
  induction fuel generalizing id b with
  | zero =>
    obtain rfl : x = id := by simpa [subtree] using hx
    exact ⟨⟨b, hb⟩, h.mem_ancestorsIn_self hb⟩
  | succ fuel ih =>
    rw [subtree, List.mem_append, List.mem_flatMap, List.mem_singleton] at hx
    rcases hx with ⟨c, hc, hx⟩ | rfl
    · obtain ⟨bc, hbc, hparent⟩ := h.children.mp hc
      obtain ⟨hknown, hin⟩ := ih hbc hx
      have hid : id ∈ s.ancestorsIn c := by
        rw [h.ancestorsIn_eq hbc, hparent]
        exact List.mem_append_left _ (h.mem_ancestorsIn_self hb)
      exact ⟨hknown, (h.ancestorsIn_front (.inr hknown) hin).subset hid⟩
    · exact ⟨⟨b, hb⟩, h.mem_ancestorsIn_self hb⟩

theorem mem_subtree_of_mem_ancestorsIn (h : Grove s) {x : BlobId} (hx : s.Known x) {fuel : Nat}
    (hb : s.blob? id = some b) (hin : id ∈ s.ancestorsIn x)
    (hfuel : (s.ancestorsIn x).length ≤ fuel + (s.ancestorsIn id).length) :
    x ∈ s.subtree fuel id := by
  induction fuel generalizing id b with
  | zero =>
    have hlength : (s.ancestorsIn x).length ≤ (s.ancestorsIn id).length := by
      simpa using hfuel
    have heq := (h.ancestorsIn_front hx hin).eq_of_length_le hlength
    rcases hx with rfl | ⟨bx, hbx⟩
    · simp [ancestorsIn_zero] at hin
    · rw [h.ancestorsIn_eq hb, h.ancestorsIn_eq hbx] at heq
      exact List.mem_singleton.mpr (List.cons.inj (List.append_inj' heq rfl).2).1.symm
  | succ fuel ih =>
    rw [subtree, List.mem_append, List.mem_flatMap, List.mem_singleton]
    by_cases hne : x = id
    · exact .inr hne
    · obtain ⟨c, bc, hbc, hparent, hc⟩ := h.exists_child hx hin hne
      refine .inl ⟨c, h.children.mpr ⟨bc, hbc, hparent⟩, ih hbc hc ?_⟩
      rw [h.ancestorsIn_eq hbc, hparent, List.length_append, List.length_singleton]
      omega

/-- Everything in a blob are the blobs that have it among those around them, and itself. -/
theorem mem_everythingIn_iff (h : Grove s) {x : BlobId} (hb : s.blob? id = some b) :
    x ∈ s.everythingIn id ↔ (∃ bx, s.blob? x = some bx) ∧ id ∈ s.ancestorsIn x := by
  refine ⟨h.mem_ancestorsIn_of_mem_subtree hb, ?_⟩
  rintro ⟨⟨bx, hbx⟩, hin⟩
  refine h.mem_subtree_of_mem_ancestorsIn (.inr ⟨bx, hbx⟩) hb hin (Nat.le_add_right_of_le ?_)
  exact Nat.le_trans (h.length_ancestorsIn_le (.inr ⟨bx, hbx⟩)) (le_size_of_blob? hbx)

end Grove

/-! ## Blobs by name -/

namespace Forest

/-- Blobs of one directory have different names. -/
theorem eq_of_name (h : Forest s) {c' : BlobId} (hb : s.blob? c = some b)
    (hb' : s.blob? c' = some b') (hparent : b.parent = b'.parent) (hname : b.name = b'.name) :
    c = c' := by
  have hc : c ∈ s.childrenOf b.parent := h.children.mpr ⟨b, hb, rfl⟩
  have hc' : c' ∈ s.childrenOf b.parent := h.children.mpr ⟨b', hb', hparent.symm⟩
  refine List.inj_on_of_nodup_map (h.distinct b.parent) hc hc' ?_
  rw [nameOf_of_blob? hb, nameOf_of_blob? hb', hname]

/-- The names that lead to a blob lead to no other one. -/
theorem namesIn_inj (h : Forest s) (hd : s.Known d) (hd' : s.Known d')
    (heq : s.namesIn d = s.namesIn d') : d = d' := by
  refine h.known_ind (P := fun d => ∀ d', s.Known d' → s.namesIn d = s.namesIn d' → d = d') ?_ ?_ hd
    d' hd' heq
  · rintro d' (rfl | ⟨b, hb⟩) heq
    · rfl
    · simp [namesIn_zero, h.namesIn_eq hb] at heq
  · rintro id b hb ih d' (rfl | ⟨b', hb'⟩) heq
    · simp [namesIn_zero, h.namesIn_eq hb] at heq
    · rw [h.namesIn_eq hb, h.namesIn_eq hb'] at heq
      obtain ⟨hparent, hname⟩ := List.append_inj' heq rfl
      exact h.eq_of_name hb hb' (ih _ (h.parent hb').known hparent) (List.cons.inj hname).1

/-- A blob is in another one if its names begin with those of the other. -/
theorem mem_ancestorsIn_iff (h : Forest s) (hd : s.Known d) (hb : s.blob? id = some b) :
    id ∈ s.ancestorsIn d ↔ s.namesIn id <+: s.namesIn d := by
  refine h.known_ind (P := fun d => id ∈ s.ancestorsIn d ↔ s.namesIn id <+: s.namesIn d) ?_ ?_ hd
  · simp [ancestorsIn_zero, namesIn_zero, h.namesIn_eq hb]
  · intro d b' hb' ih
    rw [h.ancestorsIn_eq hb', h.namesIn_eq hb', List.prefix_concat_iff, List.mem_append,
      List.mem_singleton, ih, or_comm, ← h.namesIn_eq hb']
    refine or_congr_left ⟨fun heq => heq ▸ rfl, ?_⟩
    exact h.namesIn_inj (.inr ⟨b, hb⟩) (.inr ⟨b', hb'⟩)

/-! ## Finding a blob -/

theorem find_concat (s : Session) (names : List Bytes) (n : Bytes) (d : BlobId) :
    s.find d (names ++ [n])
      = (s.find d names).bind fun e => (s.childrenOf e).find? fun id => s.nameOf id = n := by
  induction names generalizing d with
  | nil =>
    simp only [List.nil_append, find, Option.bind_some]
    cases (s.childrenOf d).find? fun id => s.nameOf id = n <;> rfl
  | cons x names ih =>
    simp only [List.cons_append, find]
    cases (s.childrenOf d).find? fun id => s.nameOf id = x with
    | none => rfl
    | some next => exact ih next

theorem find_namesIn (h : Forest s) (hd : s.Known d) : s.find 0 (s.namesIn d) = some d := by
  refine h.known_ind (P := fun d => s.find 0 (s.namesIn d) = some d) rfl ?_ hd
  intro id b hb ih
  rw [h.namesIn_eq hb, find_concat, ih, Option.bind_some]
  have hin : id ∈ s.childrenOf b.parent := h.children.mpr ⟨b, hb, rfl⟩
  cases hfind : (s.childrenOf b.parent).find? fun id => s.nameOf id = b.name with
  | none =>
    have hnone := List.find?_eq_none.mp hfind id hin
    simp [nameOf_of_blob? hb] at hnone
  | some x =>
    have hname : s.nameOf x = b.name := by simpa using List.find?_some hfind
    have hx : x ∈ s.childrenOf b.parent := List.mem_of_find?_eq_some hfind
    refine congrArg some (List.inj_on_of_nodup_map (h.distinct b.parent) hx hin ?_)
    rw [hname, nameOf_of_blob? hb]

end Forest

/-! ## Sessions with the same blobs -/

namespace Alike

variable {k : Session}

theorem ancestorsIn (h : Alike k s) (d : BlobId) : s.ancestorsIn d = k.ancestorsIn d := by
  have hancestors := congrArg (Option.map (·.ancestors)) (h.blobs d)
  simp only [Option.map_map] at hancestors
  have hancestors : (s.blob? d).map (·.ancestors) = (k.blob? d).map (·.ancestors) := hancestors
  rw [Session.ancestorsIn, Session.ancestorsIn, hancestors]

theorem namesIn (h : Alike k s) (d : BlobId) : s.namesIn d = k.namesIn d := by
  have hnames : s.nameOf = k.nameOf := funext h.nameOf
  rw [Session.namesIn, Session.namesIn, h.ancestorsIn, hnames]

theorem directory (h : Alike k s) (hd : k.Directory d) : s.Directory d := by
  refine hd.imp_right ?_
  rintro ⟨b, hb, hdir⟩
  obtain ⟨b', hb', heq⟩ := h.symm.blob? hb
  exact ⟨b', hb', (congrArg (·.isDirectory) heq).trans hdir⟩

theorem grove (h : Alike k s) (hk : Grove k) : Grove s where
  -- two sessions that are alike have the same blobs up to their stories, and no field speaks of
  -- these
  numbered := by
    intro id b hb
    obtain ⟨b', hb', heq⟩ := h.blob? hb
    have hid : b'.id = b.id := congrArg (·.id) heq
    exact hid ▸ hk.numbered hb'
  parent := by
    intro id b hb
    obtain ⟨b', hb', heq⟩ := h.blob? hb
    have hparent : b'.parent = b.parent := congrArg (·.parent) heq
    exact hparent ▸ h.directory (hk.parent hb')
  below := by
    intro id b hb
    obtain ⟨b', hb', heq⟩ := h.blob? hb
    have hparent : b'.parent = b.parent := congrArg (·.parent) heq
    exact hparent ▸ hk.below hb'
  ancestors := by
    intro id b hb
    obtain ⟨b', hb', heq⟩ := h.blob? hb
    have hparent : b'.parent = b.parent := congrArg (·.parent) heq
    have hancestors : b'.ancestors = b.ancestors := congrArg (·.ancestors) heq
    rw [h.ancestorsIn, ← hparent, ← hancestors, hk.ancestors hb']
  children := by
    intro d c
    rw [h.childrenOf, hk.children]
    constructor
    · rintro ⟨b, hb, hparent⟩
      obtain ⟨b', hb', heq⟩ := h.symm.blob? hb
      exact ⟨b', hb', (congrArg (·.parent) heq).trans hparent⟩
    · rintro ⟨b, hb, hparent⟩
      obtain ⟨b', hb', heq⟩ := h.blob? hb
      exact ⟨b', hb', (congrArg (·.parent) heq).trans hparent⟩
  sorted := by
    intro d
    have hnames : s.nameOf = k.nameOf := funext h.nameOf
    rw [h.childrenOf, hnames]
    exact hk.sorted d
  once := by
    intro d
    rw [h.childrenOf]
    exact hk.once d

theorem forest (h : Alike k s) (hk : Forest k) : Forest s where
  toGrove := h.grove hk.toGrove
  distinct := by
    intro d
    have hnames : s.nameOf = k.nameOf := funext h.nameOf
    rw [h.childrenOf, hnames]
    exact hk.distinct d

end Alike

/-! ## Blobs in order -/

theorem insertSorted_perm (s : Session) (id : BlobId) (name : Bytes) (ids : List BlobId) :
    (s.insertSorted id name ids).Perm (id :: ids) := by
  rw [insertSorted, List.span_eq_takeWhile_dropWhile]
  refine List.perm_middle.trans (List.Perm.cons _ ?_)
  rw [List.takeWhile_append_dropWhile]

/-- Names stay in order when one more is put before those that are not smaller. -/
theorem sorted_insertSorted {name : Bytes} {ids : List BlobId}
    (hsorted : (ids.map s.nameOf).Pairwise (· ≤ ·)) {f : BlobId → Bytes} (hname : f id = name)
    (hf : ∀ x ∈ ids, f x = s.nameOf x) : ((s.insertSorted id name ids).map f).Pairwise (· ≤ ·) := by
  have hmap : ids.map f = ids.map s.nameOf := List.map_congr_left hf
  rw [← hmap, List.pairwise_map] at hsorted
  rw [insertSorted, List.span_eq_takeWhile_dropWhile, List.pairwise_map, List.pairwise_append]
  -- what is before the new one was not behind its name, what follows it was not before
  have hbefore : ∀ x ∈ ids.takeWhile fun x => !Bytes.notAfter name (s.nameOf x), f x ≤ name := by
    intro x hx
    have hnot := List.mem_takeWhile_imp hx
    rw [hf x (List.takeWhile_subset _ hx)]
    exact (List.le_total (s.nameOf x) name).resolve_right
      fun hle => by simp [Bytes.notAfter_iff.mpr hle] at hnot
  have hafter : ∀ x ∈ ids.dropWhile fun x => !Bytes.notAfter name (s.nameOf x), name ≤ f x := by
    have hrest := hsorted.sublist
      (List.dropWhile_sublist fun x => !Bytes.notAfter name (s.nameOf x))
    have hfirst := List.head?_dropWhile_not (fun x => !Bytes.notAfter name (s.nameOf x)) ids
    cases hdrop : ids.dropWhile fun x => !Bytes.notAfter name (s.nameOf x) with
    | nil => simp
    | cons y ys =>
      rw [hdrop] at hrest hfirst
      have hin : y ∈ ids := List.dropWhile_subset _ (hdrop ▸ List.mem_cons_self)
      have hy : name ≤ f y := by
        rw [hf y hin]
        simpa [Bytes.notAfter_iff] using hfirst
      intro x hx
      rcases List.mem_cons.mp hx with rfl | hx
      · exact hy
      · exact List.le_trans hy ((List.pairwise_cons.mp hrest).1 x hx)
  refine ⟨hsorted.sublist (List.takeWhile_sublist _), ?_, ?_⟩
  · refine List.pairwise_cons.mpr ⟨?_, hsorted.sublist (List.dropWhile_sublist _)⟩
    rw [hname]
    exact hafter
  · intro x hx y hy
    rcases List.mem_cons.mp hy with rfl | hy
    · rw [hname]
      exact hbefore x hx
    · exact List.le_trans (hbefore x hx) (hafter y hy)

end Storyline.Session
