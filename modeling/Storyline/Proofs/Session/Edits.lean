import Storyline.Proofs.Session.Forest

/-!
# Changing the tree of a session

What adding, renaming and deleting a blob do to the trees of a session.  Each of them is said
through the blob with each number, and each keeps a `Grove`.  They keep a `Forest` if no name comes
up twice: adding a blob to a directory that has none of its name (`Forest.alloc`), giving a blob a
name that no other blob of its directory has (`Forest.relabelled`), and dropping a blob with
everything inside it (`Forest.pruned`).
-/

namespace Storyline.Session

open Storage (moved moved_append moved_concat moved_of_not_front)

variable {s t : Session} {id c d p : BlobId} {b : Blob} {name n : Bytes} {isDirectory dir : Bool}

/-- A directory has a blob of some name in it, which is a directory or a file. -/
def Child (s : Session) (d : BlobId) (name : Bytes) (isDirectory : Bool) : Prop :=
  ∃ c b, s.blob? c = some b ∧ b.parent = d ∧ b.name = name ∧ b.isDirectory = isDirectory

/-- The same names lead to a blob of two sessions if it and all blobs around it have the same
directory and name in both. -/
theorem Grove.namesIn_congr (hs : Grove s) (ht : Grove t)
    (h : ∀ {id b}, t.blob? id = some b → ∃ b', s.blob? id = some b' ∧ b'.parent = b.parent ∧
      b'.name = b.name) (hd : t.Known d) : t.namesIn d = s.namesIn d := by
  refine ht.known_ind (P := fun d => t.namesIn d = s.namesIn d) rfl ?_ hd
  intro id b hb ih
  obtain ⟨b', hb', hparent, hname⟩ := h hb
  rw [ht.namesIn_eq hb, hs.namesIn_eq hb', hparent, hname, ih]

theorem Known.le_size (hd : s.Known d) : d ≤ s.blobs.size := by
  rcases hd with rfl | ⟨b, hb⟩
  · exact Nat.zero_le _
  · exact le_size_of_blob? hb

theorem Known.ne_next (hd : s.Known d) : d ≠ s.blobs.size + 1 := by
  rintro rfl
  exact absurd hd.le_size (Nat.not_succ_le_self _)

/-- A blob without what it lists. -/
def header (b : Blob) : Blob := { b with children := [] }

theorem header_mapChildren (s : Session) (p : BlobId) (f : List BlobId → List BlobId) (j : BlobId) :
    ((s.mapChildren p f).blob? j).map header = (s.blob? j).map header := by
  rw [blob?_mapChildren, Option.map_map]
  refine Option.map_congr fun b _ => ?_
  simp only [Function.comp_apply]
  split <;> rfl

theorem mapChildren_frame (s : Session) (p : BlobId) (f : List BlobId → List BlobId) :
    (s.mapChildren p f).root = s.root ∧ (s.mapChildren p f).settings = s.settings := by
  unfold mapChildren
  split <;> exact ⟨rfl, rfl⟩

theorem childrenOf_mapChildren (hp : s.Known p) (f : List BlobId → List BlobId) (d : BlobId) :
    (s.mapChildren p f).childrenOf d = if d = p then f (s.childrenOf d) else s.childrenOf d := by
  by_cases hzero : d = 0
  · subst hzero
    by_cases hp0 : p = 0
    · subst hp0
      rfl
    · rw [if_neg (Ne.symm hp0), mapChildren, if_neg hp0]
      rfl
  · rw [childrenOf, childrenOf, if_neg hzero, if_neg hzero, blob?_mapChildren]
    rcases hb : s.blob? d with _ | b
    · have hne : d ≠ p := by
        rintro rfl
        rcases hp with hp | ⟨b, hb'⟩
        · exact hzero hp
        · rw [hb] at hb'
          cases hb'
      rw [if_neg hne]
      rfl
    · split <;> rfl

/-! ## Adding a blob -/

theorem exists_blob?_alloc (hb : s.blob? id = some b) (name : Bytes) (p : BlobId)
    (isDirectory : Bool) :
    ∃ b', (s.alloc name p isDirectory).2.blob? id = some b' ∧ header b' = header b := by
  rw [blob?_alloc, if_neg (Known.ne_next (.inr ⟨b, hb⟩)), hb]
  refine ⟨_, rfl, ?_⟩
  split <;> rfl

/-- A blob after one was added is the new one or was there before. -/
theorem of_blob?_alloc (hb : (s.alloc name p isDirectory).2.blob? id = some b) :
    (id = s.blobs.size + 1 ∧
      b = { id, name, parent := p, ancestors := s.ancestorsIn p, isDirectory }) ∨
    ∃ b', s.blob? id = some b' ∧ header b' = header b := by
  rw [blob?_alloc] at hb
  split at hb
  · next hid => exact .inl ⟨hid, (Option.some.inj hb).symm⟩
  · obtain ⟨b', hb', rfl⟩ := Option.map_eq_some_iff.mp hb
    refine .inr ⟨b', hb', ?_⟩
    split <;> rfl

theorem blob?_alloc_next (s : Session) (name : Bytes) (p : BlobId) (isDirectory : Bool) :
    (s.alloc name p isDirectory).2.blob? (s.blobs.size + 1)
      = some { id := s.blobs.size + 1, name, parent := p, ancestors := s.ancestorsIn p,
               isDirectory } := by
  rw [blob?_alloc, if_pos rfl]

theorem alloc_size (s : Session) (name : Bytes) (p : BlobId) (isDirectory : Bool) :
    (s.alloc name p isDirectory).2.blobs.size = s.blobs.size + 1 := by
  simp [alloc]

theorem directory_alloc (hd : s.Directory d) (name : Bytes) (p : BlobId) (isDirectory : Bool) :
    (s.alloc name p isDirectory).2.Directory d := by
  refine hd.imp_right ?_
  rintro ⟨b, hb, hdir⟩
  obtain ⟨b', hb', heq⟩ := exists_blob?_alloc hb name p isDirectory
  exact ⟨b', hb', (congrArg (·.isDirectory) heq).trans hdir⟩

theorem ancestorsIn_alloc (hd : s.Known d) (name : Bytes) (p : BlobId) (isDirectory : Bool) :
    (s.alloc name p isDirectory).2.ancestorsIn d = s.ancestorsIn d := by
  rcases hd with rfl | ⟨b, hb⟩
  · rfl
  · obtain ⟨b', hb', heq⟩ := exists_blob?_alloc hb name p isDirectory
    rw [ancestorsIn_of_blob? hb, ancestorsIn_of_blob? hb']
    exact congrArg (· ++ [d]) (congrArg (·.ancestors) heq)

theorem nameOf_alloc (s : Session) (name : Bytes) (p : BlobId) (isDirectory : Bool) (j : BlobId) :
    (s.alloc name p isDirectory).2.nameOf j
      = if j = s.blobs.size + 1 then name else s.nameOf j := by
  rw [nameOf, nameOf, blob?_alloc]
  split
  · rfl
  · cases s.blob? j with
    | none => rfl
    | some b =>
      simp only [Option.map_some, Option.getD_some]
      split <;> rfl

theorem childrenOf_alloc (hp : s.Known p) (name : Bytes) (isDirectory : Bool) (d : BlobId) :
    (s.alloc name p isDirectory).2.childrenOf d
      = if d = s.blobs.size + 1 then []
        else if d = p then s.insertSorted (s.blobs.size + 1) name (s.childrenOf d)
        else s.childrenOf d := by
  by_cases hnext : d = s.blobs.size + 1
  · rw [if_pos hnext, hnext, childrenOf, if_neg (Nat.succ_ne_zero _), blob?_alloc_next]
    rfl
  · have hblob : (s.alloc name p isDirectory).2.blob? d
        = (s.mapChildren p (s.insertSorted (s.blobs.size + 1) name)).blob? d := by
      rw [blob?_alloc, if_neg hnext, blob?_mapChildren]
    rw [if_neg hnext, ← childrenOf_mapChildren hp, childrenOf, childrenOf, hblob]
    rfl

theorem Grove.known_of_mem_childrenOf (h : Grove s) (hc : c ∈ s.childrenOf d) :
    s.Known c ∧ s.Known d := by
  obtain ⟨b, hb, rfl⟩ := h.children.mp hc
  exact ⟨.inr ⟨b, hb⟩, (h.parent hb).known⟩

theorem Grove.nameOf_alloc_child (h : Grove s) (hc : c ∈ s.childrenOf d) (name : Bytes)
    (p : BlobId) (isDirectory : Bool) : (s.alloc name p isDirectory).2.nameOf c = s.nameOf c := by
  rw [nameOf_alloc, if_neg (h.known_of_mem_childrenOf hc).1.ne_next]

theorem Grove.children_alloc (h : Grove s) (hp : s.Directory p) :
    c ∈ (s.alloc name p isDirectory).2.childrenOf d ↔
      ∃ b, (s.alloc name p isDirectory).2.blob? c = some b ∧ b.parent = d := by
  have hblob : (∃ b, (s.alloc name p isDirectory).2.blob? c = some b ∧ b.parent = d) ↔
      (c = s.blobs.size + 1 ∧ p = d) ∨ c ∈ s.childrenOf d := by
    rw [h.children]
    constructor
    · rintro ⟨b, hb, rfl⟩
      rcases of_blob?_alloc hb with ⟨rfl, rfl⟩ | ⟨b', hb', heq⟩
      · exact .inl ⟨rfl, rfl⟩
      · exact .inr ⟨b', hb', congrArg (·.parent) heq⟩
    · rintro (⟨rfl, rfl⟩ | ⟨b, hb, rfl⟩)
      · exact ⟨_, blob?_alloc_next _ _ _ _, rfl⟩
      · obtain ⟨b', hb', heq⟩ := exists_blob?_alloc hb name p isDirectory
        exact ⟨b', hb', congrArg (·.parent) heq⟩
  rw [hblob, childrenOf_alloc hp.known]
  by_cases hnext : d = s.blobs.size + 1
  · subst hnext
    rw [if_pos rfl]
    refine iff_of_false (List.not_mem_nil) ?_
    rintro (⟨-, hd⟩ | hc)
    · exact hp.known.ne_next hd
    · exact (h.known_of_mem_childrenOf hc).2.ne_next rfl
  · rw [if_neg hnext]
    by_cases hd : d = p
    · subst hd
      rw [if_pos rfl, (insertSorted_perm s _ name _).mem_iff, List.mem_cons]
      simp
    · rw [if_neg hd]
      simp [Ne.symm hd]

/-- Adding a blob to a directory keeps the trees. -/
theorem Grove.alloc (h : Grove s) (hp : s.Directory p) :
    Grove (s.alloc name p isDirectory).2 where
  numbered := by
    intro id b hb
    -- a blob is the new one, or it is one of the old with its fields
    rcases of_blob?_alloc hb with ⟨-, rfl⟩ | ⟨b', hb', heq⟩
    · rfl
    · rw [← show b'.id = b.id from congrArg (·.id) heq]
      exact h.numbered hb'
  parent := by
    intro id b hb
    rcases of_blob?_alloc hb with ⟨-, rfl⟩ | ⟨b', hb', heq⟩
    · exact directory_alloc hp _ _ _
    · rw [← show b'.parent = b.parent from congrArg (·.parent) heq]
      exact directory_alloc (h.parent hb') _ _ _
  below := by
    intro id b hb
    rcases of_blob?_alloc hb with ⟨rfl, rfl⟩ | ⟨b', hb', heq⟩
    · exact Nat.lt_succ_of_le hp.known.le_size
    · rw [← show b'.parent = b.parent from congrArg (·.parent) heq]
      exact h.below hb'
  ancestors := by
    intro id b hb
    rcases of_blob?_alloc hb with ⟨-, rfl⟩ | ⟨b', hb', heq⟩
    · exact (ancestorsIn_alloc hp.known _ _ _).symm
    · rw [← show b'.parent = b.parent from congrArg (·.parent) heq,
        ← show b'.ancestors = b.ancestors from congrArg (·.ancestors) heq,
        ancestorsIn_alloc (h.parent hb').known, h.ancestors hb']
  children := h.children_alloc hp
  sorted := by
    intro d
    rw [childrenOf_alloc hp.known]
    split
    · exact List.Pairwise.nil
    · split
      · exact sorted_insertSorted (h.sorted d) (by rw [nameOf_alloc, if_pos rfl])
          fun c hc => h.nameOf_alloc_child hc _ _ _
      · rw [List.map_congr_left fun c hc => h.nameOf_alloc_child hc _ _ _]
        exact h.sorted d
  once := by
    -- the children of the new blob, those of its directory, and all others
    intro d
    rw [childrenOf_alloc hp.known]
    split
    · exact List.nodup_nil
    · split
      · rw [(insertSorted_perm s _ name _).nodup_iff, List.nodup_cons]
        exact ⟨fun hin => (h.known_of_mem_childrenOf hin).1.ne_next rfl, h.once d⟩
      · exact h.once d

/-- Adding a blob to a directory that has none of its name keeps names distinct. -/
theorem Forest.alloc (h : Forest s) (hp : s.Directory p)
    (hnew : ∀ c ∈ s.childrenOf p, s.nameOf c ≠ name) : Forest (s.alloc name p isDirectory).2 where
  toGrove := h.toGrove.alloc hp
  distinct := by
    intro d
    rw [childrenOf_alloc hp.known]
    split
    · exact List.nodup_nil
    · split
      · next hd =>
        subst hd
        rw [((insertSorted_perm s _ name _).map _).nodup_iff, List.map_cons, nameOf_alloc,
          if_pos rfl, List.map_congr_left fun c hc => h.nameOf_alloc_child hc _ _ _,
          List.nodup_cons]
        refine ⟨?_, h.distinct d⟩
        rintro hin
        obtain ⟨c, hc, hname⟩ := List.mem_map.mp hin
        exact hnew c hc hname
      · rw [List.map_congr_left fun c hc => h.nameOf_alloc_child hc _ _ _]
        exact h.distinct d

theorem Grove.namesIn_alloc (h : Grove s) (hp : s.Directory p) (hd : s.Known d) :
    (s.alloc name p isDirectory).2.namesIn d = s.namesIn d := by
  refine ((h.alloc hp).namesIn_congr h ?_ hd).symm
  intro id b hb
  obtain ⟨b', hb', heq⟩ := exists_blob?_alloc hb name p isDirectory
  exact ⟨b', hb', congrArg (·.parent) heq, congrArg (·.name) heq⟩

theorem child_alloc_iff (s : Session) (name : Bytes) (p : BlobId) (isDirectory : Bool) :
    (s.alloc name p isDirectory).2.Child d n dir ↔
      s.Child d n dir ∨ (d = p ∧ n = name ∧ dir = isDirectory) := by
  constructor
  · rintro ⟨c, b, hb, rfl, rfl, rfl⟩
    rcases of_blob?_alloc hb with ⟨-, rfl⟩ | ⟨b', hb', heq⟩
    · exact .inr ⟨rfl, rfl, rfl⟩
    · exact .inl ⟨c, b', hb', congrArg (·.parent) heq, congrArg (·.name) heq,
        congrArg (·.isDirectory) heq⟩
  · rintro (⟨c, b, hb, rfl, rfl, rfl⟩ | ⟨rfl, rfl, rfl⟩)
    · obtain ⟨b', hb', heq⟩ := exists_blob?_alloc hb name p isDirectory
      exact ⟨c, b', hb', congrArg (·.parent) heq, congrArg (·.name) heq,
        congrArg (·.isDirectory) heq⟩
    · exact ⟨_, _, blob?_alloc_next _ _ _ _, rfl, rfl, rfl⟩

/-! ## Renaming a blob -/

/-- The session in which the blob `id` of the directory `p` has a name but no place yet. -/
def unplaced (s : Session) (id p : BlobId) (name : Bytes) : Session :=
  (s.mapChildren p (·.filter (· != id))).mapBlob id fun b => { b with name }

/-- The session with another name for the blob `id` of the directory `p`. -/
def relabelled (s : Session) (id p : BlobId) (name : Bytes) : Session :=
  (s.unplaced id p name).mapChildren p ((s.unplaced id p name).insertSorted id name)

theorem relabelled_frame (s : Session) (id p : BlobId) (name : Bytes) :
    (s.relabelled id p name).root = s.root ∧ (s.relabelled id p name).settings = s.settings := by
  have hplaced := mapChildren_frame (s.unplaced id p name) p
    ((s.unplaced id p name).insertSorted id name)
  have hfiltered := mapChildren_frame s p (·.filter (· != id))
  exact ⟨hplaced.1.trans hfiltered.1, hplaced.2.trans hfiltered.2⟩

theorem blob?_unplaced (hid : id ≠ 0) (p : BlobId) (name : Bytes) (j : BlobId) :
    (s.unplaced id p name).blob? j = if j = id
      then ((s.mapChildren p (·.filter (· != id))).blob? j).map fun b => { b with name }
      else (s.mapChildren p (·.filter (· != id))).blob? j :=
  blob?_mapBlob hid _ j

/-- Renaming changes nothing but a name and what is listed. -/
theorem header_relabelled (hid : id ≠ 0) (p : BlobId) (name : Bytes) (j : BlobId) :
    ((s.relabelled id p name).blob? j).map header
      = (s.blob? j).map fun b => { header b with name := if j = id then name else b.name } := by
  have hold := header_mapChildren s p (·.filter (· != id)) j
  refine (header_mapChildren (s.unplaced id p name) p _ j).trans ?_
  rw [blob?_unplaced hid]
  by_cases hj : j = id
  · have hname := congrArg (Option.map fun b : Blob => { b with name }) hold
    simp only [hj, if_true, Option.map_map] at hname ⊢
    exact hname
  · simp only [hj, if_false]
    exact hold

theorem of_blob?_relabelled (hid : id ≠ 0) {j : BlobId}
    (hb : (s.relabelled id p name).blob? j = some b) : ∃ b', s.blob? j = some b' ∧
      header b = { header b' with name := if j = id then name else b'.name } := by
  have hheader := header_relabelled (s := s) hid p name j
  rw [hb] at hheader
  obtain ⟨b', hb', heq⟩ := Option.map_eq_some_iff.mp hheader.symm
  exact ⟨b', hb', heq.symm⟩

theorem exists_blob?_relabelled (hid : id ≠ 0) (p : BlobId) (name : Bytes) {j : BlobId}
    (hb : s.blob? j = some b) : ∃ b', (s.relabelled id p name).blob? j = some b' ∧
      header b' = { header b with name := if j = id then name else b.name } := by
  have hheader := header_relabelled (s := s) hid p name j
  rw [hb] at hheader
  exact Option.map_eq_some_iff.mp hheader

theorem directory_relabelled (hid : id ≠ 0) (p : BlobId) (name : Bytes) :
    (s.relabelled id p name).Directory d ↔ s.Directory d := by
  refine or_congr_right ⟨?_, ?_⟩
  · rintro ⟨b, hb, hdir⟩
    obtain ⟨b', hb', heq⟩ := of_blob?_relabelled hid hb
    exact ⟨b', hb', (congrArg (·.isDirectory) heq).symm.trans hdir⟩
  · rintro ⟨b, hb, hdir⟩
    obtain ⟨b', hb', heq⟩ := exists_blob?_relabelled hid p name hb
    exact ⟨b', hb', (congrArg (·.isDirectory) heq).trans hdir⟩

theorem ancestorsIn_relabelled (hid : id ≠ 0) (p : BlobId) (name : Bytes) (d : BlobId) :
    (s.relabelled id p name).ancestorsIn d = s.ancestorsIn d := by
  have hancestors := congrArg (Option.map (·.ancestors)) (header_relabelled (s := s) hid p name d)
  simp only [Option.map_map] at hancestors
  have hancestors : ((s.relabelled id p name).blob? d).map (·.ancestors)
    = (s.blob? d).map (·.ancestors) := hancestors
  rw [ancestorsIn, ancestorsIn, hancestors]

theorem nameOf_relabelled (hb : s.blob? id = some b) (p : BlobId) (name : Bytes) (j : BlobId) :
    (s.relabelled id p name).nameOf j = if j = id then name else s.nameOf j := by
  have hname := congrArg (Option.map (·.name))
    (header_relabelled (s := s) (ne_zero_of_blob? hb) p name j)
  simp only [Option.map_map] at hname
  have hname : ((s.relabelled id p name).blob? j).map (·.name)
    = (s.blob? j).map fun b => if j = id then name else b.name := hname
  rw [nameOf, hname]
  by_cases hj : j = id
  · simp [hj, hb]
  · simp [hj, nameOf]

theorem childrenOf_unplaced (hid : id ≠ 0) (hp : s.Known p) (name : Bytes) (d : BlobId) :
    (s.unplaced id p name).childrenOf d
      = if d = p then (s.childrenOf d).filter (· != id) else s.childrenOf d := by
  rw [← childrenOf_mapChildren hp (·.filter (· != id)), childrenOf, childrenOf, blob?_unplaced hid]
  split
  · exact mapBlob_top _ _ _
  · split
    · rw [Option.map_map]
      rfl
    · rfl

theorem known_unplaced (hid : id ≠ 0) (hd : s.Known d) (p : BlobId) (name : Bytes) :
    (s.unplaced id p name).Known d := by
  refine hd.imp_right ?_
  rintro ⟨b, hb⟩
  rw [blob?_unplaced hid, blob?_mapChildren, hb]
  split <;> exact ⟨_, rfl⟩

theorem childrenOf_relabelled (hid : id ≠ 0) (hp : s.Known p) (name : Bytes) (d : BlobId) :
    (s.relabelled id p name).childrenOf d = if d = p
      then (s.unplaced id p name).insertSorted id name ((s.childrenOf d).filter (· != id))
      else s.childrenOf d := by
  refine (childrenOf_mapChildren (known_unplaced hid hp p name) _ d).trans ?_
  rw [childrenOf_unplaced hid hp]
  split <;> rfl

theorem nameOf_unplaced (hid : id ≠ 0) (p : BlobId) (name : Bytes) {j : BlobId} (hj : j ≠ id) :
    (s.unplaced id p name).nameOf j = s.nameOf j := by
  have hname := congrArg (Option.map (·.name)) (header_mapChildren s p (·.filter (· != id)) j)
  simp only [Option.map_map] at hname
  have hname : ((s.mapChildren p (·.filter (· != id))).blob? j).map (·.name)
    = (s.blob? j).map (·.name) := hname
  rw [nameOf, nameOf, blob?_unplaced hid, if_neg hj, hname]

theorem nameOf_relabelled_other (hb : s.blob? id = some b) {ids : List BlobId}
    (hc : c ∈ ids.filter (· != id)) : (s.relabelled id p name).nameOf c = s.nameOf c := by
  have hne : c ≠ id := by simpa using (List.mem_filter.mp hc).2
  rw [nameOf_relabelled hb, if_neg hne]

/-- The renamed blob is in no other directory. -/
theorem Grove.nameOf_relabelled_elsewhere (h : Grove s) (hb : s.blob? id = some b)
    (hd : d ≠ b.parent) : ∀ c ∈ s.childrenOf d, (s.relabelled id p name).nameOf c = s.nameOf c := by
  intro c hc
  rw [nameOf_relabelled hb, if_neg]
  rintro rfl
  obtain ⟨b', hb', rfl⟩ := h.children.mp hc
  rw [hb] at hb'
  exact hd (Option.some.inj hb' ▸ rfl)

/-- Giving a blob another name keeps the trees. -/
theorem Grove.relabelled (h : Grove s) (hb : s.blob? id = some b) (name : Bytes) :
    Grove (s.relabelled id b.parent name) := by
  have hid := ne_zero_of_blob? hb
  have hp := (h.parent hb).known
  have hin : id ∈ s.childrenOf b.parent := h.children.mpr ⟨b, hb, rfl⟩
  -- the seven fields in order; a new name moves the blob within its directory and changes nothing
  -- else
  refine ⟨?_, ?_, ?_, ?_, ?_, ?_, ?_⟩
  · intro j b' hb'
    obtain ⟨b'', hb'', heq⟩ := of_blob?_relabelled hid hb'
    rw [show b'.id = b''.id from congrArg (·.id) heq]
    exact h.numbered hb''
  · intro j b' hb'
    obtain ⟨b'', hb'', heq⟩ := of_blob?_relabelled hid hb'
    rw [directory_relabelled hid, show b'.parent = b''.parent from congrArg (·.parent) heq]
    exact h.parent hb''
  · intro j b' hb'
    obtain ⟨b'', hb'', heq⟩ := of_blob?_relabelled hid hb'
    rw [show b'.parent = b''.parent from congrArg (·.parent) heq]
    exact h.below hb''
  · intro j b' hb'
    obtain ⟨b'', hb'', heq⟩ := of_blob?_relabelled hid hb'
    rw [ancestorsIn_relabelled hid, show b'.parent = b''.parent from congrArg (·.parent) heq,
      show b'.ancestors = b''.ancestors from congrArg (·.ancestors) heq]
    exact h.ancestors hb''
  · intro d c
    have hmem : c ∈ (s.relabelled id b.parent name).childrenOf d ↔ c ∈ s.childrenOf d := by
      -- the directory lists the blob at another place, but lists the same
      rw [childrenOf_relabelled hid hp]
      split
      · next hd =>
        rw [(insertSorted_perm _ _ _ _).mem_iff, List.mem_cons, List.mem_filter]
        by_cases hc : c = id
        · simp [hc, hd, hin]
        · simp [hc]
      · rfl
    rw [hmem, h.children]
    constructor
    · rintro ⟨bc, hbc, rfl⟩
      obtain ⟨b', hb', heq⟩ := exists_blob?_relabelled hid b.parent name hbc
      exact ⟨b', hb', congrArg (·.parent) heq⟩
    · rintro ⟨bc, hbc, rfl⟩
      obtain ⟨b', hb', heq⟩ := of_blob?_relabelled hid hbc
      exact ⟨b', hb', (congrArg (·.parent) heq).symm⟩
  · intro d
    rw [childrenOf_relabelled hid hp]
    split
    · next hd =>
      subst hd
      refine sorted_insertSorted ?_ (by rw [nameOf_relabelled hb, if_pos rfl]) fun c hc => ?_
      · rw [List.map_congr_left fun c hc => nameOf_unplaced hid b.parent name
          (by simpa using (List.mem_filter.mp hc).2)]
        exact (h.sorted _).sublist (List.filter_sublist.map _)
      · rw [nameOf_relabelled_other hb hc, nameOf_unplaced hid b.parent name
          (by simpa using (List.mem_filter.mp hc).2)]
    · next hd =>
      rw [List.map_congr_left (h.nameOf_relabelled_elsewhere hb hd)]
      exact h.sorted d
  · intro d
    rw [childrenOf_relabelled hid hp]
    split
    · rw [(insertSorted_perm _ _ _ _).nodup_iff, List.nodup_cons]
      exact ⟨fun hid => by simp at hid, (h.once d).filter _⟩
    · exact h.once d

/-- Giving a blob a name that no other blob of its directory has keeps names distinct. -/
theorem Forest.relabelled (h : Forest s) (hb : s.blob? id = some b)
    (hnew : ∀ c ∈ s.childrenOf b.parent, c ≠ id → s.nameOf c ≠ name) :
    Forest (s.relabelled id b.parent name) := by
  have hid := ne_zero_of_blob? hb
  have hp := (h.parent hb).known
  refine ⟨h.toGrove.relabelled hb name, fun d => ?_⟩
  rw [childrenOf_relabelled hid hp]
  split
  · next hd =>
    subst hd
    rw [((insertSorted_perm _ _ _ _).map _).nodup_iff, List.map_cons, nameOf_relabelled hb,
      if_pos rfl, List.map_congr_left fun c hc => nameOf_relabelled_other hb hc, List.nodup_cons]
    refine ⟨?_, (List.filter_sublist.map _).nodup (h.distinct _)⟩
    intro hname
    obtain ⟨c, hc, hname⟩ := List.mem_map.mp hname
    obtain ⟨hc, hne⟩ := List.mem_filter.mp hc
    exact hnew c hc (by simpa using hne) hname
  · next hd =>
    rw [List.map_congr_left (h.nameOf_relabelled_elsewhere hb hd)]
    exact h.distinct d

/-- The names that lead to what is in a renamed blob have the new name in front. -/
theorem Forest.namesIn_relabelled (h : Forest s) (hb : s.blob? id = some b)
    (ht : Forest (s.relabelled id b.parent name)) (hd : s.Known d) :
    (s.relabelled id b.parent name).namesIn d
      = moved (s.namesIn id) (s.namesIn b.parent ++ [name]) (s.namesIn d) := by
  have hid := ne_zero_of_blob? hb
  have hshort : ¬ s.namesIn id <+: s.namesIn b.parent := by
    intro hp
    have hlength := hp.length_le
    rw [h.namesIn_eq hb, List.length_append, List.length_singleton] at hlength
    omega
  refine h.known_ind (P := fun d => (s.relabelled id b.parent name).namesIn d
    = moved (s.namesIn id) (s.namesIn b.parent ++ [name]) (s.namesIn d)) ?_ ?_ hd
  · rw [namesIn_zero, namesIn_zero, moved_of_not_front]
    rw [h.namesIn_eq hb]
    simp
  · intro j bj hbj ih
    obtain ⟨bj', hbj', heq⟩ := exists_blob?_relabelled hid b.parent name hbj
    rw [ht.namesIn_eq hbj', show bj'.parent = bj.parent from congrArg (·.parent) heq, ih,
      show bj'.name = _ from congrArg (·.name) heq]
    by_cases hj : j = id
    · subst hj
      rw [hb] at hbj
      obtain rfl := Option.some.inj hbj
      rw [if_pos rfl, moved_of_not_front hshort]
      simpa using (moved_append (s.namesIn j) (s.namesIn b.parent ++ [name]) []).symm
    · rw [if_neg hj, h.namesIn_eq hbj, moved_concat]
      rw [← h.namesIn_eq hbj]
      exact fun hnames => hj (h.namesIn_inj (.inr ⟨bj, hbj⟩) (.inr ⟨b, hb⟩) hnames.symm)

/-- In its directory a renamed blob has the new name, and nothing has the old one. -/
theorem Forest.child_relabelled_iff (h : Forest s) (hb : s.blob? id = some b) :
    (s.relabelled id b.parent name).Child d n dir ↔
      (d = b.parent ∧ n = name ∧ dir = b.isDirectory) ∨
        (s.Child d n dir ∧ ¬ (d = b.parent ∧ n = b.name)) := by
  have hid := ne_zero_of_blob? hb
  constructor
  · rintro ⟨c, bc, hbc, rfl, rfl, rfl⟩
    obtain ⟨b', hb', heq⟩ := of_blob?_relabelled hid hbc
    have hparent : bc.parent = b'.parent := congrArg (·.parent) heq
    have hdir : bc.isDirectory = b'.isDirectory := congrArg (·.isDirectory) heq
    have hname : bc.name = if c = id then name else b'.name := congrArg (·.name) heq
    by_cases hc : c = id
    · subst hc
      rw [hb] at hb'
      obtain rfl := Option.some.inj hb'
      exact .inl ⟨hparent, by simpa using hname, hdir⟩
    · rw [if_neg hc] at hname
      refine .inr ⟨⟨c, b', hb', hparent.symm, hname.symm, hdir.symm⟩, ?_⟩
      rintro ⟨hp, hn⟩
      exact hc (h.eq_of_name hb' hb (hparent.symm.trans hp) (hname.symm.trans hn))
  · rintro (⟨rfl, rfl, rfl⟩ | ⟨⟨c, bc, hbc, rfl, rfl, rfl⟩, hnot⟩)
    · obtain ⟨b', hb', heq⟩ := exists_blob?_relabelled hid b.parent n hb
      exact ⟨id, b', hb', congrArg (·.parent) heq, (congrArg (·.name) heq).trans (if_pos rfl),
        congrArg (·.isDirectory) heq⟩
    · obtain ⟨b', hb', heq⟩ := exists_blob?_relabelled hid b.parent name hbc
      have hc : c ≠ id := by
        rintro rfl
        rw [hb] at hbc
        obtain rfl := Option.some.inj hbc
        exact hnot ⟨rfl, rfl⟩
      exact ⟨c, b', hb', congrArg (·.parent) heq, (congrArg (·.name) heq).trans (if_neg hc),
        congrArg (·.isDirectory) heq⟩

theorem alike_repath (s : Session) (id : BlobId) : Alike s (s.repath id) := by
  unfold repath
  split
  · exact Alike.refl s
  · exact alike_mapBlob s id fun _ => rfl

theorem alike_foldl_repath (ids : List BlobId) (s : Session) : Alike s (ids.foldl repath s) := by
  induction ids generalizing s with
  | nil => exact Alike.refl s
  | cons id ids ih => exact (alike_repath s id).trans (ih _)

/-! ## Deleting a blob -/

/-- The session without the blob `id` of the directory `p` and everything inside it. -/
def pruned (s : Session) (id p : BlobId) : Session :=
  (s.everythingIn id).foldl drop (s.mapChildren p (·.filter (· != id)))

theorem blob?_drop (hid : id ≠ 0) (j : BlobId) :
    (s.drop id).blob? j = if j = id then none else s.blob? j := by
  obtain ⟨i, rfl⟩ := Nat.exists_eq_succ_of_ne_zero hid
  cases j with
  | zero => simp [blob?_zero]
  | succ j =>
    rw [blob?_succ, blob?_succ, drop, Nat.succ_sub_one, Array.getElem?_setIfInBounds]
    by_cases hj : i = j
    · subst hj
      rw [if_pos rfl, if_pos rfl]
      split <;> rfl
    · rw [if_neg hj, if_neg fun heq => hj (Nat.succ.inj heq).symm]

theorem blob?_foldl_drop {gone : List BlobId} (hgone : ∀ x ∈ gone, x ≠ 0) (s : Session)
    (j : BlobId) : (gone.foldl drop s).blob? j = if j ∈ gone then none else s.blob? j := by
  induction gone generalizing s with
  | nil => simp
  | cons x gone ih =>
    rw [List.foldl_cons, ih (fun y hy => hgone y (List.mem_cons_of_mem _ hy)),
      blob?_drop (hgone x List.mem_cons_self)]
    by_cases hj : j ∈ gone
    · simp [hj]
    · simp [hj]

theorem foldl_drop_frame (gone : List BlobId) (s : Session) :
    (gone.foldl drop s).top = s.top ∧ (gone.foldl drop s).root = s.root ∧
      (gone.foldl drop s).settings = s.settings := by
  induction gone generalizing s with
  | nil => exact ⟨rfl, rfl, rfl⟩
  | cons x gone ih => exact ih (s.drop x)

theorem pruned_frame (s : Session) (id p : BlobId) :
    (s.pruned id p).root = s.root ∧ (s.pruned id p).settings = s.settings := by
  obtain ⟨-, hroot, hsettings⟩ :=
    foldl_drop_frame (s.everythingIn id) (s.mapChildren p (·.filter (· != id)))
  have hfiltered := mapChildren_frame s p (·.filter (· != id))
  exact ⟨hroot.trans hfiltered.1, hsettings.trans hfiltered.2⟩

/-- What is left after a blob was deleted is what was not inside it. -/
theorem Grove.blob?_pruned (h : Grove s) (hb : s.blob? id = some b) (p j : BlobId) :
    (s.pruned id p).blob? j = if id ∈ s.ancestorsIn j then none
      else (s.mapChildren p (·.filter (· != id))).blob? j := by
  have hgone : ∀ x ∈ s.everythingIn id, x ≠ 0 := by
    intro x hx
    obtain ⟨⟨bx, hbx⟩, -⟩ := (h.mem_everythingIn_iff hb).mp hx
    exact ne_zero_of_blob? hbx
  refine (blob?_foldl_drop hgone _ j).trans ?_
  by_cases hknown : ∃ bj, s.blob? j = some bj
  · simp only [h.mem_everythingIn_iff hb, hknown, true_and]
  · have hnone : s.blob? j = none := Option.eq_none_iff_forall_ne_some.mpr
      fun bj hbj => hknown ⟨bj, hbj⟩
    rw [blob?_mapChildren, hnone]
    simp

theorem Grove.of_blob?_pruned (h : Grove s) (hb : s.blob? id = some b) {j : BlobId} {bj : Blob}
    (hbj : (s.pruned id p).blob? j = some bj) :
    id ∉ s.ancestorsIn j ∧ ∃ b', s.blob? j = some b' ∧ header b' = header bj := by
  rw [h.blob?_pruned hb] at hbj
  split at hbj
  · cases hbj
  · next hnot =>
    have hheader := header_mapChildren s p (·.filter (· != id)) j
    rw [hbj] at hheader
    exact ⟨hnot, Option.map_eq_some_iff.mp hheader.symm⟩

theorem Grove.exists_blob?_pruned (h : Grove s) (hb : s.blob? id = some b) (p : BlobId)
    {j : BlobId} {bj : Blob} (hbj : s.blob? j = some bj) (hnot : id ∉ s.ancestorsIn j) :
    ∃ b', (s.pruned id p).blob? j = some b' ∧ header b' = header bj := by
  have hheader := header_mapChildren s p (·.filter (· != id)) j
  rw [hbj] at hheader
  rw [h.blob?_pruned hb, if_neg hnot]
  exact Option.map_eq_some_iff.mp hheader

theorem Grove.directory_pruned_iff (h : Grove s) (hb : s.blob? id = some b) (p : BlobId) :
    (s.pruned id p).Directory d ↔ s.Directory d ∧ id ∉ s.ancestorsIn d := by
  constructor
  · rintro (rfl | ⟨bd, hbd, hdir⟩)
    · exact ⟨.inl rfl, List.not_mem_nil⟩
    · obtain ⟨hnot, b', hb', heq⟩ := h.of_blob?_pruned hb hbd
      exact ⟨.inr ⟨b', hb', (congrArg (·.isDirectory) heq).trans hdir⟩, hnot⟩
  · rintro ⟨rfl | ⟨bd, hbd, hdir⟩, hnot⟩
    · exact .inl rfl
    · obtain ⟨b', hb', heq⟩ := h.exists_blob?_pruned hb p hbd hnot
      exact .inr ⟨b', hb', (congrArg (·.isDirectory) heq).trans hdir⟩

theorem Grove.childrenOf_pruned (h : Grove s) (hb : s.blob? id = some b) (hp : s.Known p)
    (d : BlobId) : (s.pruned id p).childrenOf d = if id ∈ s.ancestorsIn d then []
      else if d = p then (s.childrenOf d).filter (· != id) else s.childrenOf d := by
  rw [← childrenOf_mapChildren hp (·.filter (· != id))]
  by_cases hzero : d = 0
  · subst hzero
    rw [ancestorsIn_zero, if_neg List.not_mem_nil]
    exact (foldl_drop_frame _ _).1
  · rw [childrenOf, childrenOf, if_neg hzero, if_neg hzero, h.blob?_pruned hb]
    split <;> rfl

/-- A blob is in a deleted one if its directory is, or if it is the deleted one. -/
theorem Grove.mem_ancestorsIn_child (h : Grove s) (hb : s.blob? c = some b) :
    id ∈ s.ancestorsIn c ↔ id ∈ s.ancestorsIn b.parent ∨ c = id := by
  rw [h.ancestorsIn_eq hb, List.mem_append, List.mem_singleton, eq_comm]

theorem Grove.mem_childrenOf_pruned (h : Grove s) (hb : s.blob? id = some b) :
    c ∈ (s.pruned id b.parent).childrenOf d ↔ c ∈ s.childrenOf d ∧ id ∉ s.ancestorsIn c := by
  have hin : c ∈ s.childrenOf d →
      (id ∉ s.ancestorsIn c ↔ id ∉ s.ancestorsIn d ∧ c ≠ id) := by
    intro hc
    obtain ⟨bc, hbc, rfl⟩ := h.children.mp hc
    rw [h.mem_ancestorsIn_child hbc, not_or]
  rw [and_congr_right hin, h.childrenOf_pruned hb (h.parent hb).known]
  split
  · next hgone => simp [hgone]
  · next hleft =>
    split
    · simp [hleft]
    · next hd =>
      have hne : c ∈ s.childrenOf d → c ≠ id := by
        rintro hc rfl
        obtain ⟨b', hb', rfl⟩ := h.children.mp hc
        rw [hb] at hb'
        exact hd (Option.some.inj hb' ▸ rfl)
      simp only [hleft, not_false_eq_true, true_and]
      exact ⟨fun hc => ⟨hc, hne hc⟩, fun hc => hc.1⟩

theorem Grove.ancestorsIn_pruned (h : Grove s) (hb : s.blob? id = some b) (p : BlobId)
    (hd : s.Known d) (hnot : id ∉ s.ancestorsIn d) :
    (s.pruned id p).ancestorsIn d = s.ancestorsIn d := by
  rcases hd with rfl | ⟨bd, hbd⟩
  · rfl
  · obtain ⟨b', hb', heq⟩ := h.exists_blob?_pruned hb p hbd hnot
    rw [ancestorsIn_of_blob? hb', ancestorsIn_of_blob? hbd]
    exact congrArg (· ++ [d]) (congrArg (·.ancestors) heq)

theorem Grove.nameOf_pruned (h : Grove s) (hb : s.blob? id = some b) :
    ∀ c ∈ (s.pruned id b.parent).childrenOf d,
      (s.pruned id b.parent).nameOf c = s.nameOf c := by
  intro c hc
  obtain ⟨hc, hnot⟩ := (h.mem_childrenOf_pruned hb).mp hc
  obtain ⟨bc, hbc, -⟩ := h.children.mp hc
  obtain ⟨b', hb', heq⟩ := h.exists_blob?_pruned hb b.parent hbc hnot
  rw [nameOf_of_blob? hb', nameOf_of_blob? hbc]
  exact congrArg (·.name) heq

theorem Grove.childrenOf_pruned_sublist (h : Grove s) (hb : s.blob? id = some b) (d : BlobId) :
    ((s.pruned id b.parent).childrenOf d).Sublist (s.childrenOf d) := by
  rw [h.childrenOf_pruned hb (h.parent hb).known]
  split
  · exact List.nil_sublist _
  · split
    · exact List.filter_sublist
    · exact List.Sublist.refl _

/-- Dropping a blob with everything inside it keeps the trees. -/
theorem Grove.pruned (h : Grove s) (hb : s.blob? id = some b) : Grove (s.pruned id b.parent) := by
  -- what is left is in directories that are left
  have hleft : ∀ {j b'}, s.blob? j = some b' → id ∉ s.ancestorsIn j →
      id ∉ s.ancestorsIn b'.parent :=
    fun hb' hnot hin => hnot ((h.mem_ancestorsIn_child hb').mpr (.inl hin))
  -- the seven fields in order: a blob that is left keeps all that it said
  refine ⟨?_, ?_, ?_, ?_, ?_, ?_, ?_⟩
  · intro j bj hbj
    obtain ⟨-, b', hb', heq⟩ := h.of_blob?_pruned hb hbj
    rw [← show b'.id = bj.id from congrArg (·.id) heq]
    exact h.numbered hb'
  · intro j bj hbj
    obtain ⟨hnot, b', hb', heq⟩ := h.of_blob?_pruned hb hbj
    rw [← show b'.parent = bj.parent from congrArg (·.parent) heq, h.directory_pruned_iff hb]
    exact ⟨h.parent hb', hleft hb' hnot⟩
  · intro j bj hbj
    obtain ⟨-, b', hb', heq⟩ := h.of_blob?_pruned hb hbj
    rw [← show b'.parent = bj.parent from congrArg (·.parent) heq]
    exact h.below hb'
  · intro j bj hbj
    obtain ⟨hnot, b', hb', heq⟩ := h.of_blob?_pruned hb hbj
    rw [← show b'.parent = bj.parent from congrArg (·.parent) heq,
      ← show b'.ancestors = bj.ancestors from congrArg (·.ancestors) heq,
      h.ancestorsIn_pruned hb _ (h.parent hb').known (hleft hb' hnot), h.ancestors hb']
  · intro d c
    rw [h.mem_childrenOf_pruned hb, h.children]
    constructor
    · rintro ⟨⟨bc, hbc, rfl⟩, hnot⟩
      obtain ⟨b', hb', heq⟩ := h.exists_blob?_pruned hb b.parent hbc hnot
      exact ⟨b', hb', congrArg (·.parent) heq⟩
    · rintro ⟨bc, hbc, rfl⟩
      obtain ⟨hnot, b', hb', heq⟩ := h.of_blob?_pruned hb hbc
      exact ⟨⟨b', hb', congrArg (·.parent) heq⟩, hnot⟩
  · intro d
    rw [List.map_congr_left (h.nameOf_pruned hb)]
    exact (h.sorted d).sublist ((h.childrenOf_pruned_sublist hb d).map _)
  · intro d
    exact (h.once d).sublist (h.childrenOf_pruned_sublist hb d)

/-- Dropping a blob with everything inside it keeps names distinct. -/
theorem Forest.pruned (h : Forest s) (hb : s.blob? id = some b) :
    Forest (s.pruned id b.parent) where
  toGrove := h.toGrove.pruned hb
  distinct := by
    intro d
    rw [List.map_congr_left (h.nameOf_pruned hb)]
    exact (h.distinct d).sublist ((h.childrenOf_pruned_sublist hb d).map _)

theorem Grove.namesIn_pruned (h : Grove s) (hb : s.blob? id = some b)
    (hd : (s.pruned id b.parent).Known d) : (s.pruned id b.parent).namesIn d = s.namesIn d := by
  refine h.namesIn_congr (h.pruned hb) ?_ hd
  intro j bj hbj
  obtain ⟨-, b', hb', heq⟩ := h.of_blob?_pruned hb hbj
  exact ⟨b', hb', congrArg (·.parent) heq, congrArg (·.name) heq⟩

/-- A directory that is left has what it had but the deleted blob. -/
theorem Forest.child_pruned_iff (h : Forest s) (hb : s.blob? id = some b)
    (hnot : id ∉ s.ancestorsIn d) : (s.pruned id b.parent).Child d n dir ↔
      s.Child d n dir ∧ ¬ (d = b.parent ∧ n = b.name) := by
  constructor
  · rintro ⟨c, bc, hbc, rfl, rfl, rfl⟩
    obtain ⟨hc, b', hb', heq⟩ := h.of_blob?_pruned hb hbc
    have hparent : b'.parent = bc.parent := congrArg (·.parent) heq
    have hname : b'.name = bc.name := congrArg (·.name) heq
    refine ⟨⟨c, b', hb', hparent, hname, congrArg (·.isDirectory) heq⟩, ?_⟩
    rintro ⟨hp, hn⟩
    obtain rfl := h.eq_of_name hb' hb (hparent.trans hp) (hname.trans hn)
    exact hc (h.mem_ancestorsIn_self hb)
  · rintro ⟨⟨c, bc, hbc, rfl, rfl, rfl⟩, hother⟩
    have hc : id ∉ s.ancestorsIn c := by
      rw [h.mem_ancestorsIn_child hbc]
      rintro (hin | rfl)
      · exact hnot hin
      · rw [hb] at hbc
        obtain rfl := Option.some.inj hbc
        exact hother ⟨rfl, rfl⟩
    obtain ⟨b', hb', heq⟩ := h.exists_blob?_pruned hb b.parent hbc hc
    exact ⟨c, b', hb', congrArg (·.parent) heq, congrArg (·.name) heq, congrArg (·.isDirectory) heq⟩

end Storyline.Session
