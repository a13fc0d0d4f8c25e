import Mathlib.Data.List.Basic
import Storyline.Session.Open

/-!
# Blobs of a session

What the operations that change blobs do to the blob with each number, and what follows for a walk
through a storage: what adding a blob keeps, opening a project keeps (`scan_keeps`).
-/

namespace Storyline.Session

/-! ## Blobs by number -/

theorem blob?_zero (s : Session) : s.blob? 0 = none := rfl

theorem blob?_succ (s : Session) (i : Nat) : s.blob? (i + 1) = (s.blobs[i]?).join := by
  simp [blob?]

theorem ne_zero_of_blob? {s : Session} {id : BlobId} {b : Blob} (h : s.blob? id = some b) :
    id ≠ 0 := by
  rintro rfl
  simp [blob?_zero] at h

theorem le_size_of_blob? {s : Session} {id : BlobId} {b : Blob} (h : s.blob? id = some b) :
    id ≤ s.blobs.size := by
  cases id with
  | zero => exact Nat.zero_le _
  | succ i =>
    rw [blob?_succ] at h
    by_contra hle
    have hsize : s.blobs.size ≤ i := Nat.le_of_lt_succ (Nat.lt_of_not_le hle)
    simp [Array.getElem?_eq_none hsize] at h

theorem blob?_mapBlob {s : Session} {id : BlobId} (h0 : id ≠ 0) (f : Blob → Blob) (j : BlobId) :
    (s.mapBlob id f).blob? j = if j = id then (s.blob? j).map f else s.blob? j := by
  cases j with
  | zero => simp [blob?_zero]
  | succ j =>
    rw [blob?_succ, blob?_succ, mapBlob, Array.getElem?_modify]
    by_cases hj : j + 1 = id
    · have hpred : id - 1 = j := by
        rw [← hj]
        rfl
      rw [if_pos hj, if_pos hpred]
      cases s.blobs[j]? with
      | none => rfl
      | some b => rfl
    · have hpred : ¬id - 1 = j := by
        rintro rfl
        exact hj (Nat.succ_pred_eq_of_ne_zero h0)
      rw [if_neg hj, if_neg hpred]

@[simp] theorem mapBlob_storage (s : Session) (id : BlobId) (f : Blob → Blob) :
    (s.mapBlob id f).storage = s.storage := rfl

@[simp] theorem mapBlob_root (s : Session) (id : BlobId) (f : Blob → Blob) :
    (s.mapBlob id f).root = s.root := rfl

@[simp] theorem mapBlob_settings (s : Session) (id : BlobId) (f : Blob → Blob) :
    (s.mapBlob id f).settings = s.settings := rfl

@[simp] theorem mapBlob_top (s : Session) (id : BlobId) (f : Blob → Blob) :
    (s.mapBlob id f).top = s.top := rfl

@[simp] theorem mapBlob_store (s : Session) (id : BlobId) (f : Blob → Blob) :
    (s.mapBlob id f).store = s.store := rfl

@[simp] theorem mapBlob_size (s : Session) (id : BlobId) (f : Blob → Blob) :
    (s.mapBlob id f).blobs.size = s.blobs.size := by
  simp [mapBlob]

theorem blob?_mapChildren (s : Session) (id : BlobId) (f : List BlobId → List BlobId)
    (j : BlobId) :
    (s.mapChildren id f).blob? j = (s.blob? j).map fun b =>
      if j = id then { b with children := f b.children } else b := by
  unfold mapChildren
  by_cases h0 : id = 0
  · subst h0
    rw [if_pos rfl]
    cases j with
    | zero => rfl
    | succ j => simp [blob?_succ]
  · rw [if_neg h0, blob?_mapBlob h0]
    by_cases hj : j = id
    · simp [hj]
    · simp [hj]

@[simp] theorem mapChildren_size (s : Session) (id : BlobId) (f : List BlobId → List BlobId) :
    (s.mapChildren id f).blobs.size = s.blobs.size := by
  unfold mapChildren
  split
  · rfl
  · exact mapBlob_size _ _ _

/-- The directories around what is in a directory. -/
def ancestorsIn (s : Session) (parent : BlobId) : List BlobId :=
  if parent = 0 then [] else ((s.blob? parent).map (·.ancestors)).getD [] ++ [parent]

theorem blob?_alloc (s : Session) (name : Bytes) (parent : BlobId) (isDirectory : Bool)
    (j : BlobId) :
    (s.alloc name parent isDirectory).2.blob? j
      = if j = s.blobs.size + 1 then
          some { id := j, name, parent, ancestors := s.ancestorsIn parent, isDirectory }
        else (s.blob? j).map fun b =>
          if j = parent then
            { b with children := s.insertSorted (s.blobs.size + 1) name b.children }
          else b := by
  rw [← blob?_mapChildren s parent (s.insertSorted (s.blobs.size + 1) name) j]
  cases j with
  | zero => rfl
  | succ j =>
    rw [blob?_succ, blob?_succ]
    show ((Array.push _ _)[j]?).join = _
    rw [Array.getElem?_push, mapChildren_size]
    by_cases hj : j = s.blobs.size
    · simp [hj, ancestorsIn]
    · simp [hj]

/-! ## The walk through a storage -/

/-- What each step of a chain of steps keeps, the chain keeps. -/
theorem foldlM_keeps {α β ε : Type} {P : β → Prop} {f : β → α → Except ε β} : (es : List α) →
    (∀ e ∈ es, ∀ {s u}, f s e = .ok u → P s → P u) → {s t : β} → es.foldlM f s = .ok t →
    P s → P t
  | [], _, s, t, h, hs => by
    obtain rfl : s = t := by simpa [pure, Except.pure] using h
    exact hs
  | e :: es, hf, s, t, h, hs => by
    rw [List.foldlM_cons] at h
    cases he : f s e with
    | error _ => simp [he, bind, Except.bind] at h
    | ok u =>
      have hrest : es.foldlM f u = .ok t := by simpa [he, bind, Except.bind] using h
      exact foldlM_keeps es (fun x hx => hf x (List.mem_cons_of_mem _ hx)) hrest
        (hf e List.mem_cons_self he hs)

/-- Whether a walk passes over a listed name. -/
def isPassed (settings : Settings) (e : Storage.Listed) : Bool :=
  e.name.head? = some ('.' : UInt8) || (!e.isDirectory && !settings.extension.isSuffixOf e.name)

theorem scanEntry_eq (below : BlobId → Bytes → Session → Except Error Session) (parent : BlobId)
    (directory : Bytes) (s : Session) (e : Storage.Listed) :
    scanEntry below parent directory s e
      = if isPassed s.settings e then .ok s
        else if e.isDirectory then
          below (s.blobs.size + 1) (Storage.child directory e.name)
            (s.alloc e.name parent e.isDirectory).2
        else .ok (s.alloc e.name parent e.isDirectory).2 := by
  unfold scanEntry isPassed
  by_cases hdot : e.name.head? = some ('.' : UInt8)
  · simp [hdot]
  · by_cases hext : (!e.isDirectory && !s.settings.extension.isSuffixOf e.name) = true
    · simp [hdot, hext]
    · simp only [hdot, if_false, hext, decide_false, Bool.false_or]
      rfl

theorem scan_ok {fuel : Nat} {parent : BlobId} {directory : Bytes} {s t : Session}
    (h : scan (fuel + 1) parent directory s = .ok t) :
    ∃ entries, s.storage.list directory = .ok entries ∧
      entries.foldlM (scanEntry (scan fuel) parent directory) s = .ok t := by
  unfold scan at h
  split at h
  · simp at h
  · rename_i entries hl
    exact ⟨entries, hl, h⟩

/-- What adding a blob keeps, the walk through a storage keeps. -/
theorem scan_keeps {P : Session → Prop}
    (halloc : ∀ s name parent isDirectory, P s → P (s.alloc name parent isDirectory).2) :
    (fuel : Nat) → {parent : BlobId} → {directory : Bytes} → {s t : Session} →
    scan fuel parent directory s = .ok t → P s → P t
  | 0, _, _, s, t, h, hs => by
    obtain rfl : s = t := by simpa [scan] using h
    exact hs
  | fuel + 1, parent, directory, s, t, h, hs => by
    obtain ⟨entries, -, h⟩ := scan_ok h
    refine foldlM_keeps entries (fun e _ {s u} hu hs => ?_) h hs
    have ha := halloc s e.name parent e.isDirectory hs
    rw [scanEntry_eq] at hu
    split at hu
    · obtain rfl : s = u := by simpa using hu
      exact hs
    · split at hu
      · exact scan_keeps halloc fuel hu ha
      · obtain rfl : (s.alloc e.name parent e.isDirectory).2 = u := by simpa using hu
        exact ha

/-! ## The same walk through another storage -/

/-- The session on another storage. -/
def withStorage (s : Session) (storage : Storage) : Session := { s with storage }

theorem alloc_withStorage (s : Session) (storage : Storage) (name : Bytes) (parent : BlobId)
    (isDirectory : Bool) :
    (s.withStorage storage).alloc name parent isDirectory
      = ((s.alloc name parent isDirectory).1,
          (s.alloc name parent isDirectory).2.withStorage storage) := by
  unfold alloc mapChildren
  split <;> rfl

theorem alloc_storage (s : Session) (name : Bytes) (parent : BlobId) (isDirectory : Bool) :
    (s.alloc name parent isDirectory).2.storage = s.storage := by
  unfold alloc mapChildren
  split <;> rfl

theorem scan_storage {fuel : Nat} {parent : BlobId} {directory : Bytes} {s t : Session}
    (h : scan fuel parent directory s = .ok t) : t.storage = s.storage :=
  scan_keeps (P := fun u => u.storage = s.storage)
    (fun u name parent isDirectory hu => (alloc_storage u name parent isDirectory).trans hu)
    fuel h rfl

/-- Storages that list the same give the same blobs. -/
theorem scan_withStorage {storage storage' : Storage}
    (hlist : ∀ d, storage'.list d = storage.list d) : (fuel : Nat) → (parent : BlobId) →
    (directory : Bytes) → {s : Session} → s.storage = storage →
    scan fuel parent directory (s.withStorage storage')
      = (scan fuel parent directory s).map (·.withStorage storage')
  -- By induction on the depth, and in each directory on its entries: the storage is only listed.
  | 0, _, _, _, _ => rfl
  | fuel + 1, parent, directory, s, hs => by
    unfold scan
    rw [hs, show (s.withStorage storage').storage = storage' from rfl, hlist]
    cases storage.list directory with
    | error e => rfl
    | ok entries =>
      show entries.foldlM (scanEntry (scan fuel) parent directory) (s.withStorage storage')
        = (entries.foldlM (scanEntry (scan fuel) parent directory) s).map (·.withStorage storage')
      induction entries generalizing s with
      | nil => rfl
      | cons e es ih =>
        have hstep : scanEntry (scan fuel) parent directory (s.withStorage storage') e
            = (scanEntry (scan fuel) parent directory s e).map (·.withStorage storage') := by
          rw [scanEntry_eq, scanEntry_eq, alloc_withStorage]
          have hrec := scan_withStorage hlist fuel (s.blobs.size + 1)
            (Storage.child directory e.name)
            ((alloc_storage s e.name parent e.isDirectory).trans hs)
          show (if isPassed s.settings e then _ else _) = _
          split
          · rfl
          · split
            · exact hrec
            · rfl
        rw [List.foldlM_cons, List.foldlM_cons, hstep]
        cases he : scanEntry (scan fuel) parent directory s e with
        | error _ => rfl
        | ok u =>
          refine ih u ?_
          rw [scanEntry_eq] at he
          split at he
          · obtain rfl : s = u := by simpa using he
            exact hs
          · have ha := (alloc_storage s e.name parent e.isDirectory).trans hs
            -- a directory was scanned, a file only got its blob
            split at he
            · exact (scan_storage he).trans ha
            · obtain rfl : (s.alloc e.name parent e.isDirectory).2 = u := by simpa using he
              exact ha

end Storyline.Session
