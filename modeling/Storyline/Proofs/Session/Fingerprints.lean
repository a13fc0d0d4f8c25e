import Storyline.Proofs.Session.Provenance

/-!
# Fingerprints tell projects apart

The fingerprint of a project is one text in which its files follow one another: of each the path, a
NUL and the hash of what it holds.  Where a file ends in it is not written down.  But a path without
a NUL ends at the first one, and a hash has thirty-two bytes, whatever these are; so the text is
read from the left in one way only (`entries_inj`), and projects with one fingerprint have the same
files with the same hashes, in the same order (`fingerprint_separates`).

The names of directories count as much as those of files: both stand in paths.
-/

namespace Storyline

/-! ## Hashes -/

theorem Digest.length_ofBytes (text : Bytes) : (Digest.ofBytes text).bytes.length = 32 := rfl

/-- The hash of what a file holds. -/
def Blob.hash (b : Blob) : Digest := .ofBytes b.text

theorem Blob.hash_eq {b : Blob} {c : StoryFile} (h : b.story = some c) :
    b.hash = c.file.digest := by
  rw [hash, text, h]
  rfl

namespace Session

/-! ## Entries one after the other -/

/-- What the fingerprint says of a file with some path and hash. -/
def entryText (e : Bytes × Digest) : Bytes := e.1 ++ 0 :: e.2.bytes

/-- A text is known up to the first NUL from what it begins. -/
theorem append_nul_inj {p q r s : Bytes} (hp : (0 : UInt8) ∉ p) (hq : (0 : UInt8) ∉ q)
    (h : p ++ 0 :: r = q ++ 0 :: s) : p = q ∧ r = s := by
  have hsplit := congrArg (Bytes.splitOnByte 0) h
  rw [Bytes.splitOnByte_append, Bytes.splitOnByte_append, Bytes.splitOnByte_of_not_mem hp,
    Bytes.splitOnByte_of_not_mem hq] at hsplit
  obtain rfl : p = q := List.head_eq_of_cons_eq hsplit
  exact ⟨rfl, List.tail_eq_of_cons_eq (List.append_cancel_left h)⟩

/-- The entries of files, with no NUL in their paths and hashes of thirty-two bytes, are known from
the text of all of them. -/
theorem entries_inj {es fs : List (Bytes × Digest)}
    (hes : ∀ e ∈ es, (0 : UInt8) ∉ e.1 ∧ e.2.bytes.length = 32)
    (hfs : ∀ f ∈ fs, (0 : UInt8) ∉ f.1 ∧ f.2.bytes.length = 32)
    (h : es.flatMap entryText = fs.flatMap entryText) : es = fs := by
  -- no entry is empty, so that both lists end at once
  have hnonempty (e : Bytes × Digest) (rest : Bytes) : entryText e ++ rest ≠ [] := by
    simp [entryText]
  induction es generalizing fs with
  | nil =>
    cases fs with
    | nil => rfl
    | cons f fs => exact absurd h.symm (hnonempty f _)
  | cons e es ih =>
    cases fs with
    | nil => exact absurd h (hnonempty e _)
    | cons f fs =>
      obtain ⟨⟨hpath, hhash⟩, hes'⟩ := List.forall_mem_cons.mp hes
      obtain ⟨⟨hpath', hhash'⟩, hfs'⟩ := List.forall_mem_cons.mp hfs
      simp only [List.flatMap_cons, entryText, List.append_assoc, List.cons_append] at h
      obtain ⟨hpaths, hbehind⟩ := append_nul_inj hpath hpath' h
      obtain ⟨hhashes, hrest⟩ := List.append_inj hbehind (hhash.trans hhash'.symm)
      obtain ⟨path, ⟨hash⟩⟩ := e
      obtain ⟨path', ⟨hash'⟩⟩ := f
      obtain rfl : path = path' := hpaths
      obtain rfl : hash = hash' := hhashes
      rw [ih hes' hfs' hrest]

/-! ## The files of a session -/

variable {s t : Session}

/-- A session that came about by opening a project, whatever happened to it since. -/
def Reachable (s : Session) : Prop :=
  ∃ (storage : Storage) (root : Bytes) (settings : Settings) (opened : Session)
    (events : List Event), openProject storage root settings = .ok opened ∧
      s = opened.afterEvents events

/-- The path and the hash of each file, in the order of their numbers. -/
def entries (s : Session) : List (Bytes × Digest) := s.files.map fun b => (s.pathOf b, b.hash)

/-- Every file of a session was read. -/
theorem Reachable.read (h : s.Reachable) {b : Blob} (hb : b ∈ s.files) :
    ∃ c, b.story = some c := by
  obtain ⟨storage, root, settings, opened, events, hopen, rfl⟩ := h
  obtain ⟨id, hb, hfile⟩ := mem_files_iff.mp hb
  obtain ⟨-, hsourced, -⟩ := backed_afterEvents hopen events
  obtain ⟨c, hc, -⟩ := hsourced id b hb hfile
  exact ⟨c, hc⟩

/-- So the fingerprint is made of the entries of all files. -/
theorem Reachable.fingerprint_eq (h : s.Reachable) :
    s.fingerprint = s.entries.flatMap entryText := by
  have hentry : ∀ p ∈ s.files.zipIdx, (p.1.story.map fun c => (p.2, p.1, c)).map
      (fun q => s.pathOf q.2.1 ++ 0 :: q.2.2.file.digest.bytes)
        = some (entryText (s.pathOf p.1, p.1.hash)) := by
    intro p hp
    obtain ⟨c, hc⟩ := h.read (List.fst_mem_of_mem_zipIdx hp)
    rw [hc, entryText, Blob.hash_eq hc]
    rfl
  calc s.fingerprint
      = (s.files.zipIdx.map fun p => entryText (s.pathOf p.1, p.1.hash)).flatten := by
        rw [fingerprint, contents, List.flatMap_def, List.map_filterMap]
        exact congrArg List.flatten
          ((List.filterMap_congr hentry).trans (congrFun List.filterMap_eq_map' _))
    _ = s.entries.flatMap entryText := by
        have hfiles : s.files.zipIdx.map Prod.fst = s.files := List.zipIdx_map_fst 0 s.files
        rw [entries, List.flatMap_def, List.map_map]
        conv_rhs => rw [← hfiles, List.map_map]
        rfl

theorem entries_sound (plain : ∀ b ∈ s.files, (0 : UInt8) ∉ s.pathOf b) :
    ∀ e ∈ s.entries, (0 : UInt8) ∉ e.1 ∧ e.2.bytes.length = 32 := by
  intro e he
  obtain ⟨b, hb, rfl⟩ := List.mem_map.mp he
  exact ⟨plain b hb, Digest.length_ofBytes _⟩

/-- Two sessions with no NUL in the path of any file have one fingerprint exactly if they have as
many files, and in the order of their numbers these have the same paths and the same hashes. -/
theorem fingerprint_separates (hs : s.Reachable) (ht : t.Reachable)
    (plain : ∀ b ∈ s.files, (0 : UInt8) ∉ s.pathOf b)
    (plain' : ∀ b ∈ t.files, (0 : UInt8) ∉ t.pathOf b) :
    s.fingerprint = t.fingerprint ↔
      s.files.length = t.files.length ∧ s.files.map s.pathOf = t.files.map t.pathOf ∧
        s.files.map Blob.hash = t.files.map Blob.hash := by
  have hpaths (u : Session) : u.entries.map Prod.fst = u.files.map u.pathOf := List.map_map
  have hhashes (u : Session) : u.entries.map Prod.snd = u.files.map Blob.hash := List.map_map
  rw [hs.fingerprint_eq, ht.fingerprint_eq]
  constructor
  · intro h
    have hentries : s.entries = t.entries :=
      entries_inj (entries_sound plain) (entries_sound plain') h
    have hlength := congrArg List.length hentries
    rw [entries, entries, List.length_map, List.length_map] at hlength
    refine ⟨hlength, ?_, ?_⟩
    · rw [← hpaths, ← hpaths, hentries]
    · rw [← hhashes, ← hhashes, hentries]
  · rintro ⟨-, hp, hh⟩
    have hentries : s.entries = t.entries := by
      rw [entries, entries, ← List.zip_map', ← List.zip_map', hp, hh]
    rw [hentries]

/-- A project that was opened, and one whose first file got the same text only later. -/
theorem fingerprint_separates_twoFiles :
    let s := twoOpened "A\n" "B\n"
    let t := (twoOpened "X\n" "B\n").afterEvents [.recompile 1 "A\n"]
    s.Reachable ∧ t.Reachable ∧ (∀ b ∈ s.files, (0 : UInt8) ∉ s.pathOf b) ∧
      (∀ b ∈ t.files, (0 : UInt8) ∉ t.pathOf b) ∧ s.fingerprint = t.fingerprint ∧
      s.files.map s.pathOf = ["a.story", "b.story"] := by
  intro s t
  have hs : s.Reachable := ⟨_, _, _, _, [], open_twoFiles "A\n" "B\n", rfl⟩
  have ht : t.Reachable := ⟨_, _, _, _, _, open_twoFiles "X\n" "B\n", rfl⟩
  have hpaths : s.files.map s.pathOf = ["a.story", "b.story"] := by decide
  have hpaths' : t.files.map t.pathOf = ["a.story", "b.story"] := by decide
  have htexts : s.files.map Blob.text = t.files.map Blob.text := by decide
  have hplain : ∀ b ∈ s.files, (0 : UInt8) ∉ s.pathOf b := by decide
  have hplain' : ∀ b ∈ t.files, (0 : UInt8) ∉ t.pathOf b := by decide
  have hhashes : s.files.map Blob.hash = t.files.map Blob.hash := by
    have hhash : Blob.hash = Digest.ofBytes ∘ Blob.text := rfl
    rw [hhash, ← List.map_map, ← List.map_map, htexts]
  have hlength : s.files.length = t.files.length := by
    simpa using congrArg List.length htexts
  exact ⟨hs, ht, hplain, hplain', (fingerprint_separates hs ht hplain hplain').mpr
    ⟨hlength, hpaths.trans hpaths'.symm, hhashes⟩, hpaths⟩

end Session

end Storyline
