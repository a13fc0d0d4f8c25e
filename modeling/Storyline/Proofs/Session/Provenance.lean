import Storyline.Proofs.Diagnostic.Bounds
import Storyline.Proofs.Markup.Agreement
import Storyline.Proofs.Session.Arena
import Storyline.Proofs.Variables.Origins

/-!
# Where the variables of a session come from

Every assignment that a session knows of belongs to one of its files, lies inside what that file
holds now, and on a global stands at the name of the variable (`assignments_stand`).

The words of a script stand in its file where they stand in the script, moved by where the script
starts (`Story.standsIn_of_makes`).  What a session has read of its files are its pages; the path of
a source does not belong to them, so that renaming turns no page.  `Backed` is the invariant: every
page is what reading a text gave, and every assignment stands on the page of its file.
-/

namespace Storyline

open Variables (Assignment Fragment Store VarId Variable)

/-! ## Scripts inside a file -/

/-- A part of what is cut out is cut out of the whole. -/
theorem Content.slice_slice (c : Content) {start stop i j : Nat}
    (h : j ≤ (c.slice start stop).length) :
    Content.slice (c.slice start stop).toArray i j = c.slice (i + start) (j + start) := by
  simp only [Content.slice, Array.toList_extract, List.extract_eq_take_drop] at h ⊢
  simp only [List.length_take, List.length_drop] at h
  rw [List.drop_take, List.drop_drop, List.take_take, Nat.add_comm start i,
    show min (j - i) (stop - start - i) = j + start - (i + start) by omega]

/-- A word of a script is a word of the file. -/
theorem Markup.ScriptRef.Exact.text_shift {f : File} {r : Markup.ScriptRef} (h : r.Exact f)
    (small : f.size < Word.modulus) {span : Span} {text : Bytes}
    (hstands : (Script.Window.whole r.raw f.id).Stands span text) :
    (span.shift r.span.start f.id).Within f.id f.size ∧
      f.text (span.shift r.span.start f.id) = text := by
  have hlength : r.raw.length = r.span.stop - r.span.start := by
    rw [← h.raw, File.length_text_of_in h.span]
  have hwithin : span.stop ≤ r.raw.length := by
    simpa [Script.Window.whole] using hstands.within
  have hordered := h.span.ordered
  have hinside := h.span.within
  have hspan : span.Within f.id r.raw.length :=
    ⟨hstands.file, Nat.le_of_lt hstands.nonempty, hwithin⟩
  have hshift : (span.shift r.span.start f.id).Within f.id f.size := hspan.shift (by omega) small
  refine ⟨hshift, ?_⟩
  have hcut : f.content.slice r.span.start r.span.stop = r.raw := by
    rw [← h.raw, File.text, Nat.min_eq_left hinside]
  have hstart : Word.add span.start r.span.start = span.start + r.span.start :=
    Nat.mod_eq_of_lt (by have := hstands.nonempty; omega)
  have hstop : Word.add span.stop r.span.start = span.stop + r.span.start :=
    Nat.mod_eq_of_lt (by omega)
  have htext := hstands.text
  simp only [Script.Window.whole] at htext
  rw [File.text, Nat.min_eq_left hshift.within]
  simp only [Span.shift, hstart, hstop]
  rw [← Content.slice_slice f.content (by rw [hcut]; exact hwithin), hcut, htext]

/-- An assignment of a variable that stands in a file. -/
structure Variables.Assignment.StandsIn (a : Assignment) (v : Variable) (f : File) : Prop where
  span : a.span.Within a.origin f.size
  name : v.owner = 0 → f.text a.span = v.name

namespace Story

variable {settings : Settings} {id : FileId} {path text : Bytes}

/-- The scripts that a story is folded with are those of its document. -/
theorem exists_script_of_mem_fragments {f : Fragment}
    (hf : f ∈ (ofText settings id path text).fragments) :
    ∃ r ∈ (ofText settings id path text).document.scripts,
      f = (parseScript settings.maxDiagnostics.toNat id r).1 := by
  simp only [fragments, ofText, List.map_map, List.mem_map, Function.comp_apply] at hf ⊢
  obtain ⟨r, hr, rfl⟩ := hf
  exact ⟨r, hr, rfl⟩

theorem known_of_mem_scripts (small : (ofText settings id path text).file.size < Word.modulus)
    {r : Markup.ScriptRef} (hr : r ∈ (ofText settings id path text).document.scripts) :
    r.Known (ofText settings id path text).file :=
  Markup.parse_scripts_known (settings.layoutOf _) settings.maxDiagnostics.toNat small r hr

/-- What a script of a file makes stands in the file. -/
theorem standsIn_of_makes {f : Fragment} (hf : f ∈ (ofText settings id path text).fragments)
    (small : (ofText settings id path text).file.size < Word.modulus) {v : Variable}
    {a : Assignment} (h : f.Makes v a) : a.StandsIn v (ofText settings id path text).file := by
  obtain ⟨r, hr, rfl⟩ := exists_script_of_mem_fragments hf
  obtain ⟨horigin, y, hy, hspan, hname⟩ := h
  have hplaced := (Script.parse_placed r.raw id settings.maxDiagnostics.toNat).1
  obtain ⟨hstands, -, -⟩ := hplaced.stands y hy
  rcases known_of_mem_scripts small hr with hexact | hbehind
  · obtain ⟨hwithin, htext⟩ := hexact.text_shift small hstands
    refine ⟨?_, fun hzero => ?_⟩
    · rw [hspan, horigin]
      exact hwithin
    · rw [hspan, hname hzero]
      exact htext
  · -- nothing stands in an empty script
    have hnonempty := hstands.nonempty
    have hempty : y.span.stop ≤ 0 := by simpa [Script.Window.whole, hbehind.eq] using hstands.within
    omega

end Story

namespace Session

variable {k s t : Session} {id j p : BlobId} {b : Blob} {x : VarId} {v : Variable} {a : Assignment}

theorem mapChildren_store (s : Session) (p : BlobId) (f : List BlobId → List BlobId) :
    (s.mapChildren p f).store = s.store := by
  rw [mapChildren]
  split <;> rfl

theorem alloc_store (s : Session) (name : Bytes) (p : BlobId) (isDirectory : Bool) :
    (s.alloc name p isDirectory).2.store = s.store :=
  mapChildren_store s p _

theorem relabelled_store (s : Session) (id p : BlobId) (name : Bytes) :
    (s.relabelled id p name).store = s.store := by
  rw [relabelled, mapChildren_store, unplaced, mapBlob_store, mapChildren_store]

theorem repathed_store (s : Session) (id : BlobId) : (s.repathed id).store = s.store := by
  rw [repathed]
  generalize s.everythingIn id = ids
  induction ids generalizing s with
  | nil => rfl
  | cons y ids ih =>
    rw [List.foldl_cons, ih, repath]
    split <;> rfl

/-! ## Pages -/

/-- What was read of a blob, apart from the path of its source. -/
structure Page where
  isDirectory : Bool
  file : File
  document : Markup.Document
  diagnostics : List Diagnostic

/-- The page of what was read of a blob. -/
def pageOf (isDirectory : Bool) (c : StoryFile) : Page :=
  ⟨isDirectory, { c.file with path := [] }, c.document, c.diagnostics⟩

/-- The page of a blob, if anything was read of it. -/
def pageIn (b : Blob) : Option Page := b.story.map (pageOf b.isDirectory)

/-- The page of the blob with a number. -/
def page? (s : Session) (id : BlobId) : Option Page := (s.blob? id).bind pageIn

theorem page?_eq_some_iff {page : Page} : s.page? id = some page ↔
    ∃ b c, s.blob? id = some b ∧ b.story = some c ∧ pageOf b.isDirectory c = page := by
  simp only [page?, pageIn, Option.bind_eq_some_iff, Option.map_eq_some_iff]
  constructor
  · rintro ⟨b, hb, c, hc, heq⟩
    exact ⟨b, c, hb, hc, heq⟩
  · rintro ⟨b, c, hb, hc, heq⟩
    exact ⟨b, hb, c, hc, heq⟩

/-- Blobs that differ in names and children only have the same pages. -/
theorem page?_eq_of_header (name : Blob → Bytes) (h : (t.blob? id).map header
    = (s.blob? id).map fun b => { header b with name := name b }) : t.page? id = s.page? id := by
  have hpage := congrArg (Option.bind · pageIn) h
  simp only [Option.bind_map] at hpage
  exact hpage

theorem page?_mapChildren (s : Session) (p : BlobId) (f : List BlobId → List BlobId) (id : BlobId) :
    (s.mapChildren p f).page? id = s.page? id :=
  page?_eq_of_header Blob.name (header_mapChildren s p f id)

theorem page?_alloc (s : Session) (name : Bytes) (p : BlobId) (isDirectory : Bool) (id : BlobId) :
    (s.alloc name p isDirectory).2.page? id = s.page? id := by
  rw [page?, page?, blob?_alloc]
  split
  · next hid =>
    have hnone : s.blob? id = none := by
      refine Option.eq_none_iff_forall_ne_some.mpr fun b hb => ?_
      exact absurd (le_size_of_blob? hb) (by rw [hid]; exact Nat.not_succ_le_self _)
    rw [hnone]
    rfl
  · rw [Option.bind_map]
    refine congrArg (Option.bind _) (funext fun b => ?_)
    simp only [Function.comp_apply]
    split <;> rfl

theorem page?_relabelled (s : Session) {id : BlobId} (hid : id ≠ 0) (p : BlobId) (name : Bytes)
    (j : BlobId) : (s.relabelled id p name).page? j = s.page? j :=
  page?_eq_of_header (fun b => if j = id then name else b.name) (header_relabelled hid p name j)

theorem page?_repathed (s : Session) (id j : BlobId) : (s.repathed id).page? j = s.page? j := by
  rw [page?, page?, repathed, blob?_foldl_repath, Option.bind_map]
  refine congrArg (Option.bind _) (funext fun b => ?_)
  simp only [Function.comp_apply]
  split
  · simp only [pageIn, resourced, Option.map_map]
    rfl
  · rfl

theorem page?_install (hb : s.blob? id = some b) (story : Story) (j : BlobId) :
    (s.install id story).page? j = if j = id then some (pageOf b.isDirectory (content story))
      else s.page? j := by
  rw [page?, blob?_install (ne_zero_of_blob? hb)]
  split
  · next hj =>
    rw [hj, hb]
    rfl
  · rfl

theorem Grove.page?_pruned (h : Grove s) (hb : s.blob? id = some b) (p j : BlobId) :
    (s.pruned id p).page? j = if id ∈ s.ancestorsIn j then none else s.page? j := by
  rw [page?, h.blob?_pruned hb]
  split
  · rfl
  · exact page?_mapChildren s p _ j

/-! ## Backed sessions -/

/-- The page that reading a text gives. -/
def Page.IsRead (page : Page) (id : BlobId) : Prop :=
  ∃ settings path text, page = pageOf false (content (Story.ofText settings id path text))

/-- Every page is what reading a text gave, and every assignment stands on the page of its file. -/
structure Backed (s : Session) : Prop where
  sound : s.store.Sound
  pages : ∀ {id page}, s.page? id = some page → page.IsRead id
  assigned : ∀ {x v a}, s.store.Has x v a → ∃ page, s.page? a.origin = some page ∧
    (page.file.size < Word.modulus → a.StandsIn v page.file)

/-- Whatever leaves pages and variables as they are keeps a session backed. -/
theorem Backed.same (h : Backed s) (hstore : t.store = s.store)
    (hpages : ∀ id, t.page? id = s.page? id) : Backed t where
  sound := hstore ▸ h.sound
  pages hpage := h.pages ((hpages _).symm.trans hpage)
  assigned hhas := by
    obtain ⟨page, hpage, hstands⟩ := h.assigned (hstore ▸ hhas)
    exact ⟨page, (hpages _).trans hpage, hstands⟩

/-- Reading a text into a file keeps a session backed. -/
theorem Backed.install (h : Backed s) (hb : s.blob? id = some b) (hfile : b.isDirectory = false)
    (settings : Settings) (path text : Bytes) :
    Backed (s.install id (Story.ofText settings id path text)) where
  sound := (Store.kept_sound.foldAll _ (h.sound.removeOrigin id) (h.sound.removeOrigin id)).1
  pages := by
    intro j page hpage
    rw [page?_install hb] at hpage
    split at hpage
    · next hj =>
      obtain rfl := Option.some.inj hpage
      rw [hj, hfile]
      exact ⟨settings, path, text, rfl⟩
    · exact h.pages hpage
  assigned := by
    intro x v a hhas
    rw [install_store] at hhas
    rw [page?_install hb]
    rcases Store.replace_entries h.sound hhas with ⟨hother, hold⟩ | ⟨f, hf, hmakes⟩
    · rw [if_neg hother]
      exact h.assigned hold
    · -- the scripts of the text belong to the file that it is read into
      obtain ⟨r, -, rfl⟩ := Story.exists_script_of_mem_fragments hf
      have horigin : a.origin = id := hmakes.1
      rw [if_pos horigin]
      refine ⟨_, rfl, fun small => ?_⟩
      obtain ⟨hspan, hname⟩ := Story.standsIn_of_makes hf small hmakes
      exact ⟨hspan, hname⟩

theorem Backed.filled (h : Backed s) (id : BlobId) (hid : ∀ b, s.blob? id = some b → b.id = id) :
    Backed (s.filled id) := by
  rw [Session.filled]
  split
  · next b hb =>
    split
    · exact h
    · next hfile =>
      rw [readText, hid b hb]
      exact h.install hb (by simpa using hfile) s.settings (s.pathOf b) []
  · exact h

/-- What is left when blobs are dropped belongs to none of the files among them. -/
theorem foldl_drop_entries {gone : List BlobId} (hgone : ∀ y ∈ gone, y ≠ 0)
    (h : (gone.foldl drop s).store.Has x v a) : s.store.Has x v a ∧
      ∀ page, s.page? a.origin = some page → page.isDirectory = false → a.origin ∉ gone := by
  induction gone generalizing s with
  | nil => exact ⟨h, fun _ _ _ => List.not_mem_nil⟩
  | cons y gone ih =>
    obtain ⟨hy, hgone⟩ := List.forall_mem_cons.mp hgone
    obtain ⟨hhas, hrest⟩ := ih hgone h
    have hdropped : s.store.Has x v a ∧
        ∀ page, s.page? a.origin = some page → page.isDirectory = false → a.origin ≠ y := by
      simp only [drop] at hhas
      split at hhas
      · obtain ⟨hother, hold⟩ := Store.removeOrigin_entries hhas
        exact ⟨hold, fun _ _ _ => hother⟩
      · next hdir =>
        refine ⟨hhas, fun page hpage hfile heq => hdir ?_⟩
        obtain ⟨b, c, hb, -, rfl⟩ := page?_eq_some_iff.mp hpage
        have hfile : b.isDirectory = false := hfile
        simp [← heq, hb, hfile]
    refine ⟨hdropped.1, fun page hpage hfile => ?_⟩
    have hne := hdropped.2 page hpage hfile
    rw [page?, blob?_drop hy, if_neg hne] at hrest
    rw [List.mem_cons, not_or]
    exact ⟨hne, hrest page hpage hfile⟩

theorem sound_foldl_drop {gone : List BlobId} (hs : s.store.Sound) :
    (gone.foldl drop s).store.Sound := by
  induction gone generalizing s with
  | nil => exact hs
  | cons y gone ih =>
    refine ih ?_
    rw [drop]
    dsimp only
    split
    · exact hs.removeOrigin y
    · exact hs

/-- Deleting a blob with everything inside it keeps a session backed: no assignment of a file that
is gone is left, and every other one keeps its page. -/
theorem Backed.pruned (h : Backed s) (hs : Grove s) (hb : s.blob? id = some b) (p : BlobId) :
    Backed (s.pruned id p) where
  sound := sound_foldl_drop (by rw [mapChildren_store]; exact h.sound)
  pages := by
    intro j page hpage
    rw [hs.page?_pruned hb] at hpage
    split at hpage
    · cases hpage
    · exact h.pages hpage
  assigned := by
    intro x v a hhas
    have hgone : ∀ y ∈ s.everythingIn id, y ≠ 0 := by
      intro y hy
      obtain ⟨⟨_, hby⟩, -⟩ := (hs.mem_everythingIn_iff hb).mp hy
      exact ne_zero_of_blob? hby
    obtain ⟨hold, hout⟩ := foldl_drop_entries hgone hhas
    rw [mapChildren_store] at hold
    obtain ⟨page, hpage, hstands⟩ := h.assigned hold
    refine ⟨page, ?_, hstands⟩
    obtain ⟨settings, path, text, hread⟩ := h.pages hpage
    -- the file of the assignment is not inside what is deleted
    have hkept : id ∉ s.ancestorsIn a.origin := by
      intro hin
      obtain ⟨bf, -, hbf, -, -⟩ := page?_eq_some_iff.mp hpage
      refine hout page ((page?_mapChildren s p _ _).trans hpage) (by rw [hread]; rfl) ?_
      exact (hs.mem_everythingIn_iff hb).mpr ⟨⟨bf, hbf⟩, hin⟩
    rw [hs.page?_pruned hb, if_neg hkept]
    exact hpage

theorem Step.backed (h : Step s t) (hs : Grove s) (hbacked : Backed s) : Backed t := by
  cases h with
  | store storage => exact hbacked.same rfl fun _ => rfl
  | @add name p isDirectory hname hp =>
    have hadded : Backed (s.alloc (s.entryName name isDirectory) p isDirectory).2 :=
      hbacked.same (alloc_store s _ _ _) (page?_alloc s _ _ _)
    exact hadded.filled _ fun b hb => (hs.alloc hp).numbered hb
  | @rename id b name hb hname =>
    refine hbacked.same ?_ fun j => ?_
    · rw [repathed_store, relabelled_store]
    · rw [page?_repathed, page?_relabelled s (ne_zero_of_blob? hb)]
  | delete hb => exact hbacked.pruned hs hb _
  | @read id b hb hfile text =>
    rw [readText, hs.numbered hb]
    exact hbacked.install hb hfile s.settings (s.pathOf b) text

/-! ## Opening -/

theorem Blank.backed (hk : Blank k) : Backed k where
  sound := hk.store ▸ Store.sound_empty
  pages := by
    intro id page hpage
    obtain ⟨b, c, hb, hc, -⟩ := page?_eq_some_iff.mp hpage
    rw [hk.stories hb] at hc
    cases hc
  assigned := by
    rintro x v a ⟨u, hu, -⟩
    rw [hk.store] at hu
    simp [Store.get?] at hu

theorem Backed.installAll {stories : List (BlobId × Story)} (h : Backed s)
    (hstories : ∀ q ∈ stories, (∃ b, s.blob? q.1 = some b ∧ b.isDirectory = false) ∧
      ∃ settings path text, q.2 = Story.ofText settings q.1 path text) :
    Backed (stories.foldl (fun s q => s.install q.1 q.2) s) := by
  induction stories generalizing s with
  | nil => exact h
  | cons q stories ih =>
    obtain ⟨⟨⟨b, hb, hfile⟩, settings, path, text, heq⟩, hrest⟩ := List.forall_mem_cons.mp hstories
    rw [List.foldl_cons]
    refine ih (heq ▸ h.install hb hfile settings path text) fun r hr => ⟨?_, (hrest r hr).2⟩
    obtain ⟨⟨br, hbr, hfile'⟩, -⟩ := hrest r hr
    obtain ⟨b', hb', hbare⟩ := (alike_install s q.1 q.2).symm.blob? hbr
    exact ⟨b', hb', (congrArg (·.isDirectory) hbare).trans hfile'⟩

theorem Blank.backed_loaded (hk : Blank k) (h : k.loaded = .ok s) : Backed s := by
  obtain ⟨-, rfl⟩ := loaded_eq_ok_iff.mp h
  refine hk.backed.installAll fun q hq => ?_
  obtain ⟨b, hb, rfl⟩ := List.mem_map.mp hq
  obtain ⟨id, hb, hfile⟩ := mem_files_iff.mp hb
  obtain rfl := hk.ids hb
  exact ⟨⟨b, hb, hfile⟩, k.settings, k.pathOf b, k.storedText b, rfl⟩

/-! ## Assignments -/

/-- Whatever happens to an open project, its blobs stay a tree with all files read, and it stays
backed. -/
theorem backed_afterEvents {storage : Storage} {root : Bytes} {settings : Settings}
    (opened : openProject storage root settings = .ok s) (events : List Event) :
    Grove (s.afterEvents events) ∧ (s.afterEvents events).Sourced ∧ Backed (s.afterEvents events) := by
  obtain ⟨s₀, k, hstart, hscan, hload⟩ := openProject_eq_ok_iff.mp opened
  have hblank := blank_of_scanned hstart hscan
  have hgrove : Grove s := (alike_of_loaded hload).grove (grove_of_scanned hstart hscan)
  exact (steps_afterEvents s events).keep (P := fun u => Grove u ∧ u.Sourced ∧ Backed u)
    (fun hstep hu =>
      ⟨hstep.grove hu.1, hstep.sourced hu.1 hu.2.1, hstep.backed hu.1 hu.2.2⟩)
    ⟨hgrove, hblank.sourced hload, hblank.backed_loaded hload⟩

/-- Whatever happened to an open project, every assignment of its variables belongs to a live file.
Its span carries the number of the file and lies inside the text that the file has now, and the text
there is the name of the variable, if that is a global. -/
theorem assignments_stand {storage : Storage} {root : Bytes} {settings : Settings}
    (opened : openProject storage root settings = .ok s) (events : List Event) (x : VarId)
    (v : Variable) (hv : (s.afterEvents events).store.get? x = some v) (a : Assignment)
    (ha : a ∈ v.assignments) :
    ∃ b c, (s.afterEvents events).blob? a.origin = some b ∧ b.isDirectory = false ∧
      b.story = some c ∧ c.file.id = a.origin ∧
      (c.file.size < Word.modulus →
        a.span.file = a.origin ∧ a.span.start ≤ a.span.stop ∧ a.span.stop ≤ c.file.size ∧
          (v.owner = 0 → c.file.text a.span = v.name)) := by
  obtain ⟨-, -, hbacked⟩ := backed_afterEvents opened events
  obtain ⟨page, hpage, hstands⟩ := hbacked.assigned (Store.has_of_get? hv ha)
  obtain ⟨settings, path, text, hread⟩ := hbacked.pages hpage
  obtain ⟨b, c, hb, hc, rfl⟩ := page?_eq_some_iff.mp hpage
  refine ⟨b, c, hb, congrArg Page.isDirectory hread, hc, congrArg (·.file.id) hread, fun small => ?_⟩
  obtain ⟨⟨hfile, hordered, hwithin⟩, hname⟩ := hstands small
  exact ⟨hfile, hordered, hwithin, hname⟩

/-- A file is renamed and the other one gets a text that assigns to a property of its variable: the
global `x` then has assignments in both files, each at its name. -/
theorem assignments_stand_twoFiles :
    let s := (twoOpened "\x7bx = 1\x7d\n" "B\n").afterEvents
      [.edit (.rename 1 "c"), .recompile 2 "A \x7bx.y = 2\x7d\n"]
    ∃ v, s.store.get? 1 = some v ∧ v.assignments.map (·.origin) = [1, 2] ∧
      ∀ a ∈ v.assignments, ∃ b c, s.blob? a.origin = some b ∧ b.story = some c ∧
        a.span.stop ≤ c.file.size ∧ c.file.text a.span = "x" := by
  intro s
  have hvariable : (s.store.get? 1).map (fun v => (v.owner, v.name, v.assignments.map (·.origin)))
      = some (0, ("x" : Bytes), [1, 2]) := by decide +kernel
  obtain ⟨v, hv, heq⟩ := Option.map_eq_some_iff.mp hvariable
  obtain ⟨howner, heq⟩ := Prod.mk.inj heq
  obtain ⟨hname, horigins⟩ := Prod.mk.inj heq
  have hsizes : ∀ id ∈ [1, 2], ∀ n ∈ (s.story? id).map (·.file.size), n < Word.modulus := by
    decide +kernel
  refine ⟨v, hv, horigins, fun a ha => ?_⟩
  obtain ⟨b, c, hb, -, hc, -, hstands⟩ := assignments_stand (open_twoFiles _ _) _ 1 v hv a ha
  have horigin : a.origin ∈ [1, 2] := horigins ▸ List.mem_map_of_mem ha
  have hstory : s.story? a.origin = some c := (congrArg (Option.bind · Blob.story) hb).trans hc
  have small := hsizes a.origin horigin c.file.size (by rw [hstory]; rfl)
  obtain ⟨-, -, hwithin, htext⟩ := hstands small
  exact ⟨b, c, hb, hc, hwithin, (htext howner).trans hname⟩

end Session

end Storyline
