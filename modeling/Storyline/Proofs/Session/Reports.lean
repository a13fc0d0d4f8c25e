import Storyline.Command.Fuzzy
import Storyline.Proofs.Markup.Reports
import Storyline.Proofs.Session.Provenance
import Storyline.Proofs.Variables.Leftovers

/-!
# Reports inside their files

Whatever a session reports on a file belongs to that file and lies inside the text that the file has
now, with all its notes and the edits of all its fixes (`diagnostics_within`).  There are four
sources of reports: the markup of the file, its scripts, its diverts, and the variables that it
assigns to.  The first two are about the text alone (`Story.reports_within`), diverts stand where
the document says, and assignments stand in their files because the session is backed.
-/

namespace Storyline

open Outline (Fuzzy)
open Variables (Assignment Store VarId Variable)

/-! ## Markup and scripts -/

/-- Nothing is said about an empty script. -/
theorem Script.parse_nil_diagnostics (file : FileId) (limit : Nat) :
    (Script.parse [] file limit).diagnostics = [] := rfl

/-- What is said about a script inside a file is said about the file. -/
theorem Markup.ScriptRef.Known.within {f : File} {r : Markup.ScriptRef} (h : r.Known f)
    (small : f.size < Word.modulus) (limit : Nat) :
    ∀ d ∈ (Story.parseScript limit f.id r).2, d.Within f.id f.size := by
  intro d hd
  obtain ⟨e, he, rfl⟩ := List.mem_map.mp hd
  rcases h with hexact | hbehind
  · obtain ⟨hspan, hplain⟩ := (Script.parse_placed r.raw f.id limit).2 e he
    have hsize : (Script.Window.whole r.raw f.id).source.size = r.span.stop - r.span.start := by
      rw [← File.length_text_of_in hexact.span, hexact.raw]
      simp [Script.Window.whole]
    have hordered := hexact.span.ordered
    have hwithin := hexact.span.within
    exact (hplain.shift _ _).within (hspan.shift (by omega) small)
  · rw [hbehind.eq, Script.parse_nil_diagnostics] at he
    cases he

/-- What reading a file reports lies inside the file. -/
theorem Story.reports_within {settings : Settings} {id : FileId} {path text : Bytes}
    (small : (ofText settings id path text).file.size < Word.modulus) :
    ∀ d ∈ (ofText settings id path text).diagnostics,
      d.Within id (ofText settings id path text).file.size := by
  refine Bag.All.sorted (Bag.All.merge (.withLimit _) ?_)
  rw [List.forall_mem_append]
  refine ⟨Markup.parse_diagnostics_within _ _ small, fun d hd => ?_⟩
  obtain ⟨q, hq, hd⟩ := List.mem_flatMap.mp hd
  obtain ⟨r, hr, rfl⟩ := List.mem_map.mp hq
  exact (known_of_mem_scripts small hr).within small settings.maxDiagnostics.toNat d hd

/-! ## Diverts -/

/-- A report on a divert lies where its path is written. -/
theorem Outline.within_report [Fuzzy] {d : Markup.Divert} {file : FileId} {size : Nat}
    (hspan : d.span.Within file size) (hpath : ∀ p ∈ d.path, p.span.Within file size)
    (f : Outline.Failure) : (Outline.report d f).Within file size := by
  have hplace : ((d.path[f.index]?.map (·.span)).getD d.span).Within file size := by
    cases hp : d.path[f.index]? with
    | none => exact hspan
    | some p => exact hpath p (List.mem_of_getElem? hp)
  rw [Outline.report]
  dsimp only
  split
  · exact .error hplace _ _
  · refine ⟨hplace, ?_, ?_⟩
    · rw [List.forall_mem_singleton]
      exact hplace
    · simp only [List.forall_mem_singleton, Fix.replace]
      exact hplace

/-- What is reported on the diverts of a file lies inside the file. -/
theorem Outline.check_within [Fuzzy] (o : Outline) (ordinal : Nat) (policy : Outline.Policy) {f : File}
    (layout : Markup.Layout) (maxErrors : Nat) (small : f.size < Word.modulus) :
    ∀ d ∈ o.check ordinal (Markup.parse f layout maxErrors).document policy,
      d.Within f.id f.size := by
  intro d hd
  obtain ⟨⟨x, owner⟩, hx, hd⟩ := List.mem_filterMap.mp hd
  obtain ⟨v, hv, hdivert⟩ := List.mem_filterMap.mp hx
  obtain ⟨block, hblock, hv⟩ := Markup.mem_visitBlocks.mp hv
  have hagrees := (Markup.parse_allAgree layout maxErrors small block hblock).visit _ v hv
  split at hdivert
  · next x' heq =>
    obtain ⟨rfl, -⟩ := Prod.mk.inj (Option.some.inj hdivert)
    rw [heq] at hagrees
    dsimp only at hd
    split at hd
    · cases hd
    · next failure _ =>
      obtain rfl := Option.some.inj hd
      exact within_report hagrees.span.toWithin (fun p hp => (hagrees.path _ rfl p hp).toWithin) failure
  · cases hdivert

namespace Session

variable {s : Session} {id : BlobId}

/-! ## Variables -/

/-- What is reported on the assignments of a file lies inside the file. -/
theorem Backed.conflictReports_within (h : Backed s) {page : Page} (hpage : s.page? id = some page)
    (small : page.file.size < Word.modulus) :
    ∀ d ∈ conflictReports s.overview id, d.Within id page.file.size := by
  intro d hd
  obtain ⟨⟨name, v⟩, hv, hd⟩ := List.mem_flatMap.mp hd
  obtain ⟨⟨x, u⟩, hconflict, heq⟩ := List.mem_map.mp hv
  obtain ⟨-, rfl⟩ := Prod.mk.inj heq
  obtain ⟨a, ha, rfl⟩ := List.mem_map.mp hd
  obtain ⟨hin, horigin⟩ := List.mem_filter.mp ha
  obtain rfl : a.origin = id := of_decide_eq_true horigin
  obtain ⟨page', hpage', hstands⟩ :=
    h.assigned (Store.has_of_get? (Store.get?_of_mem_conflicts hconflict) hin)
  obtain rfl : page' = page := Option.some.inj (hpage'.symm.trans hpage)
  exact .error (hstands small).span _ _

/-! ## Files -/

theorem Backed.diagnosticsOf_within [Fuzzy] (h : Backed s) {b : Blob} {c : StoryFile}
    (hb : s.blob? id = some b) (hc : b.story = some c) (small : c.file.size < Word.modulus)
    (ordinal : Nat) : ∀ d ∈ s.diagnosticsOf s.overview ordinal id c, d.Within id c.file.size := by
  have hpage : s.page? id = some (pageOf b.isDirectory c) := page?_eq_some_iff.mpr ⟨b, c, hb, hc, rfl⟩
  have hconflicts := h.conflictReports_within hpage small
  obtain ⟨settings, path, text, hread⟩ := h.pages hpage
  have hsize : c.file.size = (Story.ofText settings id path text).file.size :=
    congrArg (·.file.size) hread
  have hdocument : c.document = (Story.ofText settings id path text).document :=
    congrArg Page.document hread
  have hdiagnostics : c.diagnostics = (Story.ofText settings id path text).diagnostics :=
    congrArg Page.diagnostics hread
  rw [hsize] at small
  refine Bag.All.sorted (Bag.All.report (Bag.All.merge (.withLimit _) ?_) ?_)
  · rw [hdiagnostics, hsize]
    exact Story.reports_within small
  · rw [List.forall_mem_append]
    refine ⟨?_, hconflicts⟩
    rw [hdocument, hsize]
    exact Outline.check_within s.overview.outline ordinal s.settings.policy _
      settings.maxDiagnostics.toNat small

theorem of_mem_contents {i : Nat} {b : Blob} {c : StoryFile} (h : (i, b, c) ∈ s.contents) :
    b ∈ s.files ∧ b.story = some c := by
  obtain ⟨⟨b', i'⟩, hb, hc⟩ := List.mem_filterMap.mp h
  obtain ⟨c', hc, heq⟩ := Option.map_eq_some_iff.mp hc
  cases heq
  exact ⟨(List.mem_zipIdx' hb).2 ▸ List.getElem_mem _, hc⟩

end Session

end Storyline
