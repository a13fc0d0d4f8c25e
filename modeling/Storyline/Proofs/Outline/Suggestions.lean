import Storyline.Command.Fuzzy
import Storyline.Proofs.Outline.Resolution

/-!
# Suggested names lead on

A divert that leads nowhere is reported with the names it could have gone on with, and one of them
may be suggested in its place.  Under each of these names a header is found where the walk stopped
(`walk_set`), and the names are in canonical form, so that a path with one of them put in is
followed past the place where it failed: from the same site and under the same policy it leads
somewhere, or it fails further on (`leadsOn_of_mem_candidates`).  What is suggested is one of the
names, however names are compared (`suggest?_mem`), and `check_fixes_leadOn` puts this together for
every fix of a check.
-/

namespace Storyline.Outline

open Markup (Document Divert Heading)

/-! ## What is suggested -/

/-- What is suggested is one of the candidates, whichever way it matches. -/
theorem suggest?_mem [Fuzzy] (hfuzzy : Fuzzy.Sound) {name guess : Bytes} {candidates : List Bytes}
    (h : suggest? name candidates = some guess) : guess ∈ candidates := by
  rw [suggest?] at h
  split at h
  · cases h
  · obtain ⟨r, hr, rfl⟩ := Option.map_eq_some_iff.mp (Option.filter_eq_some_iff.mp h).1
    have hrank := (hfuzzy.sort_perm _).mem_iff.mp (List.mem_of_mem_head? hr)
    split at hrank
    · -- the name occurs in no candidate: those that occur in the name were ranked
      obtain ⟨c, hc, rfl⟩ := List.mem_map.mp hrank
      exact List.mem_of_mem_filter hc
    · exact hfuzzy.target_mem name candidates r hrank

/-! ## Walking past a failure -/

variable {o : Outline} {id : NodeId} {found index : Nat} {level : List NodeId} {names : List Bytes}
  {candidates : List Bytes} {guess : Bytes}

/-- Going down fails below the last header that is found, and the names there are the
candidates. -/
theorem descend_error (h : o.descend id found names = .error (index, candidates)) :
    ∃ before name after last, names = before ++ name :: after ∧ index = found + before.length ∧
      o.descend id found before = .ok last ∧ candidates = o.childNames last := by
  induction names generalizing id found with
  | nil => cases h
  | cons name names ih =>
    rw [descend] at h
    split at h
    · next next hnext =>
      obtain ⟨before, name', after, last, rfl, rfl, hlast, rfl⟩ := ih h
      refine ⟨name :: before, name', after, last, rfl, ?_, ?_, rfl⟩
      · rw [List.length_cons, Nat.add_right_comm, Nat.add_assoc]
      · rw [descend, hnext]
        exact hlast
    · cases h
      exact ⟨[], name, names, id, rfl, rfl, rfl, rfl⟩

/-- A path leads somewhere, or it fails behind a part of it. -/
def PassesAt (index : Nat) : Except (Nat × List Bytes) NodeId → Prop
  | .ok _ => True
  | .error (later, _) => index < later

theorem passesAt_descend (o : Outline) (id : NodeId) (found : Nat) (names : List Bytes) :
    PassesAt found (o.descend id (found + 1) names) := by
  cases h : o.descend id (found + 1) names with
  | ok => trivial
  | error e =>
    obtain ⟨before, _, _, _, -, hindex, -⟩ := descend_error h
    rw [PassesAt, hindex]
    omega

/-- The names at which going down fails lead on from there. -/
theorem passesAt_descend_guess {before after : List Bytes} {last : NodeId}
    (hlast : o.descend id found before = .ok last) (hguess : guess ∈ o.childNames last) :
    PassesAt (found + before.length) (o.descend id found (before ++ guess :: after)) := by
  obtain ⟨next, hnext⟩ := mem_childNames_iff.mp hguess
  rw [descend_append, hlast]
  change PassesAt _ (o.descend last (found + before.length) (guess :: after))
  rw [descend, hnext]
  exact passesAt_descend o next (found + before.length) after

/-- The names at which walking fails lead on from there. -/
theorem walk_set (h : o.walk level names = .error (index, candidates))
    (hguess : guess ∈ candidates) :
    index < names.length ∧ PassesAt index (o.walk level (names.set index guess)) ∧
      ∃ ids, guess ∈ o.namesOf ids := by
  cases names with
  | nil => cases h
  | cons name names =>
    rw [walk] at h
    split at h
    · next next hnext =>
      obtain ⟨before, name', after, last, rfl, rfl, hlast, rfl⟩ := descend_error h
      refine ⟨by simp; omega, ?_, exists_mem_namesOf_of_mem_childNames hguess⟩
      rw [Nat.add_comm, List.set_cons_succ, List.set_append_right _ _ (Nat.le_refl _), Nat.sub_self,
        List.set_cons_zero, walk, hnext, Nat.add_comm]
      exact passesAt_descend_guess hlast hguess
    · cases h
      rw [Bytes.mem_sortOn, mem_firstNames] at hguess
      obtain ⟨next, hnext⟩ := mem_namesOf_iff.mp hguess
      rw [List.set_cons_zero, walk, hnext]
      exact ⟨Nat.succ_pos _, passesAt_descend o next 0 names, _, hguess⟩

/-! ## Resolving past a failure -/

/-- A path with a name put in for one of its parts leads somewhere, or it fails behind that
part. -/
def LeadsOn (o : Outline) (segments : List Bytes) (site : Site) (temporary : Bool)
    (policy : Policy) (index : Nat) (guess : Bytes) : Prop :=
  match o.resolve (segments.set index guess) site temporary policy with
  | .ok _ => True
  | .error f => index < f.index

variable {ds : List Document} {segments : List Bytes} {site : Site} {temporary : Bool}
  {policy : Policy} {f : Failure}

/-- A failure is that of walking from the top level, also if another start is tried. -/
theorem walk_of_resolve_error (h : o.resolve segments site temporary policy = .error f) :
    o.walk (o.rootsIn (policy.scopeFor temporary) site.file) (segments.map canonical)
      = .error (f.index, f.candidates) := by
  rw [resolve] at h
  grind

/-- A path that failed leads on with any of the candidates put in. -/
theorem leadsOn_of_mem_candidates
    (h : (ofDocuments ds).resolve segments site temporary policy = .error f)
    (hguess : guess ∈ f.candidates) :
    f.index < segments.length ∧
      LeadsOn (ofDocuments ds) segments site temporary policy f.index guess := by
  obtain ⟨hlt, hpass, ids, hids⟩ := walk_set (walk_of_resolve_error h) hguess
  rw [List.length_map] at hlt
  refine ⟨hlt, ?_⟩
  rw [LeadsOn]
  split
  · trivial
  · next f' hf' =>
    have hwalk := walk_of_resolve_error hf'
    rw [List.map_set, canonical_of_mem_namesOf hids] at hwalk
    rwa [hwalk] at hpass

/-! ## Fixes -/

/-- Where a check looks up a divert of a document: in its file, and below the header around it. -/
def siteIn (o : Outline) (ordinal : Nat) (doc : Document) (owner : Option Heading) : Site :=
  ⟨doc.file, owner.bind (o.nodeOf? ordinal)⟩

/-- A fix puts a candidate of the failure where the path failed. -/
theorem edits_of_mem_fixes [Fuzzy] (hfuzzy : Fuzzy.Sound) {d : Divert} {fix : Fix}
    (hfix : fix ∈ (report d f).fixes) :
    ∃ guess ∈ f.candidates,
      fix.edits = [⟨(d.path[f.index]?.map (·.span)).getD d.span, guess⟩] := by
  rw [report] at hfix
  split at hfix
  · cases hfix
  · next guess hguess =>
    rw [List.mem_singleton.mp hfix]
    exact ⟨guess, suggest?_mem hfuzzy hguess, rfl⟩

/-- Every suggested fix leads on.  A divert whose path leads nowhere is reported, and each fix of
the report replaces the part of the path that failed; the path with the new text in place of that
part leads somewhere from the same site under the same policy, or it fails at a later part.  That
holds of every name that the path could have gone on with, whichever of them is suggested. -/
theorem check_fixes_leadOn [Fuzzy] (hfuzzy : Fuzzy.Sound) (ds : List Document) (ordinal : Nat)
    (doc : Document) (policy : Policy) {d : Divert} {owner : Option Heading}
    (hd : (d, owner) ∈ doc.diverts) {f : Failure} (hfails :
      (ofDocuments ds).resolve (d.path.map (·.name)) (siteIn (ofDocuments ds) ordinal doc owner)
        d.temporary policy = .error f) :
    report d f ∈ (ofDocuments ds).check ordinal doc policy ∧
      (∀ guess ∈ f.candidates, LeadsOn (ofDocuments ds) (d.path.map (·.name))
        (siteIn (ofDocuments ds) ordinal doc owner) d.temporary policy f.index guess) ∧
      ∀ fix ∈ (report d f).fixes, ∃ segment guess, d.path[f.index]? = some segment ∧
        fix.edits = [⟨segment.span, guess⟩] ∧ LeadsOn (ofDocuments ds) (d.path.map (·.name))
          (siteIn (ofDocuments ds) ordinal doc owner) d.temporary policy f.index guess := by
  refine ⟨List.mem_filterMap.mpr ⟨(d, owner), hd, ?_⟩,
    fun guess hguess => (leadsOn_of_mem_candidates hfails hguess).2, fun fix hfix => ?_⟩
  · rw [siteIn] at hfails
    simp only [hfails]
  · obtain ⟨guess, hguess, hedits⟩ := edits_of_mem_fixes hfuzzy hfix
    obtain ⟨hlt, hleadsOn⟩ := leadsOn_of_mem_candidates hfails hguess
    rw [List.length_map] at hlt
    rw [List.getElem?_eq_getElem hlt] at hedits
    exact ⟨d.path[f.index], guess, List.getElem?_eq_getElem hlt, hedits, hleadsOn⟩

/-- Names are compared by what was given. -/
theorem sound_fuzzy : Fuzzy.Sound where
  target_mem name targets r hr := by
    obtain ⟨t, ht, rfl⟩ := List.mem_map.mp hr
    exact List.mem_of_mem_filter ht
  sort_perm ranks := List.mergeSort_perm ranks _

/-- Of a path with two misspelt names the first one is mended by its fix, and then the second one
fails. -/
theorem check_fixes_leadOn_twice :
    Fuzzy.Sound ∧
    ∃ doc d owner f, doc = (Markup.parse (.ofBytes 0 "a" "# Hall\n## Door\n-> hal.dor\n")).document ∧
      ((d, owner) ∈ doc.diverts ∧ (ofDocuments [doc]).resolve (d.path.map (·.name))
        (siteIn (ofDocuments [doc]) 0 doc owner) d.temporary {} = .error f) ∧
      (report d f).fixes.map (·.edits) = [[⟨⟨0, 18, 21⟩, "hall"⟩]] ∧
      LeadsOn (ofDocuments [doc]) (d.path.map (·.name))
        (siteIn (ofDocuments [doc]) 0 doc owner) d.temporary {} f.index "hall" ∧
      (ofDocuments [doc]).resolve ["hall", "dor"] (siteIn (ofDocuments [doc]) 0 doc owner)
        d.temporary {} = .error ⟨f.index + 1, ["hall", "dor"], ["door"]⟩ := by
  -- the document is evaluated first, and then only these facts are known of it
  obtain ⟨doc, d, owner, f, hdoc, hd, hfails, hguess, hedits, hlater⟩ :
      ∃ doc d owner f,
        doc = (Markup.parse (.ofBytes 0 "a" "# Hall\n## Door\n-> hal.dor\n")).document ∧
        (d, owner) ∈ doc.diverts ∧ (ofDocuments [doc]).resolve (d.path.map (·.name))
          (siteIn (ofDocuments [doc]) 0 doc owner) d.temporary {} = .error f ∧
        ("hall" : Bytes) ∈ f.candidates ∧
        (report d f).fixes.map (·.edits) = [[⟨⟨0, 18, 21⟩, "hall"⟩]] ∧
        (ofDocuments [doc]).resolve ["hall", "dor"] (siteIn (ofDocuments [doc]) 0 doc owner)
          d.temporary {} = .error ⟨f.index + 1, ["hall", "dor"], ["door"]⟩ :=
    ⟨_, ⟨[⟨"hal", ⟨0, 18, 21⟩⟩, ⟨"dor", ⟨0, 22, 25⟩⟩], false, [], ⟨0, 15, 25⟩⟩,
      some ⟨"Door", ⟨0, 10, 14⟩, 2, [], ⟨0, 7, 25⟩⟩, ⟨0, ["hal", "dor"], ["hall"]⟩, rfl,
      by decide +kernel, by decide +kernel, by decide +kernel, by decide +kernel,
      by decide +kernel⟩
  obtain ⟨-, hleadsOn, -⟩ := check_fixes_leadOn sound_fuzzy [doc] 0 doc {} hd hfails
  exact ⟨sound_fuzzy, doc, d, owner, f, hdoc, ⟨hd, hfails⟩, hedits, hleadsOn "hall" hguess, hlater⟩

end Storyline.Outline
