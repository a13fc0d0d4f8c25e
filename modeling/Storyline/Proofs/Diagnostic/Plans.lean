import Mathlib.Data.List.Forall2
import Storyline.Proofs.Diagnostic.Edits

/-!
# Plans account for every fix

A plan takes some fixes and passes over the others.  `Choice.Accounts` says what has come of the
fixes looked at so far: each was either taken, with all of its edits, or passed over for a reason
that holds; the edits that were taken lie in their files, and those in one file are apart from each
other.  Looking at one more fix keeps that (`accounts_choose`), so it holds of all of them
(`accounts_foldl`), and with it the new texts are those with the taken edits made
(`plan_sound`).
-/

namespace Storyline

/-! ## Edits in files -/

namespace Edit

/-- An edit that lies in the content of its file. -/
def Lies (files : Repair.Files) (e : Edit) : Prop :=
  ∃ f, files e.span.file = some f ∧ e.Fits f.size

/-- Two edits that belong to different files or are apart from each other. -/
def Separate (e f : Edit) : Prop := e.span.file = f.span.file → e.Apart f

theorem Separate.symm {e f : Edit} (h : e.Separate f) : f.Separate e := fun hfile =>
  (h hfile.symm).symm

theorem any_overlaps_eq_false_iff {e : Edit} {ts : List Edit} :
    (ts.any fun t => t.span.file = e.span.file && e.overlaps t) = false ↔
      ∀ t ∈ ts, t.Separate e := by
  rw [List.any_eq_false]
  refine forall₂_congr fun t _ => ?_
  rw [Bool.and_eq_true, decide_eq_true_iff, not_and, Bool.not_eq_true, overlaps_eq_false_iff]
  exact imp_congr_right fun _ => ⟨Apart.symm, Apart.symm⟩

end Edit

namespace Repair

open Edit (Lies Separate)

/-! ## What stands in the way -/

/-- The edits of fixes, in order. -/
def editsOf (ks : List Candidate) : List Edit := ks.flatMap (·.fix.edits)

/-- Whether an obstacle stands in the way of a fix when some others are taken. -/
def Obstacle.Bars (files : Files) (all : Bool) (took : List Candidate) (k : Candidate) :
    Obstacle → Prop
  | .noEdits => k.fix.edits = []
  | .onlyOne => all = false ∧ took ≠ []
  | .unknownFile file => files file = none ∧ ∃ e ∈ k.fix.edits, e.span.file = file
  | .outside span path => ∃ f, files span.file = some f ∧ f.path = path ∧
      ∃ e ∈ k.fix.edits, e.span = span ∧ ¬ e.Fits f.size
  | .overlapsEarlier => ∃ e ∈ k.fix.edits, ∃ t ∈ editsOf took, ¬ t.Separate e
  | .overlapsItself => ¬ k.fix.edits.Pairwise Separate

variable {files : Files} {all : Bool} {took passed ks : List Candidate} {k : Candidate}

/-- What stands in the way does so as well when more fixes are taken. -/
theorem Obstacle.Bars.mono {o : Obstacle} (h : o.Bars files all took k) {more : List Candidate}
    (hsub : took ⊆ more) : o.Bars files all more k := by
  cases o with
  | onlyOne => exact ⟨h.1, fun hnil => h.2 (List.subset_nil.mp (hnil ▸ hsub))⟩
  | overlapsEarlier =>
    obtain ⟨e, he, t, ht, hmeet⟩ := h
    obtain ⟨j, hj, ht⟩ := List.mem_flatMap.mp ht
    exact ⟨e, he, t, List.mem_flatMap.mpr ⟨j, hsub hj, ht⟩, hmeet⟩
  | noEdits | unknownFile | outside | overlapsItself => exact h

/-- Nothing stands in the way of an edit that lies in its file and meets none of the others. -/
theorem obstacle?_eq_none_iff {taken before : List Edit} {e : Edit} :
    obstacle? files taken before e = none ↔
      e.Lies files ∧ (∀ t ∈ taken, t.Separate e) ∧ ∀ t ∈ before, t.Separate e := by
  rw [obstacle?, Edit.Lies]
  cases hfile : files e.span.file with
  | none => simp
  | some f =>
    have hfits : e.Fits f.size ↔ ¬ (e.span.stop < e.span.start ∨ f.size < e.span.stop) := by
      rw [Edit.Fits, not_or, Nat.not_lt, Nat.not_lt]
    simp only [Option.some.injEq, exists_eq_left', hfits, ← Edit.any_overlaps_eq_false_iff]
    split
    · next h => simp [h]
    · next h =>
      split
      · next htaken => simp [htaken]
      · next htaken =>
        split
        · next hbefore => simp [hbefore]
        · next hbefore => simpa [h, htaken] using hbefore

/-- What is told to stand in the way of one of the edits of a fix does. -/
theorem bars_of_obstacle? {before after : List Edit} {e : Edit} {o : Obstacle}
    (h : obstacle? files (editsOf took) before e = some o)
    (hk : k.fix.edits = before ++ e :: after) : o.Bars files all took k := by
  have he : e ∈ k.fix.edits := by rw [hk]; exact List.mem_append_right _ List.mem_cons_self
  rw [obstacle?] at h
  -- in the order in which the obstacles are looked for: the file, its bounds, what was taken, the
  -- fix itself
  cases hfile : files e.span.file with
  | none =>
    rw [hfile] at h
    cases h
    exact ⟨hfile, e, he, rfl⟩
  | some f =>
    simp only [hfile] at h
    split at h
    · next hout =>
      cases h
      refine ⟨f, hfile, rfl, e, he, rfl, fun hfits => ?_⟩
      obtain ⟨hspan, hsize⟩ := hfits
      omega
    · split at h
      · next htaken =>
        cases h
        -- had none of its edits met a fix that was taken, no overlap would have been found
        by_contra hnone
        have hfree : ∀ t ∈ editsOf took, t.Separate e := fun t ht =>
          by_contra fun hmeet => hnone ⟨e, he, t, ht, hmeet⟩
        rw [Edit.any_overlaps_eq_false_iff.mpr hfree] at htaken
        cases htaken
      · split at h
        · next hbefore =>
          cases h
          intro hpair
          rw [hk, List.pairwise_append] at hpair
          have hfree : ∀ t ∈ before, t.Separate e := fun t ht =>
            hpair.2.2 t ht e List.mem_cons_self
          rw [Edit.any_overlaps_eq_false_iff.mpr hfree] at hbefore
          cases hbefore
        · cases h

/-- Nothing stands in the way of edits that lie in their files, meet none of those taken, and do not
meet each other. -/
theorem firstObstacle?_eq_none_iff {taken before es : List Edit} :
    firstObstacle? files taken before es = none ↔
      (∀ e ∈ es, e.Lies files) ∧ (∀ t ∈ taken, ∀ e ∈ es, t.Separate e) ∧
        (∀ t ∈ before, ∀ e ∈ es, t.Separate e) ∧ es.Pairwise Separate := by
  induction es generalizing before with
  | nil => simp [firstObstacle?]
  | cons e es ih =>
    have hsplit : firstObstacle? files taken before (e :: es) = none ↔
        obstacle? files taken before e = none ∧
          firstObstacle? files taken (before ++ [e]) es = none := by
      rw [firstObstacle?]
      cases obstacle? files taken before e <;> simp
    rw [hsplit, obstacle?_eq_none_iff, ih]
    simp only [List.forall_mem_append, List.forall_mem_singleton, List.pairwise_cons,
      List.forall_mem_cons]
    constructor
    · rintro ⟨⟨hlies, htaken, hbefore⟩, hlie, htakens, ⟨hbefores, he⟩, hpair⟩
      exact ⟨⟨hlies, hlie⟩, fun t ht => ⟨htaken t ht, htakens t ht⟩,
        fun t ht => ⟨hbefore t ht, hbefores t ht⟩, he, hpair⟩
    · rintro ⟨⟨hlies, hlie⟩, htaken, hbefore, he, hpair⟩
      exact ⟨⟨hlies, fun t ht => (htaken t ht).1, fun t ht => (hbefore t ht).1⟩, hlie,
        fun t ht => (htaken t ht).2, ⟨fun t ht => (hbefore t ht).2, he⟩, hpair⟩

theorem bars_of_firstObstacle? {before es : List Edit} {o : Obstacle}
    (h : firstObstacle? files (editsOf took) before es = some o)
    (hk : k.fix.edits = before ++ es) : o.Bars files all took k := by
  induction es generalizing before with
  | nil => cases h
  | cons e es ih =>
    rw [firstObstacle?] at h
    cases hobstacle : obstacle? files (editsOf took) before e with
    | some found =>
      rw [hobstacle] at h
      cases h
      exact bars_of_obstacle? hobstacle hk
    | none =>
      rw [hobstacle] at h
      exact ih h (by simpa using hk)

/-! ## Choosing -/

/-- What is told of a fix that was taken. -/
def Candidate.applied (files : Files) (k : Candidate) : Applied :=
  ⟨k.fix.title, k.diagnostic.code, ((files k.diagnostic.span.file).map (·.path)).getD [],
    k.fix.edits.length⟩

/-- What has come of some fixes: those in `took` were taken, with all of their edits, and those in
`passed` were passed over for a reason. -/
structure Choice.Accounts (files : Files) (all : Bool) (ks : List Candidate) (c : Choice)
    (took passed : List Candidate) : Prop where
  once : (took ++ passed).Perm ks
  taken : c.taken = editsOf took
  applied : c.applied = took.map (·.applied files)
  skipped : List.Forall₂ (fun k s => s.title = k.fix.title ∧ s.reason.Bars files all took k)
    passed c.skipped
  single : all = false → took.length ≤ 1
  lie : ∀ e ∈ editsOf took, e.Lies files
  separate : (editsOf took).Pairwise Separate

/-- Looking at one more fix, it is taken or passed over. -/
theorem accounts_choose {c : Choice} (h : c.Accounts files all ks took passed) (k : Candidate) :
    ∃ took' passed', (choose files all c k).Accounts files all (ks ++ [k]) took' passed' := by
  -- a fix that is passed over is counted with its obstacle
  have hpass (o : Obstacle) (ho : o.Bars files all took k) :
      Choice.Accounts files all (ks ++ [k])
        { c with skipped := c.skipped ++ [⟨k.fix.title, o⟩] } took (passed ++ [k]) :=
    { h with
      once := by rw [← List.append_assoc]; exact h.once.append_right [k]
      skipped := List.rel_append h.skipped (.cons ⟨rfl, ho⟩ .nil) }
  rw [choose]
  by_cases hone : (!all && decide (c.applied.length = 1)) = true
  · simp only [hone, if_true]
    refine ⟨took, passed ++ [k], hpass .onlyOne ?_⟩
    simp only [Bool.and_eq_true, Bool.not_eq_true', decide_eq_true_eq, h.applied,
      List.length_map] at hone
    exact ⟨hone.1, List.ne_nil_of_length_eq_add_one hone.2⟩
  · simp only [hone, Bool.false_eq_true, if_false]
    -- the first obstacle bars the fix; without one all of its edits lie in files and overlap
    -- nothing
    cases hobstacle : firstObstacle? files c.taken [] k.fix.edits with
    | some o =>
      rw [h.taken] at hobstacle
      exact ⟨took, passed ++ [k], hpass o (bars_of_firstObstacle? hobstacle rfl)⟩
    | none =>
      rw [h.taken, firstObstacle?_eq_none_iff] at hobstacle
      obtain ⟨hlie, htaken, -, hpair⟩ := hobstacle
      have hedits : editsOf (took ++ [k]) = editsOf took ++ k.fix.edits := by simp [editsOf]
      refine ⟨took ++ [k], passed, ?_, ?_, ?_, ?_, fun hall => ?_, ?_, ?_⟩
      · rw [List.append_assoc]
        exact (List.perm_append_comm.append_left took).trans
          (by rw [← List.append_assoc]; exact h.once.append_right [k])
      · simp only [h.taken, hedits]
      · simp only [h.applied, List.map_append]
        rfl
      · exact h.skipped.imp fun j s hs => ⟨hs.1, hs.2.mono (List.subset_append_left took [k])⟩
      · -- with a fix taken already this one would have been passed over
        have hle := h.single hall
        simp only [hall, h.applied, List.length_map, Bool.not_false, Bool.true_and,
          decide_eq_true_eq] at hone
        rw [List.length_append, List.length_singleton]
        omega
      · rw [hedits, List.forall_mem_append]
        exact ⟨h.lie, hlie⟩
      · rw [hedits, List.pairwise_append]
        exact ⟨h.separate, hpair, htaken⟩

/-- Looking at fixes one after the other, each is taken or passed over. -/
theorem accounts_foldl {c : Choice} (h : c.Accounts files all ks took passed)
    (more : List Candidate) : ∃ took' passed',
      (more.foldl (choose files all) c).Accounts files all (ks ++ more) took' passed' := by
  induction more generalizing c ks took passed with
  | nil => exact ⟨took, passed, by rwa [List.append_nil]⟩
  | cons k more ih =>
    obtain ⟨took', passed', hk⟩ := accounts_choose h k
    rw [List.foldl_cons, List.append_cons]
    exact ih hk

/-! ## Changed files -/

theorem mem_touched {es : List Edit} {id : FileId} :
    id ∈ touched es ↔ ∃ e ∈ es, e.span.file = id := by
  rw [touched, (List.mergeSort_perm _ _).mem_iff, List.mem_eraseDups, List.mem_map]

theorem nodup_eraseDups (ids : List FileId) : ids.eraseDups.Nodup := by
  cases ids with
  | nil => exact List.nodup_nil
  | cons id rest =>
    rw [List.eraseDups_cons, List.nodup_cons, List.mem_eraseDups]
    exact ⟨by simp, nodup_eraseDups _⟩
termination_by ids.length
decreasing_by exact Nat.lt_succ_of_le (List.length_filter_le _ _)

/-- The files that edits change are listed in increasing order, each once. -/
theorem pairwise_touched (es : List Edit) : (touched es).Pairwise (· < ·) := by
  have hsorted : (touched es).Pairwise (· ≤ ·) :=
    (List.pairwise_mergeSort (fun a b c => by simpa using Nat.le_trans)
      (fun a b => by simpa using Nat.le_total a b) _).imp of_decide_eq_true
  have hnodup : (touched es).Nodup :=
    (List.mergeSort_perm _ _).nodup_iff.mpr (nodup_eraseDups _)
  exact (hsorted.and hnodup).imp fun h => Nat.lt_of_le_of_ne h.1 h.2

/-- What is told of a changed file: its path, how many edits are made in it, and its text, which is
the content with the span of each edit replaced by its text, as if they were made one at a time, the
one that starts last first.  In the order in which they are made no part that is copied is missing
from the content. -/
structure Change.Makes (files : Files) (es : List Edit) (c : Change) (f : File) : Prop where
  file : files c.file = some f
  path : c.path = f.path
  edits : c.edits = es.length
  inOrder : Edit.InOrder f.size 0 (Edit.sorted es)
  replaced : c.text = Edit.replaced f.content es
  backwards : c.text = Edit.madeBackwards f.bytes es

/-- There is one change for each file with edits, in increasing order. -/
theorem files_changes {es : List Edit} (h : ∀ e ∈ es, e.Lies files) :
    (changes files es).map (·.file) = touched es := by
  rw [changes, List.map_filterMap]
  conv_rhs => rw [← List.filterMap_some (l := touched es)]
  refine List.filterMap_congr fun id hid => ?_
  obtain ⟨e, he, rfl⟩ := mem_touched.mp hid
  obtain ⟨f, hf, -⟩ := h e he
  rw [hf]
  rfl

theorem changes_nil (files : Files) : changes files [] = [] := by
  simp [changes, touched]

/-- What each change tells. -/
theorem makes_of_mem_changes {es : List Edit} (hlie : ∀ e ∈ es, e.Lies files)
    (hseparate : es.Pairwise Separate) {c : Change} (hc : c ∈ changes files es) :
    ∃ f, c.Makes files (es.filter (·.span.file = c.file)) f := by
  obtain ⟨id, -, hc⟩ := List.mem_filterMap.mp hc
  obtain ⟨f, hf, rfl⟩ := Option.map_eq_some_iff.mp hc
  have hmine {e : Edit} (he : e ∈ es.filter (·.span.file = id)) : e.span.file = id :=
    of_decide_eq_true (List.mem_filter.mp he).2
  have hin : ∀ e ∈ es.filter (·.span.file = id), e.Fits f.content.size := fun e he => by
    obtain ⟨f', hf', hfits⟩ := hlie e (List.mem_of_mem_filter he)
    rw [hmine he] at hf'
    obtain rfl : f = f' := Option.some.inj (hf.symm.trans hf')
    exact hfits
  have happart : (es.filter (·.span.file = id)).Pairwise Edit.Apart :=
    (hseparate.filter _).imp_of_mem fun he hf' h => h ((hmine he).trans (hmine hf').symm)
  exact ⟨f, hf, rfl, rfl, Edit.inOrder_sorted hin happart,
    Edit.applyAll_eq_replaced f.content hin happart,
    Edit.applyAll_eq_madeBackwards f.content hin happart⟩

/-! ## Plans -/

/-- The fixes of diagnostics, each with the diagnostic that offers it. -/
def offered (ds : List Diagnostic) : List (Diagnostic × Fix) :=
  ds.flatMap fun d => d.fixes.map fun f => (d, f)

/-- A plan looks at all fixes of the diagnostics. -/
theorem map_candidates (ds : List Diagnostic) :
    (candidates ds).map (fun k => (k.diagnostic, k.fix)) = offered ds := by
  rw [candidates, offered, List.map_flatMap]
  simp only [List.map_map]
  rfl

/-- A plan that accounts for the fixes of diagnostics, those in `took` and those in `passed`. -/
structure Plan.Accounts (files : Files) (all : Bool) (ds : List Diagnostic) (p : Plan)
    (took passed : List Candidate) : Prop where
  once : ((took ++ passed).map fun k => (k.diagnostic, k.fix)).Perm
    (ds.flatMap fun d => d.fixes.map fun f => (d, f))
  /-- What the plan tells names each fix once. -/
  titles : (p.applied.map (·.title) ++ p.skipped.map (·.title)).Perm
    (ds.flatMap fun d => d.fixes.map (·.title))
  applied : p.applied = took.map (·.applied files)
  skipped : List.Forall₂ (fun k s => s.title = k.fix.title ∧ s.reason.Bars files all took k)
    passed p.skipped
  single : all = false → p.applied.length ≤ 1
  lie : ∀ e ∈ editsOf took, e.Lies files
  separate : (editsOf took).Pairwise Separate
  increasing : (p.changes.map (·.file)).Pairwise (· < ·)
  touched : ∀ id, id ∈ p.changes.map (·.file) ↔ ∃ e ∈ editsOf took, e.span.file = id
  texts : ∀ c ∈ p.changes,
    ∃ f, c.Makes files ((editsOf took).filter (·.span.file = c.file)) f

theorem titles_skipped {skipped : List Skipped} {P : Candidate → Skipped → Prop}
    (h : List.Forall₂ (fun k s => s.title = k.fix.title ∧ P k s) passed skipped) :
    skipped.map (·.title) = passed.map (·.fix.title) := by
  induction h with
  | nil => rfl
  | cons h _ ih => rw [List.map_cons, List.map_cons, h.1, ih]

/-- If the fixes of the diagnostics are those taken and those passed over, then so are their
titles. -/
theorem titles_perm {ds : List Diagnostic} {skipped : List Skipped}
    {P : Candidate → Skipped → Prop}
    (honce : ((took ++ passed).map fun k => (k.diagnostic, k.fix)).Perm (offered ds))
    (hskipped : List.Forall₂ (fun k s => s.title = k.fix.title ∧ P k s) passed skipped) :
    ((took.map (·.applied files)).map (·.title) ++ skipped.map (·.title)).Perm
      (ds.flatMap fun d => d.fixes.map (·.title)) := by
  have hoffered : (offered ds).map (·.2.title) = ds.flatMap fun d => d.fixes.map (·.title) := by
    rw [offered, List.map_flatMap]
    simp only [List.map_map]
    rfl
  rw [← hoffered, titles_skipped hskipped]
  have htitles := honce.map (·.2.title)
  rw [List.map_map, List.map_append] at htitles
  rw [List.map_map]
  exact htitles

/-- Plans are sound.  Each fix of the diagnostics is taken or passed over, once, and told of under
its title; what is taken is taken with all edits, lies in its files and does not meet; and each file
with edits is given once, in increasing order, with those edits made.  There is no plan only if no
fix could be taken. -/
theorem plan_sound (files : Files) (ds : List Diagnostic) (all : Bool) :
    ∃ took passed, (plan (some files) ds all).1.Accounts files all ds took passed ∧
      (plan (some files) ds all).2 = if took = [] then some .noFixes else none := by
  -- those without edits are passed over at once, the others are looked at in source order
  let empty := (candidates ds).filter (·.fix.edits.isEmpty)
  let rest := ((candidates ds).filter (!·.fix.edits.isEmpty)).mergeSort Candidate.notAfter
  let skipped : List Skipped := empty.map fun k => ⟨k.fix.title, .noEdits⟩
  -- both groups together are the candidates, in another order
  have hparts : (empty ++ rest).Perm (candidates ds) :=
    ((List.mergeSort_perm _ _).append_left _).trans (List.filter_append_perm _ _)
  have hstart : Choice.Accounts files all empty { skipped } [] empty := by
    refine ⟨.refl _, rfl, rfl, ?_, fun _ => Nat.zero_le _, List.forall_mem_nil _, .nil⟩
    rw [List.forall₂_map_right_iff, List.forall₂_same]
    exact fun k hk => ⟨rfl, List.isEmpty_iff.mp (List.mem_filter.mp hk).2⟩
  obtain ⟨took, passed, h⟩ := accounts_foldl hstart rest
  generalize hc : rest.foldl (choose files all) { skipped } = c at h
  have hplan : plan (some files) ds all
      = (⟨took.map (·.applied files), c.skipped, changes files (editsOf took)⟩,
          if took = [] then some .noFixes else none) := by
    have hunfold : plan (some files) ds all
        = if c.applied.isEmpty then ({ skipped := c.skipped }, some .noFixes)
          else (⟨c.applied, c.skipped, changes files c.taken⟩, none) := by
      rw [← hc, plan, List.partition_eq_filter_filter]
      rfl
    -- without a fix that was taken nothing changes, and that is the failure
    rw [hunfold, h.applied, h.taken]
    cases took with
    | nil => simp [editsOf, changes_nil]
    | cons => rfl
  rw [hplan]
  have hfiles := files_changes h.lie
  have honce : ((took ++ passed).map fun k => (k.diagnostic, k.fix)).Perm (offered ds) := by
    rw [← map_candidates]
    exact (h.once.trans hparts).map _
  refine ⟨took, passed, ⟨honce, titles_perm honce h.skipped, rfl, h.skipped, fun hall => ?_, h.lie,
    h.separate, ?_, fun id => ?_, fun c hc => makes_of_mem_changes h.lie h.separate hc⟩, rfl⟩
  · rw [List.length_map]
    exact h.single hall
  · rw [hfiles]
    exact pairwise_touched _
  · rw [hfiles, mem_touched]

end Repair

end Storyline
