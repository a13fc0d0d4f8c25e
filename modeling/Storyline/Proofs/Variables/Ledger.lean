import Mathlib.Data.List.Forall2
import Storyline.Proofs.Variables.Paths
import Storyline.Proofs.Variables.Writes

/-!
# Folding by path

A ledger is what folding comes down to when variables are named by their paths: lists of notes, one
for each path.  Folding writes into a tidy store goes step by step with folding them into a ledger
that has the same notes (`Models`), so the order in which variables and objects were made drops
out.

What a file adds to a ledger depends on the notes of that file only, and it leaves those of all
other files alone.  So after the assignments of a file were replaced, the notes of that file are
those of its scripts by themselves (`replace_notes`).
-/

namespace Storyline.Variables

open Store (Extends Tidy)

instance (p : List Bytes) (ps : List (List Bytes)) : Decidable (p ∈ ps) :=
  List.instDecidableMemOfLawfulBEq p ps

/-- Notes by path, last name first. -/
abbrev Notes := List Bytes → List Assignment

/-- The notes of one file. -/
def Notes.of (N : Notes) (file : FileId) : Notes := fun p => (N p).filter fun a => a.origin = file

/-- Notes, and the paths that one script has assigned so far. -/
structure Ledger where
  notes : Notes
  touched : List (List Bytes) := []

namespace Ledger

/-- Adds a note at a path. -/
def record (L : Ledger) (p : List Bytes) (a : Assignment) : Ledger where
  notes := fun q => if q = p then L.notes p ++ [a] else L.notes q
  touched := if p ∈ L.touched then L.touched else L.touched ++ [p]

/-- Notes that a path is used as an object, once for each file. -/
def refer (f : Fragment) (L : Ledger) (p : List Bytes) (span : Span) : Ledger :=
  if (L.notes p).any fun a => a.origin = f.file && a.kind = .object 0 then L
  else L.record p ⟨f.file, .object 0, span.shift f.base f.file⟩

/-- Follows a chain of properties; gives the path at its end and where its last name stands. -/
def resolve (f : Fragment) : (L : Ledger) → (p : List Bytes) → (span : Span) → List Step →
    Ledger × List Bytes × Span
  | L, p, span, [] => (L, p, span)
  | L, p, span, step :: rest => resolve f (L.refer f p span) (step.name :: p) step.span rest

/-- Folds one write. -/
def perform (f : Fragment) (L : Ledger) (w : Write) : Ledger :=
  let (L, p, span) := resolve f L [w.root.name] w.root.span w.steps
  L.record p ⟨f.file, w.kind, span.shift f.base f.file⟩

/-- Folds writes, one after the other. -/
def performAll (f : Fragment) (L : Ledger) (ws : List Write) : Ledger := ws.foldl (perform f) L

/-- Folds scripts, one after the other; gives the paths that each assigned. -/
def foldAll : Notes → List Fragment → List (List (List Bytes)) × Notes
  | N, [] => ([], N)
  | N, f :: fs =>
    let L := performAll f { notes := N } (writesAll f.script)
    let (rest, N) := foldAll L.notes fs
    (L.touched :: rest, N)

end Ledger

/-! ## Stores follow their ledgers -/

/-- A store in the middle of a fold and its ledger. -/
structure Models (s : FoldState) (L : Ledger) : Prop where
  tidy : s.store.Tidy
  notes : ∀ p, s.store.notes p = L.notes p
  touched : List.Forall₂ (fun id p => s.store.along? p = some id) s.touched.toList L.touched

/-- A later state of a fold, and its ledger. -/
structure Follows (s t : FoldState) (L : Ledger) : Prop extends Models t L where
  grown : Extends s.store t.store

theorem forall₂_along?_mem {s : Store} {id : VarId} {p : List Bytes} (hp : s.along? p = some id) :
    {ids : List VarId} → {ps : List (List Bytes)} →
    List.Forall₂ (fun id p => s.along? p = some id) ids ps → (id ∈ ids ↔ p ∈ ps)
  | _, _, .nil => by simp
  | _, _, .cons (a := j) (b := q) hq hrest => by
    have hhead : id = j ↔ p = q := by
      constructor
      · rintro rfl
        exact Store.along?_unique p hp hq
      · rintro rfl
        exact Option.some.inj (hp.symm.trans hq)
    rw [List.mem_cons, List.mem_cons, hhead, forall₂_along?_mem hp hrest]

theorem Models.extend {s : FoldState} {L : Ledger} (h : Models s L) {t : Store}
    (hext : Extends s.store t) (ht : t.Tidy) (hnotes : ∀ p, t.notes p = s.store.notes p) :
    Models { s with store := t } L where
  tidy := ht
  notes := fun p => (hnotes p).trans (h.notes p)
  touched := h.touched.imp fun _ _ hp => hext.along? ht.toWellFormed hp

theorem record_follows {s : FoldState} {L : Ledger} (h : Models s L) (f : Fragment)
    {p : List Bytes} {id : VarId} (hp : s.store.along? p = some id) {k : Kind} (span : Span)
    (hk : ∀ o, k = .object o → s.store.home? o = some id) :
    Follows s ((Fold.record f id k span).run s).2
      (L.record p ⟨f.file, k.shape, span.shift f.base f.file⟩) := by
  obtain ⟨htidy, hext, hnotes⟩ := h.tidy.assign hp ⟨f.file, k, span.shift f.base f.file⟩ hk
  refine ⟨⟨htidy, fun q => ?_, ?_⟩, hext⟩
  · show (s.store.assign id _).notes q = _
    rw [hnotes q, h.notes p, h.notes q]
    rfl
  · have hold := h.touched.imp fun _ _ hq => hext.along? htidy.toWellFormed hq
    show List.Forall₂ _ (if s.touched.contains id then s.touched else s.touched.push id).toList
      (if p ∈ L.touched then L.touched else L.touched ++ [p])
    have hmem : s.touched.contains id = true ↔ p ∈ L.touched := by
      rw [Array.contains_iff_mem, ← Array.mem_toList_iff]
      exact forall₂_along?_mem hp h.touched
    by_cases hin : p ∈ L.touched
    · rw [if_pos (hmem.2 hin), if_pos hin]
      exact hold
    · rw [if_neg (fun hc => hin (hmem.1 hc)), if_neg hin, Array.toList_push]
      exact List.rel_append hold (.cons (hext.along? htidy.toWellFormed hp) .nil)

/-- Whether a file refers to the object of a variable can be told from the notes. -/
theorem refers_eq {s : FoldState} {L : Ledger} (h : Models s L) {p : List Bytes} {id : VarId}
    (hp : s.store.along? p = some id) {o : ObjectId} (ho : s.store.home? o = some id)
    (file : FileId) :
    s.store.refers id o file
      = (L.notes p).any fun a => a.origin = file && a.kind = .object 0 := by
  obtain ⟨v, hv⟩ := Store.exists_get?_of_along? hp
  have hkind {a : Assignment} (ha : a ∈ v.assignments) :
      a.kind = .object o ↔ a.kind.shape = .object 0 := by
    cases hk : a.kind with
    | object o' =>
      obtain rfl := h.tidy.homes_distinct (h.tidy.own hv ha hk) ho
      simp [Kind.shape]
    | _ => simp [Kind.shape]
  rw [← h.notes, Store.notes_eq hp hv, Store.refers, hv, Bool.eq_iff_iff]
  simp only [Option.map_some, Option.getD_some, List.any_map, List.any_eq_true]
  constructor
  · rintro ⟨a, ha, hb⟩
    obtain ⟨horigin, hk⟩ := Bool.and_eq_true_iff.1 hb
    exact ⟨a, ha, Bool.and_eq_true_iff.2
      ⟨horigin, decide_eq_true ((hkind ha).1 (of_decide_eq_true hk))⟩⟩
  · rintro ⟨a, ha, hb⟩
    obtain ⟨horigin, hk⟩ := Bool.and_eq_true_iff.1 hb
    exact ⟨a, ha, Bool.and_eq_true_iff.2
      ⟨horigin, decide_eq_true ((hkind ha).2 (of_decide_eq_true hk))⟩⟩

theorem Models.refl {s : FoldState} {L : Ledger} (h : Models s L) : Follows s s L :=
  ⟨h, .refl _⟩

theorem Follows.trans {s t u : FoldState} {L L' : Ledger} (h : Follows s t L)
    (h' : Follows t u L') : Follows s u L' :=
  ⟨h'.toModels, h.grown.trans h'.grown⟩

/-- The object that a chain runs through after a variable, made if it has to be. -/
def reached (s : FoldState) (id : VarId) : ObjectId × FoldState :=
  match (s.store.kindOf id).object? with
  | some object => (object, s)
  | none => ((s.store.homeObject id).1, { s with store := (s.store.homeObject id).2 })

theorem objectOf_run (f : Fragment) (id : VarId) (span : Span) (s : FoldState) :
    (Fold.objectOf f id span).run s
      = ((reached s id).1,
          if (reached s id).2.store.refers id (reached s id).1 f.file then (reached s id).2
          else ((Fold.record f id (.object (reached s id).1) span).run (reached s id).2).2) := by
  have hget (x : FoldState) : (get : Fold FoldState).run x = (x, x) := rfl
  have hstore (x : FoldState) (g : Store → ObjectId × Store) :
      (Fold.onStore g).run x = ((g x.store).1, { x with store := (g x.store).2 }) := rfl
  rw [Fold.objectOf, run_bind, hget, reached]
  cases hk : (s.store.kindOf id).object? with
  | some o =>
    simp only [run_bind, run_pure, hget]
    cases s.store.refers id o f.file <;> rfl
  | none =>
    simp only [run_bind, hget, hstore]
    cases (s.store.homeObject id).2.refers id (s.store.homeObject id).1 f.file <;> rfl

theorem reached_follows {s : FoldState} {L : Ledger} (h : Models s L) {p : List Bytes}
    {id : VarId} (hp : s.store.along? p = some id) :
    Follows s (reached s id).2 L ∧ (reached s id).2.store.home? (reached s id).1 = some id := by
  unfold reached
  cases hk : (s.store.kindOf id).object? with
  | some o => exact ⟨h.refl, h.tidy.home?_of_kindOf hk⟩
  | none =>
    obtain ⟨o, t, heq, ht, hext, hnotes, ho⟩ := h.tidy.homeObject hp
    simp only [heq]
    exact ⟨⟨h.extend hext ht hnotes, hext⟩, ho⟩

/-- Writing through a variable makes it refer to its own object. -/
theorem objectOf_follows {s : FoldState} {L : Ledger} (h : Models s L) (f : Fragment)
    {p : List Bytes} {id : VarId} (hp : s.store.along? p = some id) (span : Span) :
    ∃ o t, (Fold.objectOf f id span).run s = (o, t) ∧ Follows s t (L.refer f p span) ∧
      t.store.objectAlong? p = some o := by
  obtain ⟨hm, ho⟩ := reached_follows h hp
  have hp' := hm.grown.along? hm.tidy.toWellFormed hp
  have hat := Store.objectAlong?_of_along? hm.tidy.toWellFormed hp' ho
  refine ⟨_, _, objectOf_run f id span s, ?_⟩
  rw [refers_eq hm.toModels hp' ho, Ledger.refer]
  split
  · exact ⟨hm, hat⟩
  · have hrec := record_follows hm.toModels f hp' (k := .object (reached s id).1) span
      fun o' h' => by
        cases h'
        exact ho
    exact ⟨hm.trans hrec, hrec.grown.objectAlong? hrec.tidy.toWellFormed hat⟩

theorem resolve_run_cons (f : Fragment) (id : VarId) (span : Span) (step : Step)
    (rest : List Step) (s : FoldState) :
    (Fold.resolve f id span (step :: rest)).run s
      = let r := (Fold.objectOf f id span).run s
        let d := r.2.store.declare r.1 step.name
        (Fold.resolve f d.1 step.span rest).run { r.2 with store := d.2 } := (rfl)

theorem resolve_follows (f : Fragment) : (steps : List Step) → {s : FoldState} → {L : Ledger} →
    Models s L → {p : List Bytes} → {id : VarId} → s.store.along? p = some id → (span : Span) →
    ∃ id' t, (Fold.resolve f id span steps).run s = ((id', (L.resolve f p span steps).2.2), t) ∧
      Follows s t (L.resolve f p span steps).1 ∧
      t.store.along? (L.resolve f p span steps).2.1 = some id'
  | [], s, L, h, p, id, hp, span => ⟨id, s, rfl, h.refl, hp⟩
  | step :: rest, s, L, h, p, id, hp, span => by
    obtain ⟨o, t, hrun, ht, ho⟩ := objectOf_follows h f hp span
    obtain ⟨j, u, heq, hu, hext, hnotes, hj⟩ := ht.tidy.declare ho step.name
    obtain ⟨id', w, hw, hfollows, hend⟩ :=
      resolve_follows f rest (ht.toModels.extend hext hu hnotes) hj step.span
    refine ⟨id', w, ?_, ⟨hfollows.toModels, ?_⟩, hend⟩
    · rw [resolve_run_cons, hrun]
      simp only [heq]
      exact hw
    · exact ht.grown.trans (hext.trans hfollows.grown)

theorem Kind.shape_of_isPlain {k : Kind} (h : k.isPlain = true) : k.shape = k := by
  cases k <;> simp_all [Kind.isPlain, Kind.shape]

theorem perform_run (f : Fragment) (s : FoldState) (w : Write) :
    perform f s w
      = let d := s.store.declare 0 w.root.name
        let r := (Fold.resolve f d.1 w.root.span w.steps).run { s with store := d.2 }
        ((Fold.record f r.1.1 w.kind r.1.2).run r.2).2 := (rfl)

/-- A write to a store is a write to its ledger. -/
theorem perform_follows {s : FoldState} {L : Ledger} (h : Models s L) (f : Fragment) {w : Write}
    (hw : w.kind.isPlain = true) : Follows s (perform f s w) (L.perform f w) := by
  obtain ⟨id, t, heq, ht, hext, hnotes, hid⟩ := 
    h.tidy.declare (show s.store.objectAlong? [] = some 0 from rfl) w.root.name
  obtain ⟨j, u, hu, hfollows, hj⟩ :=
    resolve_follows f w.steps (h.extend hext ht hnotes) hid w.root.span
  have hrec := record_follows hfollows.toModels f hj (k := w.kind)
    (L.resolve f [w.root.name] w.root.span w.steps).2.2 fun o ho => by
      simp [ho, Kind.isPlain] at hw
  rw [perform_run, heq]
  simp only [hu]
  refine ⟨?_, hext.trans (hfollows.grown.trans hrec.grown)⟩
  rw [Kind.shape_of_isPlain hw] at hrec
  exact hrec.toModels

theorem performAll_follows (f : Fragment) : (ws : List Write) → (∀ w ∈ ws, w.kind.isPlain = true) →
    {s : FoldState} → {L : Ledger} → Models s L →
    Follows s (performAll f s ws) (L.performAll f ws)
  | [], _, s, L, h => h.refl
  | w :: ws, hws, s, L, h => by
    have hw := perform_follows h f (hws w (by simp))
    exact hw.trans (performAll_follows f ws (fun x hx => hws x (by simp [hx])) hw.toModels)

/-- Whether no assignment of some scripts takes its kind from a variable. -/
def areSettled (fs : List Fragment) : Bool := fs.all fun f => isSettledAll f.script

/-- Numbers of variables, one list for each script, and their paths. -/
def AtPaths (s : Store) : List (List VarId) → List (List (List Bytes)) → Prop :=
  List.Forall₂ (List.Forall₂ fun id p => s.along? p = some id)

theorem AtPaths.extend {s t : Store} {ids : List (List VarId)} {ps : List (List (List Bytes))}
    (h : AtPaths s ids ps) (hext : Extends s t) (ht : t.Tidy) : AtPaths t ids ps :=
  List.Forall₂.imp (fun _ _ h' => h'.imp fun _ _ hp => hext.along? ht.toWellFormed hp) h

/-- Folding settled scripts into a tidy store is folding them into its notes. -/
theorem foldAll_follows : (fs : List Fragment) → areSettled fs = true → {s : Store} → s.Tidy →
    {N : Notes} → (∀ p, s.notes p = N p) →
    (s.foldAll fs).2.Tidy ∧ Extends s (s.foldAll fs).2 ∧
      (∀ p, (s.foldAll fs).2.notes p = (Ledger.foldAll N fs).2 p) ∧
      AtPaths (s.foldAll fs).2 (s.foldAll fs).1 (Ledger.foldAll N fs).1
  | [], _, s, hs, N, hN => ⟨hs, .refl s, hN, .nil⟩
  | f :: fs, hset, s, hs, N, hN => by
    obtain ⟨hf, hfs⟩ := Bool.and_eq_true_iff.1 hset
    have hstart : Models { store := s } { notes := N } := ⟨hs, hN, .nil⟩
    have hfol := performAll_follows f (writesAll f.script) (arePlain_writesAll f.script) hstart
    obtain ⟨ht, hext, hnotes, hids⟩ := foldAll_follows fs hfs hfol.tidy hfol.notes
    simp only [Store.foldAll, fold_of_isSettled hf, Ledger.foldAll]
    refine ⟨ht, hfol.grown.trans hext, hnotes, .cons ?_ hids⟩
    exact hfol.touched.imp fun _ _ hp => hext.along? ht.toWellFormed hp

/-! ## Files do not disturb each other -/

theorem Notes.of_apply (N : Notes) (g : FileId) (p : List Bytes) :
    N.of g p = (N p).filter fun a => a.origin = g := rfl

namespace Ledger

/-- Two ledgers with the same notes of a file, in the middle of the same script. -/
structure Alike (g : FileId) (L L' : Ledger) : Prop where
  notes : L.notes.of g = L'.notes.of g
  touched : L.touched = L'.touched

theorem notes_record_of (L : Ledger) (p : List Bytes) (a : Assignment) (g : FileId)
    (q : List Bytes) :
    (L.record p a).notes.of g q
      = if q = p then L.notes.of g p ++ [a].filter fun a => a.origin = g else L.notes.of g q := by
  simp only [Notes.of_apply, record]
  split
  · rw [List.filter_append]
  · rfl

theorem Alike.record {g : FileId} {L L' : Ledger} (h : Alike g L L') (p : List Bytes)
    (a : Assignment) : Alike g (L.record p a) (L'.record p a) where
  notes := by
    funext q
    rw [notes_record_of, notes_record_of, h.notes]
  touched := by
    show (if p ∈ L.touched then _ else _) = if p ∈ L'.touched then _ else _
    rw [h.touched]

theorem any_of (N : Notes) (g : FileId) (p : List Bytes) :
    ((N p).any fun a => a.origin = g && a.kind = .object 0)
      = (N.of g p).any fun a => a.origin = g && a.kind = .object 0 := by
  rw [Notes.of_apply, List.any_filter]
  refine List.any_congr rfl fun a => ?_
  rw [← Bool.and_assoc, Bool.and_self]

theorem Alike.refer {f : Fragment} {L L' : Ledger} (h : Alike f.file L L') (p : List Bytes)
    (span : Span) : Alike f.file (L.refer f p span) (L'.refer f p span) := by
  unfold Ledger.refer
  rw [any_of L.notes, any_of L'.notes, h.notes]
  split
  · exact h
  · exact h.record p _

theorem Alike.resolve {f : Fragment} : (steps : List Step) → {L L' : Ledger} →
    Alike f.file L L' → (p : List Bytes) → (span : Span) →
    Alike f.file (L.resolve f p span steps).1 (L'.resolve f p span steps).1 ∧
      (L.resolve f p span steps).2 = (L'.resolve f p span steps).2
  | [], _, _, h, _, _ => ⟨h, rfl⟩
  | step :: rest, _, _, h, p, span => Alike.resolve rest (h.refer p span) (step.name :: p) step.span

theorem Alike.perform {f : Fragment} {L L' : Ledger} (h : Alike f.file L L') (w : Write) :
    Alike f.file (L.perform f w) (L'.perform f w) := by
  obtain ⟨hr, heq⟩ := h.resolve w.steps [w.root.name] w.root.span
  simp only [Ledger.perform, heq]
  exact hr.record _ _

theorem Alike.performAll {f : Fragment} : (ws : List Write) → {L L' : Ledger} →
    Alike f.file L L' → Alike f.file (L.performAll f ws) (L'.performAll f ws)
  | [], _, _, h => h
  | w :: ws, _, _, h => Alike.performAll ws (h.perform w)

/-- What a file adds depends on its own notes only. -/
theorem foldAll_of {g : FileId} : (fs : List Fragment) → (∀ f ∈ fs, f.file = g) →
    {N N' : Notes} → N.of g = N'.of g →
    (foldAll N fs).1 = (foldAll N' fs).1 ∧ (foldAll N fs).2.of g = (foldAll N' fs).2.of g
  | [], _, _, _, h => ⟨rfl, h⟩
  | f :: fs, hfs, N, N', h => by
    have hf : f.file = g := hfs f (by simp)
    subst hf
    have hstart : Alike f.file { notes := N } { notes := N' } := ⟨h, rfl⟩
    have hall := hstart.performAll (writesAll f.script)
    obtain ⟨hps, hN⟩ := foldAll_of fs (fun x hx => hfs x (by simp [hx])) hall.notes
    simp only [foldAll]
    exact ⟨by rw [hall.touched, hps], hN⟩

theorem record_of_ne (L : Ledger) (p : List Bytes) {a : Assignment} {g : FileId}
    (h : a.origin ≠ g) : (L.record p a).notes.of g = L.notes.of g := by
  funext q
  rw [notes_record_of]
  split
  · rename_i hq
    simp [h, hq]
  · rfl

theorem refer_of_ne {f : Fragment} {g : FileId} (h : f.file ≠ g) (L : Ledger) (p : List Bytes)
    (span : Span) : (L.refer f p span).notes.of g = L.notes.of g := by
  unfold refer
  split
  · rfl
  · exact record_of_ne L p h

theorem resolve_of_ne {f : Fragment} {g : FileId} (h : f.file ≠ g) : (steps : List Step) →
    (L : Ledger) → (p : List Bytes) → (span : Span) →
    (L.resolve f p span steps).1.notes.of g = L.notes.of g
  | [], _, _, _ => rfl
  | _ :: rest, L, p, span =>
    (resolve_of_ne h rest (L.refer f p span) _ _).trans (refer_of_ne h L p span)

theorem performAll_of_ne {f : Fragment} {g : FileId} (h : f.file ≠ g) : (ws : List Write) →
    (L : Ledger) → (L.performAll f ws).notes.of g = L.notes.of g
  | [], _ => rfl
  | w :: ws, L => by
    have hw : (L.perform f w).notes.of g = L.notes.of g :=
      (record_of_ne _ _ h).trans (resolve_of_ne h w.steps L _ _)
    exact (performAll_of_ne h ws (L.perform f w)).trans hw

/-- A file leaves the notes of all others alone. -/
theorem foldAll_of_ne {file g : FileId} (h : file ≠ g) : (fs : List Fragment) →
    (∀ f ∈ fs, f.file = file) → (N : Notes) → (foldAll N fs).2.of g = N.of g
  | [], _, _ => rfl
  | f :: fs, hfs, N => by
    have hf : f.file ≠ g := by rwa [hfs f (by simp)]
    exact (foldAll_of_ne h fs (fun x hx => hfs x (by simp [hx])) _).trans
      (performAll_of_ne hf (writesAll f.script) _)

end Ledger

/-! ## Replacing the assignments of a file -/

/-- The notes of scripts by themselves, and the paths that each assigns. -/
def ownNotes (fs : List Fragment) : List (List (List Bytes)) × Notes :=
  Ledger.foldAll (fun _ => []) fs

/-- After the assignments of a file were replaced, its notes are those of its scripts by
themselves, and those of all other files are what they were. -/
theorem replace_notes {s : Store} (hs : s.Tidy) {file : FileId} {fs : List Fragment}
    (hfile : ∀ f ∈ fs, f.file = file) (hset : areSettled fs = true) :
    (s.replace file fs).2.Tidy ∧ Extends s (s.replace file fs).2 ∧
      Notes.of (s.replace file fs).2.notes file = (ownNotes fs).2.of file ∧
      (∀ g, file ≠ g → Notes.of (s.replace file fs).2.notes g = Notes.of s.notes g) ∧
      AtPaths (s.replace file fs).2 (s.replace file fs).1 (ownNotes fs).1 := by
  obtain ⟨hr, hrext, hrnotes⟩ := hs.removeOrigin file
  obtain ⟨ht, hext, hnotes, hids⟩ := foldAll_follows fs hset hr (fun _ => rfl)
  have hempty : Notes.of (s.removeOrigin file).notes file = Notes.of (fun _ => []) file := by
    funext p
    simp [Notes.of_apply, hrnotes]
  obtain ⟨hps, hown⟩ := Ledger.foldAll_of fs hfile hempty
  refine ⟨ht, hrext.trans hext, ?_, fun g hg => ?_, ?_⟩
  · exact (congrArg (Notes.of · file) (funext hnotes)).trans hown
  · have hkeep : Notes.of (s.removeOrigin file).notes g = Notes.of s.notes g := by
      funext p
      rw [Notes.of_apply, hrnotes, List.filter_filter, Notes.of_apply]
      refine List.filter_congr fun a _ => ?_
      by_cases ha : a.origin = g
      · simp [ha, Ne.symm hg]
      · simp [ha]
    exact (congrArg (Notes.of · g) (funext hnotes)).trans
      ((Ledger.foldAll_of_ne hg fs hfile _).trans hkeep)
  · rw [ownNotes, ← hps]
    exact hids

end Storyline.Variables
