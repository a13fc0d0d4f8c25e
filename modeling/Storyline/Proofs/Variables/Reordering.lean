import Mathlib.Data.List.Perm.Basic
import Storyline.Proofs.Variables.Table

/-!
# Scripts in any order

Scripts that do not read variables can be folded in any order.  Objects are made when they are first
needed and references are recorded by the first script of a file that needs them, so the stores
differ; but what they say about a path can be counted from the writes of all scripts at once
(`tally`).  A kind stands there as often as it is written there, and a reference once for every file
that writes through the path.  Counting does not see the order.
-/

namespace Storyline.Variables

open Script (Expr TokenKind)

/-! ## Scripts that do not read variables -/

mutual

/-- Whether the places in an expression are only assigned, counted up or down, called known methods
of, or constructed from.  `target` says whether the expression itself may be a place. -/
def isUnread (target : Bool) : Expr → Bool
  | .literal .. | .missing => true
  | .identifier .. => target
  | .group _ x => isUnread target x
  | .member _ base _ _ => target && isUnread true base
  | .index _ base i => target && (literalStep? i).isSome && isUnread true base
  | .binary _ op left right => isUnread op.isAssign left && isUnread false right
  | .unary _ op x => isUnread (op = .symbol .plusPlus || op = .symbol .minusMinus) x
  | .trailing _ _ x => isUnread true x
  | .call _ callee args => areUnread args && isUnread (receiverKind? callee).isSome callee
  | .construct _ callee args _ => areUnread args && isUnread true callee
  | .array _ xs => areUnread xs
  | .ternary _ cond yes no => isUnread false cond && isUnread false yes && isUnread false no
  | .template _ parts _ => areUnreadParts parts

/-- Whether the places in expressions are not read. -/
def areUnread : List Expr → Bool
  | [] => true
  | x :: xs => isUnread false x && areUnread xs

/-- Whether the places in the substitutions of a template are not read. -/
def areUnreadParts : List (Bytes × Expr) → Bool
  | [] => true
  | (_, x) :: rest => isUnread false x && areUnreadParts rest

end

theorem isSettled_of_literalStep? : (i : Expr) → (literalStep? i).isSome = true →
    isSettled i = true
  | .literal .., _ => rfl
  | .group _ x, h => isSettled_of_literalStep? x h
  | .identifier .., h | .member .., h | .index .., h | .binary .., h | .unary .., h
  | .trailing .., h | .call .., h | .construct .., h | .array .., h | .ternary .., h
  | .template .., h | .missing, h => by simp [literalStep?, Expr.unparen] at h

/-- The value of an expression that reads no variable has one kind in every store. -/
theorem isSome_fixedKind? : (e : Expr) → isUnread false e = true → (fixedKind? e).isSome = true
  | .literal .., _ | .missing, _ | .unary .., _ | .trailing .., _ | .call .., _ | .construct .., _
  | .array .., _ | .template .., _ => rfl
  | .identifier .., h => by simp [isUnread] at h
  | .member .., h => by simp [isUnread] at h
  | .index .., h => by simp [isUnread] at h
  | .group _ x, h => isSome_fixedKind? x h
  | .binary _ op left right, h => by
    obtain ⟨hl, hr⟩ := Bool.and_eq_true_iff.1 h
    obtain ⟨r, hr⟩ := Option.isSome_iff_exists.1 (isSome_fixedKind? right hr)
    unfold fixedKind?
    by_cases hop : op.isAssign = true
    · simp only [hop, if_true, assignedKind?, hr]
      split <;> rfl
    · have hop : op.isAssign = false := by simpa using hop
      rw [hop] at hl
      obtain ⟨l, hl⟩ := Option.isSome_iff_exists.1 (isSome_fixedKind? left hl)
      simp [hop, hl, hr, binaryKind?]
  | .ternary _ cond yes no, h => by
    simp only [isUnread, Bool.and_eq_true] at h
    obtain ⟨y, hy⟩ := Option.isSome_iff_exists.1 (isSome_fixedKind? yes h.1.2)
    obtain ⟨n, hn⟩ := Option.isSome_iff_exists.1 (isSome_fixedKind? no h.2)
    simp [fixedKind?, hy, hn]

mutual

/-- In a script that reads no variable, no assignment takes its kind from one. -/
theorem isSettled_of_isUnread : (e : Expr) → (target : Bool) → isUnread target e = true →
    isSettled e = true
  | .literal .., _, _ | .missing, _, _ | .identifier .., _, _ => rfl
  | .group _ x, target, h => isSettled_of_isUnread x target h
  | .member _ base _ _, _, h => isSettled_of_isUnread base true (Bool.and_eq_true_iff.1 h).2
  | .index _ base i, _, h => by
    simp only [isUnread, Bool.and_eq_true] at h
    simp only [isSettled, isSettled_of_literalStep? i h.1.2, isSettled_of_isUnread base true h.2,
      Bool.and_self]
  | .binary span op left right, _, h => by
    obtain ⟨hl, hr⟩ := Bool.and_eq_true_iff.1 h
    have hkind : (!op.isAssign || (fixedKind? (.binary span op left right)).isSome) = true := by
      cases hop : op.isAssign with
      | false => rfl
      | true =>
        apply isSome_fixedKind?
        exact h
    rw [isSettled, isSettled_of_isUnread right false hr, isSettled_of_isUnread left _ hl, hkind]
    rfl
  | .unary _ _ x, _, h => isSettled_of_isUnread x _ h
  | .trailing _ _ x, _, h => isSettled_of_isUnread x true h
  | .call _ callee args, _, h => by
    obtain ⟨ha, hc⟩ := Bool.and_eq_true_iff.1 h
    exact Bool.and_eq_true_iff.2
      ⟨isSettledAll_of_areUnread args ha, isSettled_of_isUnread callee _ hc⟩
  | .construct _ _ args _, _, h => isSettledAll_of_areUnread args (Bool.and_eq_true_iff.1 h).1
  | .array _ xs, _, h => isSettledAll_of_areUnread xs h
  | .ternary _ cond yes no, _, h => by
    simp only [isUnread, Bool.and_eq_true] at h
    simp only [isSettled, isSettled_of_isUnread cond false h.1.1,
      isSettled_of_isUnread yes false h.1.2, isSettled_of_isUnread no false h.2, Bool.and_self]
  | .template _ parts _, _, h => isSettledParts_of_areUnreadParts parts h

theorem isSettledAll_of_areUnread : (xs : List Expr) → areUnread xs = true →
    isSettledAll xs = true
  | [], _ => rfl
  | x :: xs, h => by
    obtain ⟨hx, hxs⟩ := Bool.and_eq_true_iff.1 h
    exact Bool.and_eq_true_iff.2
      ⟨isSettled_of_isUnread x false hx, isSettledAll_of_areUnread xs hxs⟩

theorem isSettledParts_of_areUnreadParts : (ps : List (Bytes × Expr)) →
    areUnreadParts ps = true → isSettledParts ps = true
  | [], _ => rfl
  | (_, x) :: ps, h => by
    obtain ⟨hx, hps⟩ := Bool.and_eq_true_iff.1 h
    exact Bool.and_eq_true_iff.2
      ⟨isSettled_of_isUnread x false hx, isSettledParts_of_areUnreadParts ps hps⟩

end

/-! ## Counting notes -/

/-- The path at the end of a chain of properties, last name first. -/
def pathFrom : (p : List Bytes) → List Step → List Bytes
  | p, [] => p
  | p, step :: rest => pathFrom (step.name :: p) rest

/-- The paths that a chain of properties goes through before its end. -/
def through : (p : List Bytes) → List Step → List (List Bytes)
  | _, [] => []
  | p, step :: rest => p :: through (step.name :: p) rest

/-- The path that is written to. -/
def Write.path (w : Write) : List Bytes := pathFrom [w.root.name] w.steps

/-- The paths that are written through. -/
def Write.through (w : Write) : List (List Bytes) := Variables.through [w.root.name] w.steps

/-- What can be counted of an assignment. -/
def Assignment.stamp (a : Assignment) : FileId × Kind := (a.origin, a.kind)

/-- How often a file notes a kind at a path. -/
def Notes.count (N : Notes) (p : List Bytes) (c : FileId × Kind) : Nat :=
  ((N p).map Assignment.stamp).count c

/-- How often a file is to note a kind at a path when these files have made these writes. -/
def tally (done : List (FileId × Write)) (p : List Bytes) (c : FileId × Kind) : Nat :=
  if c.2 = .object 0 then min 1 (done.countP fun d => p ∈ d.2.through ∧ d.1 = c.1)
  else done.countP fun d => p = d.2.path ∧ c = (d.1, d.2.kind)

/-- The writes of scripts, each with the file that makes it. -/
def writesOf (fs : List Fragment) : List (FileId × Write) :=
  fs.flatMap fun f => (writesAll f.script).map fun w => (f.file, w)

theorem tally_perm {done done' : List (FileId × Write)} (h : done.Perm done') (p : List Bytes)
    (c : FileId × Kind) : tally done p c = tally done' p c := by
  unfold tally
  rw [h.countP_eq, h.countP_eq]

namespace Ledger

theorem count_record (L : Ledger) (p : List Bytes) (a : Assignment) (q : List Bytes)
    (c : FileId × Kind) :
    (L.record p a).notes.count q c
      = L.notes.count q c + if q = p ∧ c = a.stamp then 1 else 0 := by
  unfold Notes.count record
  by_cases hq : q = p
  · subst hq
    by_cases hc : c = a.stamp
    · simp [hc]
    · have hne : a.stamp ≠ c := fun e => hc e.symm
      simp [hc, hne]
  · simp [hq]

theorem any_refers (N : Notes) (p : List Bytes) (file : FileId) :
    ((N p).any fun a => a.origin = file && a.kind = .object 0) = true
      ↔ 0 < N.count p (file, .object 0) := by
  unfold Notes.count
  rw [List.count_pos_iff, List.mem_map, List.any_eq_true]
  simp [Assignment.stamp]

/-- Noting that a path is used as an object makes sure that there is one such note of the file. -/
theorem count_refer (f : Fragment) (L : Ledger) (p : List Bytes) (span : Span) (q : List Bytes)
    (c : FileId × Kind) :
    (L.refer f p span).notes.count q c
      = if q = p ∧ c = (f.file, .object 0) then max 1 (L.notes.count q c)
        else L.notes.count q c := by
  unfold refer
  by_cases hany : ((L.notes p).any fun a => a.origin = f.file && a.kind = .object 0) = true
  · rw [if_pos hany]
    split
    · rename_i hqc
      obtain ⟨rfl, rfl⟩ := hqc
      exact (Nat.max_eq_right ((any_refers L.notes q f.file).1 hany)).symm
    · rfl
  · rw [if_neg hany, count_record]
    show L.notes.count q c + (if q = p ∧ c = (f.file, .object 0) then 1 else 0) = _
    split
    · rename_i hqc
      obtain ⟨rfl, rfl⟩ := hqc
      rw [any_refers, Nat.pos_iff_ne_zero, not_not] at hany
      rw [hany]
      rfl
    · rfl

theorem count_resolve (f : Fragment) (steps : List Step) (L : Ledger) (p : List Bytes)
    (span : Span) (q : List Bytes) (c : FileId × Kind) :
    (L.resolve f p span steps).1.notes.count q c
      = if q ∈ through p steps ∧ c = (f.file, .object 0) then max 1 (L.notes.count q c)
        else L.notes.count q c := by
  induction steps generalizing L p span with
  | nil => simp [resolve, through]
  | cons step rest ih =>
    rw [resolve, ih, count_refer]
    by_cases hc : c = (f.file, .object 0)
    · by_cases hq : q = p
      · -- a path that is noted already is not noted once more
        have htwice (n : Nat) : max 1 (max 1 n) = max 1 n := by rw [← Nat.max_assoc, Nat.max_self]
        simp only [through, hc, hq, and_true, if_true, List.mem_cons, true_or, htwice, ite_self]
      · simp [through, hc, hq]
    · simp [hc]

theorem path_resolve (f : Fragment) (steps : List Step) (L : Ledger) (p : List Bytes)
    (span : Span) : (L.resolve f p span steps).2.1 = pathFrom p steps := by
  induction steps generalizing L p span with
  | nil => rfl
  | cons step rest ih =>
    rw [resolve, ih]
    rfl

/-- A write notes its kind at its path, and that it goes through others. -/
theorem count_perform (f : Fragment) (L : Ledger) (w : Write) (q : List Bytes)
    (c : FileId × Kind) :
    (L.perform f w).notes.count q c
      = (if q ∈ w.through ∧ c = (f.file, .object 0) then max 1 (L.notes.count q c)
          else L.notes.count q c)
        + if q = w.path ∧ c = (f.file, w.kind) then 1 else 0 := by
  unfold perform
  rw [count_record, count_resolve, path_resolve]
  rfl

/-- Whether notes can be counted from writes. -/
def Tallied (N : Notes) (done : List (FileId × Write)) : Prop :=
  ∀ p c, N.count p c = tally done p c

theorem Tallied.perform {L : Ledger} {done : List (FileId × Write)} (h : Tallied L.notes done)
    (f : Fragment) {w : Write} (hw : w.kind.isPlain = true) :
    Tallied (L.perform f w).notes (done ++ [(f.file, w)]) := by
  intro p c
  obtain ⟨g, k⟩ := c
  rw [count_perform, h p (g, k)]
  unfold tally
  by_cases hk : k = .object 0
  · have hne : .object 0 ≠ w.kind := by
      intro e
      simp [← e, Kind.isPlain] at hw
    subst hk
    simp only [if_true, List.countP_append, List.countP_singleton, Prod.mk.injEq, hne, and_false,
      if_false, and_true, decide_eq_true_eq, eq_comm (a := f.file)]
    split <;> omega
  · simp only [hk, if_false, List.countP_append, List.countP_singleton, Prod.mk.injEq, and_false,
      decide_eq_true_eq]

theorem Tallied.performAll {f : Fragment} : (ws : List Write) → (∀ w ∈ ws, w.kind.isPlain = true) →
    {L : Ledger} → {done : List (FileId × Write)} → Tallied L.notes done →
    Tallied (L.performAll f ws).notes (done ++ ws.map fun w => (f.file, w))
  | [], _, _, _, h => by simpa [Ledger.performAll] using h
  | w :: ws, hws, L, done, h => by
    have hw := h.perform f (hws w (by simp))
    have hrest := Tallied.performAll (f := f) ws (fun x hx => hws x (by simp [hx])) hw
    rwa [List.append_assoc] at hrest

theorem Tallied.foldAll : (fs : List Fragment) → {N : Notes} → {done : List (FileId × Write)} →
    Tallied N done →
    Tallied (Ledger.foldAll N fs).2 (done ++ writesOf fs)
  | [], _, _, h => by simpa [Ledger.foldAll, writesOf] using h
  | f :: fs, N, done, h => by
    have hf := Tallied.performAll (f := f) (L := { notes := N }) (writesAll f.script)
      (arePlain_writesAll f.script) h
    have hrest := Tallied.foldAll fs hf
    rwa [List.append_assoc] at hrest

end Ledger

/-! ## Any order -/

/-- What settled scripts note can be counted from what they write. -/
theorem tallied_ownNotes (fs : List Fragment) : Ledger.Tallied (ownNotes fs).2 (writesOf fs) := by
  have hnone : Ledger.Tallied (fun _ => []) [] := by
    intro p c
    simp [Notes.count, tally]
  exact hnone.foldAll fs

theorem ownNotes_kinds_perm {fs gs : List Fragment} (h : fs.Perm gs) (p : List Bytes) :
    (((ownNotes fs).2 p).map (·.kind)).Perm (((ownNotes gs).2 p).map (·.kind)) := by
  have hstamps : (((ownNotes fs).2 p).map Assignment.stamp).Perm
      (((ownNotes gs).2 p).map Assignment.stamp) := by
    rw [List.perm_iff_count]
    intro c
    have hwrites : (writesOf fs).Perm (writesOf gs) := h.flatMap_right _
    calc (ownNotes fs).2.count p c
      _ = tally (writesOf fs) p c := tallied_ownNotes fs p c
      _ = tally (writesOf gs) p c := tally_perm hwrites p c
      _ = (ownNotes gs).2.count p c := (tallied_ownNotes gs p c).symm
  simpa [Function.comp_def, Assignment.stamp] using hstamps.map Prod.snd

namespace Store

/-- Stores that settled scripts are folded into in different orders say the same. -/
theorem sameKinds_of_perm {fs gs : List Fragment} (h : fs.Perm gs) (hset : areSettled fs = true) :
    (foldAll {} fs).2.Tidy ∧ (foldAll {} gs).2.Tidy ∧
      SameKinds (foldAll {} fs).2 (foldAll {} gs).2 := by
  have hempty (p : List Bytes) : notes {} p = [] := by
    cases hp : along? {} p with
    | none => exact notes_eq_nil hp
    | some id =>
      obtain ⟨v, hv⟩ := exists_get?_of_along? hp
      cases id <;> simp [get?] at hv
  have hset' : areSettled gs = true := by
    unfold areSettled at hset ⊢
    rwa [← h.all_eq]
  obtain ⟨hs, -, hsn, -⟩ := foldAll_follows fs hset tidy_empty hempty
  obtain ⟨ht, -, htn, -⟩ := foldAll_follows gs hset' tidy_empty hempty
  refine ⟨hs, ht, fun p => ?_⟩
  rw [hsn, htn]
  exact ownNotes_kinds_perm h p

/-- Scripts that do not read variables show the same in whatever order they are folded, but for the
numbers of objects: numbering these anew makes each table the other, so that no two objects become
one. -/
theorem snapshot_of_perm {fs gs : List Fragment} (h : fs.Perm gs)
    (hunread : ∀ f ∈ fs, areUnread f.script = true) :
    ∃ ρ ρ' : ObjectId → ObjectId,
      Entry.renumberAll ρ (foldAll {} fs).2.snapshot = (foldAll {} gs).2.snapshot ∧
        Entry.renumberAll ρ' (foldAll {} gs).2.snapshot = (foldAll {} fs).2.snapshot := by
  have hset : areSettled fs = true := by
    rw [areSettled, List.all_eq_true]
    intro f hf
    exact isSettledAll_of_areUnread f.script (hunread f hf)
  obtain ⟨hs, ht, hkinds⟩ := sameKinds_of_perm h hset
  obtain ⟨ρ, hρ⟩ := hkinds.snapshot_renumbered hs ht
  obtain ⟨ρ', hρ'⟩ := hkinds.symm.snapshot_renumbered ht hs
  exact ⟨ρ, ρ', hρ, hρ'⟩

open Script (Expr) in
/-- Scripts of two files: `a.b = 1` and `a.b["c"]++`, and `d.e.push("x")` and `a.b.c = new Map()`. -/
def reorderable : List Fragment :=
  let span : Span := ⟨0, 0, 0⟩
  let name (n : Bytes) : Expr := .identifier span n
  let dot (x : Expr) (n : Bytes) : Expr := .member span x n span
  let assign (target value : Expr) : Expr := .binary span (.symbol .assign) target value
  let text (n : Bytes) : Expr := .literal span .string n n
  [⟨1, 0, [assign (dot (name "a") "b") (.literal span .number "1" "1"),
      .trailing span (.symbol .plusPlus) (.index span (dot (name "a") "b") (text "c"))]⟩,
    ⟨2, 0, [.call span (dot (dot (name "d") "e") "push") [text "x"],
      assign (dot (dot (name "a") "b") "c") (.construct span (name "Map") [] true)]⟩]

/-- The objects of `a`, `b` and `d` are numbered differently in the two stores. -/
theorem snapshot_of_reorderable :
    (foldAll {} reorderable).2 ≠ (foldAll {} reorderable.reverse).2 ∧
      ∃ ρ ρ' : ObjectId → ObjectId,
        Entry.renumberAll ρ (foldAll {} reorderable).2.snapshot
            = (foldAll {} reorderable.reverse).2.snapshot ∧
          Entry.renumberAll ρ' (foldAll {} reorderable.reverse).2.snapshot
            = (foldAll {} reorderable).2.snapshot :=
  ⟨by decide +kernel, snapshot_of_perm (List.reverse_perm _).symm (by decide +kernel)⟩

end Store

end Storyline.Variables
