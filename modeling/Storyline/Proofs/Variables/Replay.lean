import Storyline.Proofs.Variables.Leftovers

/-!
# Folding the same scripts again

Replacing the assignments of a file a second time starts from another store than the first time:
the variables and objects that the first time made are there from the beginning.  Nothing that
folding asks a store for tells the two apart, neither the kinds of variables nor the references of a
file, since leftovers have no assignments.  And where the first time made a variable or an object,
the second one finds the very same, because its number is already taken.

So the second time goes step by step with the first (`Retracing`), from the leftovers of the first
time to the end of it, where no leftovers remain.
-/

namespace Storyline.Variables

open Script (Expr)
open Store (Extends Padded SameLabels)

namespace Store

/-! ## What folding asks a padded store for -/

/-- A chain of properties that starts at no variable ends at no kind. -/
theorem follow?_kind_of_none {s : Store} {id : VarId} (hid : s.get? id = none)
    (names : List Bytes) : ((s.follow? id names).map s.kindOf).getD .unknown = .unknown := by
  have hk : s.kindOf id = .unknown := by simp [kindOf, hid]
  cases names <;> simp [follow?, hk, Kind.object?]

section Asked

variable {s t : Store} (h : Padded s t)

include h

theorem Padded.kindOf_eq (id : VarId) : t.kindOf id = s.kindOf id := by
  unfold kindOf
  cases hw : t.get? id with
  | none =>
    cases hv : s.get? id with
    | none => rfl
    | some v => simp [h.vars hv] at hw
  | some w =>
    obtain hv | ⟨hv, hnil⟩ := h.get? hw
    · rw [hv]
    · simp [hv, Variable.kind, Variable.commonKind?, hnil]

theorem Padded.refers_eq (id : VarId) (o : ObjectId) (file : FileId) :
    t.refers id o file = s.refers id o file := by
  unfold refers
  cases hw : t.get? id with
  | none =>
    cases hv : s.get? id with
    | none => rfl
    | some v => simp [h.vars hv] at hw
  | some w =>
    obtain hv | ⟨hv, hnil⟩ := h.get? hw
    · rw [hv]
    · simp [hv, hnil]

/-- A variable that only the padded store finds is a leftover. -/
theorem Padded.get?_of_find? {o : ObjectId} {n : Bytes} {id : VarId} (ht : t.find? o n = some id)
    (hs : s.find? o n = none) : s.get? id = none := by
  obtain ⟨w, hw, ho, hn⟩ := Store.get?_of_find? ht
  cases hv : s.get? id with
  | none => rfl
  | some v =>
    obtain rfl : v = w := Option.some.inj ((h.vars hv).symm.trans hw)
    exact absurd hn (find?_eq_none_iff.1 hs id v hv ho)

/-- The kind at the end of a chain of properties is the same.  A chain that goes on from a leftover
ends there, as leftovers refer to no object. -/
theorem Padded.follow?_kind (ht : t.WellFormed) (names : List Bytes) (id : VarId) :
    ((t.follow? id names).map t.kindOf).getD .unknown
      = ((s.follow? id names).map s.kindOf).getD .unknown := by
  induction names generalizing id with
  | nil => exact h.kindOf_eq id
  | cons n rest ih =>
    simp only [follow?, h.kindOf_eq]
    cases (s.kindOf id).object? with
    | none => rfl
    | some o =>
      simp only [Option.bind_eq_bind, Option.bind_some]
      cases hs : s.property? o n with
      | some j =>
        obtain ⟨h0, hf⟩ := property?_eq_some_iff.1 hs
        have hj : t.property? o n = some j :=
          property?_eq_some_iff.2 ⟨h0, h.extends.find? ht hf⟩
        rw [hj]
        exact ih j
      | none =>
        cases hp : t.property? o n with
        | none => rfl
        | some j =>
          obtain ⟨h0, hf⟩ := property?_eq_some_iff.1 hp
          have hnone : s.find? o n = none := by simpa [property?, h0] using hs
          exact (ih j).trans (follow?_kind_of_none (h.get?_of_find? hf hnone) rest)

theorem Padded.operand_kind (ht : t.WellFormed) (o : Operand) : o.kind t = o.kind s := by
  cases o with
  | value k => rfl
  | place root steps =>
    unfold Operand.kind
    simp only [lookup?, global?, Option.bind_eq_bind]
    cases hs : s.find? 0 root.name with
    | some id =>
      rw [h.extends.find? ht hs]
      exact h.follow?_kind ht _ id
    | none =>
      cases hf : t.find? 0 root.name with
      | none => rfl
      | some id =>
        exact (h.follow?_kind ht _ id).trans (follow?_kind_of_none (h.get?_of_find? hf hs) _)

end Asked

/-! ## What folding makes -/

/-- The assignments of a variable are all that an assignment changes. -/
theorem extends_assign (s : Store) (id : VarId) (a : Assignment) : Extends s (s.assign id a) := by
  cases id with
  | zero =>
    have hsame : SameLabels s (s.assign 1 a) := sameLabels_assign Nat.one_ne_zero a
    exact hsame.extends
  | succ i => exact (sameLabels_assign (Nat.succ_ne_zero i) a).extends

theorem extends_declare (s : Store) (o : ObjectId) (n : Bytes) : Extends s (s.declare o n).2 := by
  rw [declare_eq]
  cases s.find? o n with
  | some id => exact .refl s
  | none => exact extends_grown s o n

theorem extends_homeObject (s : Store) (id : VarId) : Extends s (s.homeObject id).2 := by
  rw [homeObject_eq]
  cases s.objectAt? id with
  | some o => exact .refl s
  | none => exact extends_housed s id

theorem get?_declare (s : Store) (o : ObjectId) (n : Bytes) :
    ∃ v, (s.declare o n).2.get? (s.declare o n).1 = some v := by
  rw [declare_eq]
  cases hf : s.find? o n with
  | some id =>
    obtain ⟨v, hv, -⟩ := get?_of_find? hf
    exact ⟨v, hv⟩
  | none => exact ⟨_, by rw [get?_grown, if_pos rfl]⟩

theorem SameLabels.trans {s t u : Store} (h : SameLabels s t) (h' : SameLabels t u) :
    SameLabels s u := ⟨h.1.trans h'.1, fun id => (h.2 id).trans (h'.2 id)⟩

section Made

variable {made s t : Store} (hmade : made.WellFormed) (h : Padded s t) (hl : SameLabels made t)

include hmade h hl

/-- A variable that is made in a store is there in the padded one already. -/
theorem Padded.declare_again (o : ObjectId) (n : Bytes) (hin : Extends (s.declare o n).2 made) :
    t.declare o n = ((s.declare o n).1, t) ∧ Padded (s.declare o n).2 t := by
  have ht := hl.wellFormed hmade
  rw [declare_eq] at hin
  rw [declare_eq, declare_eq]
  cases hf : s.find? o n with
  | some id =>
    rw [h.extends.find? ht hf]
    exact ⟨rfl, h⟩
  | none =>
    rw [hf] at hin
    have hnew : (s.grown o n).get? (s.vars.size + 1) = some { name := n, owner := o } := by
      rw [get?_grown, if_pos rfl]
    have hnext : s.get? (s.vars.size + 1) = none := by simp [get?_succ]
    obtain ⟨w, hw, ho, hn⟩ := (hin.trans hl.extends).vars hnew
    have hbare : w = { name := n, owner := o } := by
      obtain ⟨name, owner, assignments⟩ := w
      obtain rfl : name = n := hn
      obtain rfl : owner = o := ho
      obtain rfl : assignments = [] := h.bare hw hnext
      rfl
    have hfind : t.find? o n = some (s.vars.size + 1) := ht.find?_eq_some_iff.2 ⟨w, hw, ho, hn⟩
    rw [hfind]
    refine ⟨rfl, fun {id v} hv => ?_, h.homes, fun {id w} hw hnone => ?_⟩
    · rw [get?_grown] at hv
      split at hv
      · rename_i hid
        rw [hid, hw, hbare, hv]
      · exact h.vars hv
    · rw [get?_grown] at hnone
      split at hnone
      · simp at hnone
      · exact h.bare hw hnone

/-- An object that is made in a store is there in the padded one already. -/
theorem Padded.homeObject_again (id : VarId) (hin : Extends (s.homeObject id).2 made) :
    t.homeObject id = ((s.homeObject id).1, t) ∧ Padded (s.homeObject id).2 t := by
  have ht := hl.wellFormed hmade
  rw [homeObject_eq] at hin
  rw [homeObject_eq, homeObject_eq]
  cases ho : s.objectAt? id with
  | some o =>
    rw [ht.objectAt?_eq_some_iff.2 (h.homes (home?_of_objectAt? ho))]
    exact ⟨rfl, h⟩
  | none =>
    rw [ho] at hin
    have hnew : (s.housed id).home? (s.homes.size + 1) = some id := by
      rw [home?_housed, if_pos rfl]
    have hhome : t.home? (s.homes.size + 1) = some id := (hin.trans hl.extends).homes hnew
    rw [ht.objectAt?_eq_some_iff.2 hhome]
    refine ⟨rfl, h.vars, fun {o j} hj => ?_, h.bare⟩
    rw [home?_housed] at hj
    split at hj
    · rename_i ho
      rw [ho, hhome, hj]
    · exact h.homes hj

end Made

theorem Padded.assign {s t : Store} (h : Padded s t) {id : VarId} {v : Variable}
    (hv : s.get? id = some v) (a : Assignment) : Padded (s.assign id a) (t.assign id a) := by
  have h0 := ne_zero_of_get? hv
  refine ⟨fun {j w} hw => ?_, h.homes, fun {j w} hw hnone => ?_⟩
  · rw [get?_assign h0] at hw ⊢
    obtain ⟨x, hx, rfl⟩ := Option.map_eq_some_iff.1 hw
    rw [h.vars hx, Option.map_some]
  · rw [get?_assign h0] at hw hnone
    obtain ⟨x, hx, rfl⟩ := Option.map_eq_some_iff.1 hw
    have hj : s.get? j = none := Option.map_eq_none_iff.1 hnone
    have hne : id ≠ j := by
      rintro rfl
      simp [hj] at hv
    rw [if_neg hne]
    exact h.bare hx hj

end Store

/-! ## The same steps again -/

/-- Two states of a fold, the second of them with the leftovers of a store that has everything which
the first will make. -/
structure Retracing (made : Store) (s t : FoldState) : Prop where
  padded : Padded s.store t.store
  labels : SameLabels made t.store
  touched : t.touched = s.touched

/-- A fold that only adds to a store, and does the same over and over where nothing is left to
make. -/
structure Retraces {α : Type} (made : Store) (m : Fold α) : Prop where
  grows : ∀ s, Extends s.store (m.run s).2.store
  again : ∀ {s t}, Retracing made s t → Extends (m.run s).2.store made →
    (m.run t).1 = (m.run s).1 ∧ Retracing made (m.run s).2 (m.run t).2

section Retracing

variable {made : Store} {f : Fragment}

theorem Retraces.pure {α : Type} (a : α) : Retraces made (Pure.pure a) :=
  ⟨fun s => .refl s.store, fun h _ => ⟨rfl, h⟩⟩

theorem Retraces.bind {α β : Type} {m : Fold α} {g : α → Fold β} (hm : Retraces made m)
    (hg : ∀ a, Retraces made (g a)) : Retraces made (m >>= g) := by
  constructor
  · intro s
    exact (hm.grows s).trans ((hg _).grows _)
  · intro s t h hin
    rw [run_bind] at hin
    obtain ⟨heq, hmid⟩ := hm.again h (((hg _).grows _).trans hin)
    rw [run_bind, run_bind, heq]
    exact (hg _).again hmid hin

theorem record_grows (s : FoldState) (id : VarId) (k : Kind) (span : Span) :
    Extends s.store ((Fold.record f id k span).run s).2.store :=
  Store.extends_assign s.store id _

theorem record_again {s t : FoldState} (h : Retracing made s t) {id : VarId} {v : Variable}
    (hv : s.store.get? id = some v) (k : Kind) (span : Span) :
    Retracing made ((Fold.record f id k span).run s).2 ((Fold.record f id k span).run t).2 := by
  have h0 := Store.ne_zero_of_get? hv
  refine ⟨h.padded.assign hv _, h.labels.trans (Store.sameLabels_assign h0 _), ?_⟩
  show (if t.touched.contains id then t.touched else t.touched.push id) = _
  rw [h.touched]
  rfl

theorem reached_grows (s : FoldState) (id : VarId) :
    Extends s.store (reached s id).2.store := by
  unfold reached
  cases (s.store.kindOf id).object? with
  | some o => exact .refl s.store
  | none => exact Store.extends_homeObject s.store id

theorem objectOf_grows (s : FoldState) (id : VarId) (span : Span) :
    Extends (reached s id).2.store ((Fold.objectOf f id span).run s).2.store := by
  rw [objectOf_run]
  dsimp only
  split
  · exact .refl _
  · exact record_grows _ id _ span

theorem resolve_grows : (steps : List Step) → (s : FoldState) → (id : VarId) → (span : Span) →
    Extends s.store ((Fold.resolve f id span steps).run s).2.store
  | [], s, _, _ => .refl s.store
  | step :: rest, s, id, span => by
    rw [resolve_run_cons]
    generalize hr : (Fold.objectOf f id span).run s = r
    have hobject : Extends s.store r.2.store := by
      rw [← hr]
      exact (reached_grows s id).trans (objectOf_grows s id span)
    have hdecl := Store.extends_declare r.2.store r.1 step.name
    have hrest := resolve_grows rest { r.2 with store := (r.2.store.declare r.1 step.name).2 }
      (r.2.store.declare r.1 step.name).1 step.span
    exact (hobject.trans hdecl).trans hrest

variable (hmade : made.WellFormed)

include hmade

theorem reached_again {s t : FoldState} (h : Retracing made s t) (id : VarId)
    (hin : Extends (reached s id).2.store made) :
    (reached t id).1 = (reached s id).1 ∧ Retracing made (reached s id).2 (reached t id).2 := by
  unfold reached at hin ⊢
  rw [h.padded.kindOf_eq]
  cases hk : (s.store.kindOf id).object? with
  | some o => exact ⟨rfl, h⟩
  | none =>
    rw [hk] at hin
    obtain ⟨heq, hp⟩ := h.padded.homeObject_again hmade h.labels id hin
    simp only [heq]
    exact ⟨trivial, hp, h.labels, h.touched⟩

theorem objectOf_again {s t : FoldState} (h : Retracing made s t) {id : VarId} {v : Variable}
    (hv : s.store.get? id = some v) (span : Span)
    (hin : Extends ((Fold.objectOf f id span).run s).2.store made) :
    ((Fold.objectOf f id span).run t).1 = ((Fold.objectOf f id span).run s).1 ∧
      Retracing made ((Fold.objectOf f id span).run s).2 ((Fold.objectOf f id span).run t).2 := by
  obtain ⟨heq, hr⟩ := reached_again hmade h id ((objectOf_grows s id span).trans hin)
  obtain ⟨w, hw, -⟩ := (reached_grows s id).vars hv
  rw [objectOf_run, objectOf_run, heq, hr.padded.refers_eq]
  dsimp only
  split
  · exact ⟨rfl, hr⟩
  · exact ⟨rfl, record_again hr hw _ span⟩

/-- A chain of properties leads to the same variable again, one that the store has. -/
theorem resolve_again : (steps : List Step) → {s t : FoldState} → Retracing made s t →
    {id : VarId} → {v : Variable} → s.store.get? id = some v → (span : Span) →
    Extends ((Fold.resolve f id span steps).run s).2.store made →
    ((Fold.resolve f id span steps).run t).1 = ((Fold.resolve f id span steps).run s).1 ∧
      Retracing made ((Fold.resolve f id span steps).run s).2
        ((Fold.resolve f id span steps).run t).2 ∧
      ∃ w, ((Fold.resolve f id span steps).run s).2.store.get?
        ((Fold.resolve f id span steps).run s).1.1 = some w
  | [], s, t, h, id, v, hv, span, _ => ⟨rfl, h, v, hv⟩
  | step :: rest, s, t, h, id, v, hv, span, hin => by
    rw [resolve_run_cons] at hin
    rw [resolve_run_cons, resolve_run_cons]
    have hdecl := (resolve_grows rest _ _ step.span).trans hin
    obtain ⟨heq, ho⟩ := objectOf_again hmade h hv span
      ((Store.extends_declare _ _ step.name).trans hdecl)
    generalize (Fold.objectOf f id span).run s = r at hin hdecl heq ho ⊢
    generalize (Fold.objectOf f id span).run t = r' at heq ho ⊢
    obtain ⟨hdeq, hp⟩ := ho.padded.declare_again hmade ho.labels r.1 step.name hdecl
    obtain ⟨w, hw⟩ := Store.get?_declare r.2.store r.1 step.name
    simp only [heq, hdeq]
    exact resolve_again rest (s := { r.2 with store := (r.2.store.declare r.1 step.name).2 })
      ⟨hp, ho.labels, ho.touched⟩ hw step.span hin

theorem Retraces.store (o : Operand) (k : Kind) : Retraces made (Fold.store f o k) := by
  cases o with
  | value k' => exact .pure ()
  | place root steps =>
    -- the write, as `perform` has it
    let w : Write := ⟨root, steps, k⟩
    have hgrows (s : FoldState) : Extends (s.store.declare 0 root.name).2
          ((Fold.resolve f (s.store.declare 0 root.name).1 root.span steps).run
            { s with store := (s.store.declare 0 root.name).2 }).2.store :=
      resolve_grows steps { s with store := (s.store.declare 0 root.name).2 } _ _
    constructor
    · intro s
      show Extends s.store (perform f s w).store
      rw [perform_run]
      exact ((Store.extends_declare _ _ _).trans (hgrows s)).trans (record_grows _ _ _ _)
    · intro s t h hin
      change Extends (perform f s w).store made at hin
      show () = () ∧ Retracing made (perform f s w) (perform f t w)
      rw [perform_run] at hin
      rw [perform_run, perform_run]
      have hresolve := (record_grows _ _ _ _).trans hin
      obtain ⟨hdeq, hp⟩ := h.padded.declare_again hmade h.labels 0 root.name
        ((hgrows s).trans hresolve)
      obtain ⟨v, hv⟩ := Store.get?_declare s.store 0 root.name
      obtain ⟨heq, hr, x, hx⟩ := resolve_again hmade (f := f) steps
        (s := { s with store := (s.store.declare 0 root.name).2 }) ⟨hp, h.labels, h.touched⟩ hv
        root.span hresolve
      simp only [w, hdeq, heq]
      exact ⟨trivial, record_again hr hx k _⟩

theorem Retraces.kindNow (o : Operand) : Retraces made (Fold.kindNow o) := by
  constructor
  · intro s
    exact .refl s.store
  · intro s t h _
    rw [run_kindNow, run_kindNow]
    exact ⟨h.padded.operand_kind (h.labels.wellFormed hmade) o, h⟩

end Retracing

/-! ## Whole scripts again -/

mutual

/-- Walking over an expression goes the same way again. -/
-- By induction on the expression: what was declared at the first time is found at the second.
theorem walk_retraces {made : Store} (hmade : made.WellFormed) (f : Fragment) :
    (e : Expr) → Retraces made (Fold.walk f e)
  | .literal .. | .identifier .. | .missing => by
    unfold Fold.walk
    exact .pure _
  | .group _ x => by
    unfold Fold.walk
    exact walk_retraces hmade f x
  | .member _ base _ _ => by
    unfold Fold.walk
    exact (walk_retraces hmade f base).bind fun _ => .pure _
  | .index _ base i => by
    unfold Fold.walk
    exact (walk_retraces hmade f i).bind fun _ => (walk_retraces hmade f base).bind fun _ => .pure _
  | .binary _ op left right => by
    unfold Fold.walk
    by_cases hop : op.isAssign = true
    · simp only [hop, if_true]
      exact (walk_retraces hmade f right).bind fun o => (Retraces.kindNow hmade o).bind fun _ =>
        (walk_retraces hmade f left).bind fun o => (Retraces.store hmade o _).bind fun _ => .pure _
    · simp only [hop, Bool.false_eq_true, if_false]
      exact (walk_retraces hmade f left).bind fun o => (Retraces.kindNow hmade o).bind fun _ =>
        (walk_retraces hmade f right).bind fun o => (Retraces.kindNow hmade o).bind fun _ => .pure _
  | .unary _ op x => by
    unfold Fold.walk
    by_cases hop : op = .symbol .plusPlus ∨ op = .symbol .minusMinus
    · simp only [hop, if_true]
      exact (walk_retraces hmade f x).bind fun o => (Retraces.store hmade o _).bind fun _ => .pure _
    · simp only [hop, if_false]
      exact (walk_retraces hmade f x).bind fun _ => .pure _
  | .trailing _ _ x => by
    unfold Fold.walk
    exact (walk_retraces hmade f x).bind fun o => (Retraces.store hmade o _).bind fun _ => .pure _
  | .call _ callee args => by
    unfold Fold.walk
    -- the kind of the receiver is stored only for methods that are known
    apply (walkAll_retraces hmade f args).bind
    intro _
    cases receiverKind? callee with
    | none => exact (walk_retraces hmade f callee).bind fun _ => .pure _
    | some k =>
      exact (walk_retraces hmade f callee).bind fun o =>
        (Retraces.store hmade o.owner k).bind fun _ => .pure _
  | .array _ xs => by
    unfold Fold.walk
    exact (walkAll_retraces hmade f xs).bind fun _ => .pure _
  | .construct _ _ args _ => by
    unfold Fold.walk
    exact (walkAll_retraces hmade f args).bind fun _ => .pure _
  | .ternary _ cond yes no => by
    unfold Fold.walk
    exact (walk_retraces hmade f cond).bind fun _ =>
      (walk_retraces hmade f yes).bind fun o => (Retraces.kindNow hmade o).bind fun _ =>
        (walk_retraces hmade f no).bind fun o => (Retraces.kindNow hmade o).bind fun _ => .pure _
  | .template _ parts _ => by
    unfold Fold.walk
    exact (walkParts_retraces hmade f parts).bind fun _ => .pure _

theorem walkAll_retraces {made : Store} (hmade : made.WellFormed) (f : Fragment) :
    (xs : List Expr) → Retraces made (Fold.walkAll f xs)
  | [] => by
    unfold Fold.walkAll
    exact .pure _
  | x :: xs => by
    unfold Fold.walkAll
    exact (walk_retraces hmade f x).bind fun _ => walkAll_retraces hmade f xs

theorem walkParts_retraces {made : Store} (hmade : made.WellFormed) (f : Fragment) :
    (ps : List (Bytes × Expr)) → Retraces made (Fold.walkParts f ps)
  | [] => by
    unfold Fold.walkParts
    exact .pure _
  | (_, x) :: ps => by
    unfold Fold.walkParts
    exact (walk_retraces hmade f x).bind fun _ => walkParts_retraces hmade f ps

end

namespace Store

theorem extends_foldAll : (fs : List Fragment) → (s : Store) → Extends s (s.foldAll fs).2
  | [], s => .refl s
  | f :: fs, s => by
    have hf : Extends s (s.fold f).2 :=
      (walkAll_retraces wellFormed_empty f f.script).grows { store := s }
    exact hf.trans (extends_foldAll fs (s.fold f).2)

/-- Folding scripts into the leftovers of folding them makes nothing, and ends where it ended
before. -/
theorem foldAll_again {made : Store} (hmade : made.WellFormed) : (fs : List Fragment) →
    {s t : Store} → Padded s t → SameLabels made t → Extends (s.foldAll fs).2 made →
    (t.foldAll fs).1 = (s.foldAll fs).1 ∧ Padded (s.foldAll fs).2 (t.foldAll fs).2 ∧
      SameLabels made (t.foldAll fs).2
  | [], _, _, hp, hl, _ => ⟨rfl, hp, hl⟩
  | f :: fs, s, t, hp, hl, hin => by
    have hstart : Retracing made { store := s } { store := t } := ⟨hp, hl, rfl⟩
    obtain ⟨-, hr⟩ := (walkAll_retraces hmade f f.script).again hstart
      ((extends_foldAll fs (s.fold f).2).trans hin)
    have hids : (t.fold f).1 = (s.fold f).1 := congrArg Array.toList hr.touched
    obtain ⟨hrest, hend⟩ := foldAll_again hmade fs hr.padded hr.labels hin
    refine ⟨?_, hend⟩
    show (t.fold f).1 :: ((t.fold f).2.foldAll fs).1 = (s.fold f).1 :: ((s.fold f).2.foldAll fs).1
    rw [hids]
    exact congrArg _ hrest

/-- Where nothing is left over, the padded store is the store. -/
theorem Padded.eq_of_sameLabels {s t : Store} (h : Padded s t) (hl : SameLabels s t) : t = s := by
  apply ext_get?
  · intro id
    cases hv : s.get? id with
    | some v => exact h.vars hv
    | none =>
      have hid := hl.2 id
      rw [hv] at hid
      exact Option.map_eq_none_iff.1 hid.symm
  · exact hl.1.symm

/-- Replacing the assignments of a file twice in a row is replacing them once: the second time
leaves the whole store as it is, and gives the same numbers. -/
theorem replace_again (ops : List Operation) {file : FileId} {fs : List Fragment}
    (hfs : ∀ f ∈ fs, f.file = file) :
    ((after ops).replace file fs).2.replace file fs = (after ops).replace file fs := by
  have hs := (sound_after ops).removeOrigin file
  obtain ⟨ht, hp⟩ := foldAll_padded fs hfs hs
  rw [removeOrigin_eq_self (lacksFile_removeOrigin _ file)] at hp
  have hl := sameLabels_removeOrigin (((after ops).removeOrigin file).foldAll fs).2 file
  obtain ⟨hids, hend, hlabels⟩ := foldAll_again ht.toWellFormed fs hp hl (.refl _)
  exact Prod.ext hids (hend.eq_of_sameLabels hlabels)

/-- The first time makes three variables and an object, the second time finds them. -/
theorem replace_visit_again :
    ((after resident).vars.size, (after resident).homes.size) = (2, 1) ∧
      (((after resident).replace 2 [visit]).2.vars.size,
        ((after resident).replace 2 [visit]).2.homes.size) = (5, 2) ∧
      ((after resident).replace 2 [visit]).2.replace 2 [visit]
        = (after resident).replace 2 [visit] :=
  ⟨by decide, by decide +kernel, replace_again resident (by simp [visit])⟩

end Store

end Storyline.Variables
