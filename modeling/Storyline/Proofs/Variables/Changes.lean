import Mathlib.Logic.Relation
import Storyline.Proofs.Variables.Ledger

/-!
# What folding changes in a store

Whatever a script does, folding it is a series of three kinds of changes (`Change`): a variable is
made, an object is made for a variable, and a variable that references of the file lead to receives
an assignment.  What each of these keeps, every store keeps that comes from the empty one by
folding scripts and dropping files (`keeps_after`), so facts about such stores never look into a
script again.

That the store is sound is part of the argument: the walk through a script finds objects through
the references that variables hold, and these have to be references to objects of the store.

One of these facts is about references.  A file that assigns a property has its own references all
the way from a global to that property (`Owned`): every file that writes through a variable records
the reference, once.  So what other files take back never cuts a property off from the file that
assigned it.
-/

namespace Storyline.Variables

open Script (Expr TokenKind)
open Relation (ReflTransGen)

namespace Store

/-! ## References -/

/-- Whether a kind is none but a reference to an object of the store. -/
def Knows (s : Store) (k : Kind) : Prop := ∀ o, k = .object o → ∃ home, s.home? o = some home

/-- A reference of a file: the first variable refers to an object that has the second as a
property. -/
def Link (s : Store) (file : FileId) (x y : VarId) : Prop :=
  ∃ v a o n, s.get? x = some v ∧ a ∈ v.assignments ∧ a.origin = file ∧ a.kind = .object o ∧
    s.property? o n = some y

/-- Whether references of a file lead from a global to a variable. -/
def Rooted (s : Store) (file : FileId) (id : VarId) : Prop :=
  ∃ root v, s.get? root = some v ∧ v.owner = 0 ∧ ReflTransGen (s.Link file) root id

/-- A well-formed store in which references are to objects of the store. -/
structure Sound (s : Store) : Prop extends WellFormed s where
  refs : ∀ {id v a}, s.get? id = some v → a ∈ v.assignments → s.Knows a.kind

theorem knows_unknown (s : Store) : s.Knows .unknown := by
  intro o ho
  cases ho

theorem knows_of_isPlain {k : Kind} (hk : k.isPlain = true) (s : Store) : s.Knows k := by
  rintro o rfl
  simp [Kind.isPlain] at hk

theorem sound_empty : Sound .empty where
  toWellFormed := wellFormed_empty
  refs := by
    intro id v a hv
    simp at hv

/-- In a sound store, a variable holds no reference but to an object of the store. -/
theorem Sound.knows_kindOf {s : Store} (hs : s.Sound) (id : VarId) : s.Knows (s.kindOf id) := by
  intro o ho
  unfold kindOf at ho
  cases hv : s.get? id with
  | none => simp [hv] at ho
  | some v =>
    simp only [hv, Option.map_some, Option.getD_some, Variable.kind] at ho
    cases hc : v.commonKind? with
    | none => simp [hc] at ho
    | some k =>
      obtain rfl : k = .object o := by simpa [hc] using ho
      obtain ⟨a, ha, hk⟩ : ∃ a ∈ v.assignments, a.kind = .object o := by
        unfold Variable.commonKind? at hc
        split at hc
        · simp at hc
        · rename_i a rest hcons
          split at hc
          · exact ⟨a, by simp [hcons], Option.some.inj hc⟩
          · simp at hc
      exact hs.refs hv ha o hk

/-! ## Changes -/

/-- One change that folding a script of a file makes. -/
inductive Change (file : FileId) : Store → Store → Prop
  | declare {s : Store} {o : ObjectId} {n : Bytes} (ho : o = 0 ∨ ∃ home, s.home? o = some home)
      (hn : s.find? o n = none) : Change file s (s.grown o n)
  | house {s : Store} {id : VarId} {v : Variable} (hv : s.get? id = some v)
      (ho : s.objectAt? id = none) : Change file s (s.housed id)
  | assign {s : Store} {id : VarId} {v : Variable} {a : Assignment} (hv : s.get? id = some v)
      (ha : a.origin = file) (hk : s.Knows a.kind) (hr : s.Rooted file id) :
      Change file s (s.assign id a)

/-- A later store that has all assignments of an earlier one. -/
structure Grows (s t : Store) : Prop extends Extends s t where
  kept : ∀ {id v a}, s.get? id = some v → a ∈ v.assignments →
    ∃ w, t.get? id = some w ∧ a ∈ w.assignments

theorem Grows.refl (s : Store) : Grows s s := ⟨.refl s, fun hv ha => ⟨_, hv, ha⟩⟩

theorem Grows.trans {s t u : Store} (h : Grows s t) (h' : Grows t u) : Grows s u where
  toExtends := h.toExtends.trans h'.toExtends
  kept := by
    intro id v a hv ha
    obtain ⟨w, hw, haw⟩ := h.kept hv ha
    exact h'.kept hw haw

theorem Grows.knows {s t : Store} (h : Grows s t) {k : Kind} (hk : s.Knows k) : t.Knows k := by
  intro o ho
  obtain ⟨home, hh⟩ := hk o ho
  exact ⟨home, h.homes hh⟩

theorem property?_eq_some_iff {s : Store} {o : ObjectId} {n : Bytes} {id : VarId} :
    s.property? o n = some id ↔ o ≠ 0 ∧ s.find? o n = some id := by
  unfold property?
  by_cases h0 : o = 0 <;> simp [h0]

theorem Grows.link {s t : Store} (h : Grows s t) (ht : t.WellFormed) {file : FileId}
    {x y : VarId} (hl : s.Link file x y) : t.Link file x y := by
  obtain ⟨v, a, o, n, hv, ha, hfile, hk, hp⟩ := hl
  obtain ⟨w, hw, haw⟩ := h.kept hv ha
  obtain ⟨h0, hf⟩ := property?_eq_some_iff.1 hp
  exact ⟨w, a, o, n, hw, haw, hfile, hk, property?_eq_some_iff.2 ⟨h0, h.find? ht hf⟩⟩

theorem Grows.rooted {s t : Store} (h : Grows s t) (ht : t.WellFormed) {file : FileId}
    {id : VarId} (hr : s.Rooted file id) : t.Rooted file id := by
  obtain ⟨root, v, hv, h0, hlinks⟩ := hr
  obtain ⟨w, hw, ho, -⟩ := h.vars hv
  exact ⟨root, w, hw, ho.trans h0, ReflTransGen.mono (fun _ _ hl => h.link ht hl) _ _ hlinks⟩

theorem get?_grown_of {s : Store} {o : ObjectId} {n : Bytes} {id : VarId} {w : Variable}
    (hw : (s.grown o n).get? id = some w) : s.get? id = some w ∨ w.assignments = [] := by
  rw [get?_grown] at hw
  split at hw
  · exact .inr (by rw [← Option.some.inj hw])
  · exact .inl hw

theorem mem_assign {s : Store} {id : VarId} (h0 : id ≠ 0) {a b : Assignment} {j : VarId}
    {w : Variable} (hw : (s.assign id a).get? j = some w) (hb : b ∈ w.assignments) :
    (∃ v, s.get? j = some v ∧ b ∈ v.assignments) ∨ j = id ∧ b = a := by
  rw [get?_assign h0] at hw
  obtain ⟨v, hv, rfl⟩ := Option.map_eq_some_iff.1 hw
  by_cases hj : id = j
  · simp only [hj, if_true, List.mem_append, List.mem_singleton] at hb
    exact hb.imp (fun hb => ⟨v, hv, hb⟩) fun hb => ⟨hj.symm, hb⟩
  · simp only [hj, if_false] at hb
    exact .inl ⟨v, hv, hb⟩

theorem Change.grows {file : FileId} {s t : Store} (h : Change file s t) : Grows s t := by
  cases h with
  | @declare o n ho hn =>
    refine ⟨extends_grown s o n, fun {id v a} hv ha => ⟨v, ?_, ha⟩⟩
    rw [get?_grown, if_neg (Nat.ne_of_lt (Nat.lt_succ_of_le (le_size_of_get? hv))), hv]
  | @house id v hv ho => exact ⟨extends_housed s id, fun hw ha => ⟨_, hw, ha⟩⟩
  | @assign id v a hv ha hk hr =>
    refine ⟨(sameLabels_assign (ne_zero_of_get? hv) a).extends, fun {j w b} hw hb => ?_⟩
    rw [get?_assign (ne_zero_of_get? hv), hw]
    refine ⟨_, rfl, ?_⟩
    split
    · exact List.mem_append_left _ hb
    · exact hb

theorem Change.sound {file : FileId} {s t : Store} (h : Change file s t) (hs : s.Sound) :
    t.Sound := by
  have hgrows := h.grows
  cases h with
  | declare ho hn =>
    refine ⟨hs.toWellFormed.grown ho hn, fun {id w a} hw ha => ?_⟩
    obtain hv | hnil := get?_grown_of hw
    · exact hgrows.knows (hs.refs hv ha)
    · simp [hnil] at ha
  | house hv ho =>
    exact ⟨hs.toWellFormed.housed hv ho, fun hw ha => hgrows.knows (hs.refs hw ha)⟩
  | @assign id v a hv _ hk _ =>
    have hl := sameLabels_assign (s := s) (ne_zero_of_get? hv) a
    refine ⟨hl.wellFormed hs.toWellFormed, fun {j w b} hw hb => ?_⟩
    obtain ⟨x, hx, hbx⟩ | ⟨-, rfl⟩ := mem_assign (ne_zero_of_get? hv) hw hb
    · exact hgrows.knows (hs.refs hx hbx)
    · exact hgrows.knows hk

/-- A series of changes. -/
def Changes (file : FileId) : Store → Store → Prop := ReflTransGen (Change file)

theorem Changes.refl {file : FileId} {s : Store} : Changes file s s := ReflTransGen.refl

theorem Changes.trans {file : FileId} {s t u : Store} (h : Changes file s t)
    (h' : Changes file t u) : Changes file s u := ReflTransGen.trans h h'

theorem Change.changes {file : FileId} {s t : Store} (h : Change file s t) : Changes file s t :=
  ReflTransGen.single h

theorem Changes.sound {file : FileId} {s t : Store} (h : Changes file s t) (hs : s.Sound) :
    t.Sound := by
  induction h with
  | refl => exact hs
  | tail _ hc ih => exact hc.sound ih

theorem Changes.grows {file : FileId} {s t : Store} (h : Changes file s t) : Grows s t := by
  induction h with
  | refl => exact .refl _
  | tail _ hc ih => exact ih.trans hc.grows

theorem declare_changes {s : Store} (hs : s.Sound) (file : FileId) {o : ObjectId}
    (ho : o = 0 ∨ ∃ home, s.home? o = some home) (n : Bytes) :
    Changes file s (s.declare o n).2 ∧ (s.declare o n).2.find? o n = some (s.declare o n).1 := by
  rw [declare_eq]
  cases hf : s.find? o n with
  | some id => exact ⟨.refl, hf⟩
  | none =>
    have hc : Change file s (s.grown o n) := .declare ho hf
    refine ⟨hc.changes, (hc.sound hs).find?_eq_some_iff.2 ⟨{ name := n, owner := o }, ?_, rfl, rfl⟩⟩
    rw [get?_grown, if_pos rfl]

theorem homeObject_changes {s : Store} (file : FileId) {id : VarId} {v : Variable}
    (hv : s.get? id = some v) :
    Changes file s (s.homeObject id).2 ∧
      (s.homeObject id).2.home? (s.homeObject id).1 = some id := by
  rw [homeObject_eq]
  cases hf : s.objectAt? id with
  | some o => exact ⟨.refl, home?_of_objectAt? hf⟩
  | none =>
    refine ⟨(Change.house hv hf).changes, ?_⟩
    rw [home?_housed, if_pos rfl]

theorem rooted_of_global {s : Store} {id : VarId} {v : Variable} (hv : s.get? id = some v)
    (h0 : v.owner = 0) (file : FileId) : s.Rooted file id := ⟨id, v, hv, h0, .refl⟩

theorem Rooted.link {s : Store} {file : FileId} {x y : VarId} (h : s.Rooted file x)
    (hl : s.Link file x y) : s.Rooted file y := by
  obtain ⟨root, v, hv, h0, hlinks⟩ := h
  exact ⟨root, v, hv, h0, hlinks.tail hl⟩

/-- A variable that references of a file lead to is one of the store. -/
theorem Rooted.get? {s : Store} {file : FileId} {id : VarId} (h : s.Rooted file id) :
    ∃ v, s.get? id = some v := by
  obtain ⟨root, v, hv, -, hlinks⟩ := h
  induction hlinks with
  | refl => exact ⟨v, hv⟩
  | tail _ hl _ =>
    obtain ⟨-, -, o, n, -, -, -, -, hp⟩ := hl
    obtain ⟨w, hw, -⟩ := get?_of_find? (property?_eq_some_iff.1 hp).2
    exact ⟨w, hw⟩

end Store

/-! ## Folding is a series of changes -/

open Store (Knows Rooted Sound Changes)

section Folding

variable {f : Fragment}

theorem record_changes {s : FoldState} {id : VarId} {k : Kind} (hk : s.store.Knows k)
    (hr : s.store.Rooted f.file id) (span : Span) :
    Changes f.file s.store ((Fold.record f id k span).run s).2.store := by
  obtain ⟨v, hv⟩ := hr.get?
  exact (Store.Change.assign (a := ⟨f.file, k, span.shift f.base f.file⟩) hv rfl hk hr).changes

theorem refers_eq_true_iff {s : Store} {id : VarId} {o : ObjectId} {file : FileId} :
    s.refers id o file = true ↔
      ∃ v a, s.get? id = some v ∧ a ∈ v.assignments ∧ a.origin = file ∧ a.kind = .object o := by
  unfold Store.refers
  cases hv : s.get? id with
  | none => simp
  | some v =>
    simp only [Option.map_some, Option.getD_some, List.any_eq_true, Bool.and_eq_true,
      decide_eq_true_eq, Option.some.injEq]
    constructor
    · rintro ⟨a, ha, hfile, hk⟩
      exact ⟨v, a, rfl, ha, hfile, hk⟩
    · rintro ⟨_, a, rfl, ha, hfile, hk⟩
      exact ⟨a, ha, hfile, hk⟩

theorem refers_record (s : FoldState) {id : VarId} {v : Variable} (hv : s.store.get? id = some v)
    (o : ObjectId) (span : Span) :
    ((Fold.record f id (.object o) span).run s).2.store.refers id o f.file = true := by
  let a : Assignment := ⟨f.file, .object o, span.shift f.base f.file⟩
  have hget : (s.store.assign id a).get? id = some { v with assignments := v.assignments ++ [a] } := by
    rw [Store.get?_assign (Store.ne_zero_of_get? hv), hv]
    simp
  exact refers_eq_true_iff.2 ⟨_, a, hget, by simp, rfl, rfl⟩

/-- Writing through a variable gives an object of the store, and leaves a reference of the file to
it. -/
theorem objectOf_changes {s : FoldState} (hs : s.store.Sound) {id : VarId}
    (hr : s.store.Rooted f.file id) (span : Span) :
    Changes f.file s.store ((Fold.objectOf f id span).run s).2.store ∧
      (∃ home, ((Fold.objectOf f id span).run s).2.store.home?
        ((Fold.objectOf f id span).run s).1 = some home) ∧
      ((Fold.objectOf f id span).run s).2.store.refers id
        ((Fold.objectOf f id span).run s).1 f.file = true := by
  obtain ⟨v, hv⟩ := hr.get?
  have hreached : Changes f.file s.store (reached s id).2.store ∧
      ∃ home, (reached s id).2.store.home? (reached s id).1 = some home := by
    unfold reached
    cases hk : (s.store.kindOf id).object? with
    | some o =>
      have hko : s.store.kindOf id = .object o := by
        cases hkind : s.store.kindOf id <;> simp_all [Kind.object?]
      exact ⟨.refl, hs.knows_kindOf id o hko⟩
    | none =>
      obtain ⟨hc, hh⟩ := Store.homeObject_changes f.file hv
      exact ⟨hc, id, hh⟩
  obtain ⟨hc, home, hh⟩ := hreached
  rw [objectOf_run]
  by_cases href : (reached s id).2.store.refers id (reached s id).1 f.file = true
  · simp only [href, if_true]
    exact ⟨hc, ⟨home, hh⟩, trivial⟩
  · simp only [href, Bool.false_eq_true, if_false]
    obtain ⟨w, hw, -⟩ := hc.grows.vars hv
    have hrec := record_changes (f := f) (k := .object (reached s id).1)
      (fun o ho => by cases ho; exact ⟨home, hh⟩)
      (hc.grows.rooted (hc.sound hs).toWellFormed hr) span
    exact ⟨hc.trans hrec, ⟨home, hrec.grows.homes hh⟩, refers_record _ hw _ span⟩

/-- A chain of properties ends at a variable that references of the file lead to. -/
theorem resolve_changes : (steps : List Step) → {s : FoldState} → s.store.Sound → {id : VarId} →
    s.store.Rooted f.file id → (span : Span) →
    Changes f.file s.store ((Fold.resolve f id span steps).run s).2.store ∧
      ((Fold.resolve f id span steps).run s).2.store.Rooted f.file
        ((Fold.resolve f id span steps).run s).1.1
  | [], s, hs, id, hr, span => ⟨.refl, hr⟩
  | step :: rest, s, hs, id, hr, span => by
    obtain ⟨hc, ⟨home, hh⟩, href⟩ := objectOf_changes hs hr span
    rw [resolve_run_cons]
    generalize (Fold.objectOf f id span).run s = r at hc hh href ⊢
    obtain ⟨hd, hfind⟩ := Store.declare_changes (hc.sound hs) f.file (.inr ⟨home, hh⟩) step.name
    have hsound := (hc.trans hd).sound hs
    -- the reference recorded on the way is the next link of the chain
    have hlink : (r.2.store.declare r.1 step.name).2.Link f.file id
        (r.2.store.declare r.1 step.name).1 := by
      obtain ⟨v, a, hv, ha, hfile, hk⟩ := refers_eq_true_iff.1 href
      obtain ⟨w, hw, haw⟩ := hd.grows.kept hv ha
      exact ⟨w, a, r.1, step.name, hw, haw, hfile, hk,
        Store.property?_eq_some_iff.2 ⟨Store.ne_zero_of_home? hh, hfind⟩⟩
    have hroot := ((hc.trans hd).grows.rooted hsound.toWellFormed hr).link hlink
    obtain ⟨hrest, hend⟩ := resolve_changes rest
      (s := { r.2 with store := (r.2.store.declare r.1 step.name).2 }) hsound hroot step.span
    exact ⟨(hc.trans hd).trans hrest, hend⟩

/-- A write is a series of changes. -/
theorem perform_changes {s : FoldState} (hs : s.store.Sound) {w : Write}
    (hk : s.store.Knows w.kind) : Changes f.file s.store (perform f s w).store := by
  obtain ⟨hd, hfind⟩ := Store.declare_changes hs f.file (.inl rfl) w.root.name
  obtain ⟨v, hv, h0, -⟩ := Store.get?_of_find? hfind
  obtain ⟨hc, hend⟩ := resolve_changes (f := f) w.steps
    (s := { s with store := (s.store.declare 0 w.root.name).2 }) (hd.sound hs)
    (Store.rooted_of_global hv h0 f.file) w.root.span
  rw [perform_run]
  exact (hd.trans hc).trans (record_changes ((hd.trans hc).grows.knows hk) hend _)

/-! ## Kinds in scripts -/

/-- Whether what an expression stands for is no reference but to an object of the store. -/
def Operand.Known (s : Store) : Operand → Prop
  | .place .. => True
  | .value k => s.Knows k

theorem Operand.Known.grows {s t : Store} (h : Store.Grows s t) {o : Operand} (ho : o.Known s) :
    o.Known t := by
  cases o with
  | place root steps => trivial
  | value k => exact h.knows ho

theorem Operand.Known.knows_kind {s : Store} (hs : s.Sound) {o : Operand} (ho : o.Known s) :
    s.Knows (o.kind s) := by
  cases o with
  | value k => exact ho
  | place root steps =>
    show s.Knows (((s.lookup? (root.name :: steps.map (·.name))).map s.kindOf).getD .unknown)
    cases s.lookup? (root.name :: steps.map (·.name)) with
    | none => exact Store.knows_unknown s
    | some id => exact hs.knows_kindOf id

theorem Operand.Known.member (s : Store) (o : Operand) (step : Step) : (o.member step).Known s := by
  cases o with
  | place root steps => trivial
  | value k => exact Store.knows_unknown s

theorem Operand.Known.owner {s : Store} {o : Operand} (ho : o.Known s) : o.owner.Known s := by
  cases o with
  | place root steps => trivial
  | value k => exact ho

theorem knows_agree {s : Store} {a : Kind} (ha : s.Knows a) (b : Kind) : s.Knows (a.agree b) := by
  unfold Kind.agree
  split
  · exact ha
  · exact Store.knows_unknown s

theorem knows_binaryKind {s : Store} {l : Kind} (hl : s.Knows l) (op : TokenKind) (r : Kind) :
    s.Knows (binaryKind op l r) := by
  unfold binaryKind
  repeat' split
  all_goals first
    | exact knows_agree hl r
    | exact Store.knows_of_isPlain rfl s

theorem knows_assignedKind {s : Store} {k : Kind} (hk : s.Knows k) (op : TokenKind)
    (right : Expr) : s.Knows (assignedKind op right k) := by
  unfold assignedKind
  repeat' split
  all_goals first
    | exact hk
    | exact Store.knows_of_isPlain rfl s

/-! ## The walk through a script -/

/-- Whether a fold makes a series of changes to every sound store and ends with what `P` asks
for. -/
def Folds {α : Type} (f : Fragment) (m : Fold α) (P : Store → α → Prop) : Prop :=
  ∀ s : FoldState, s.store.Sound →
    Changes f.file s.store (m.run s).2.store ∧ P (m.run s).2.store (m.run s).1

/-- Whether a fold makes a series of changes to every sound store. -/
abbrev FoldsOn (f : Fragment) (m : Fold Unit) : Prop := Folds f m fun _ _ => True

theorem Folds.pure {α : Type} {a : α} {P : Store → α → Prop} (h : ∀ s, P s a) :
    Folds f (Pure.pure a) P := fun s _ => ⟨.refl, h s.store⟩

/-- What holds after the first of two folds is kept by the second if it is kept by growing. -/
theorem Folds.bind {α β : Type} {m : Fold α} {g : α → Fold β} {P : Store → α → Prop}
    {Q : Store → β → Prop} (hm : Folds f m P)
    (hg : ∀ s : FoldState, ∀ a, s.store.Sound → P s.store a →
      Changes f.file s.store ((g a).run s).2.store ∧ Q ((g a).run s).2.store ((g a).run s).1) :
    Folds f (m >>= g) Q := by
  intro s hs
  obtain ⟨hc, hp⟩ := hm s hs
  obtain ⟨hc', hq⟩ := hg (m.run s).2 (m.run s).1 (hc.sound hs) hp
  rw [run_bind]
  exact ⟨hc.trans hc', hq⟩

/-- After two folds both results are what was asked for. -/
theorem Folds.both {α β γ : Type} {m : Fold α} {m' : Fold β} {g : α → β → γ}
    {P : Store → α → Prop} {P' : Store → β → Prop} {Q : Store → γ → Prop} (hm : Folds f m P)
    (hm' : Folds f m' P') (hP : ∀ {s t a}, Store.Grows s t → P s a → P t a)
    (hQ : ∀ s a b, P s a → P' s b → Q s (g a b)) :
    Folds f (m >>= fun a => m' >>= fun b => Pure.pure (g a b)) Q := by
  refine hm.bind fun s a hs ha => ?_
  obtain ⟨hc, hb⟩ := hm' s hs
  rw [run_bind, run_pure]
  exact ⟨hc, hQ _ _ _ (hP hc.grows ha) hb⟩

/-- Reading the kind of what an expression stands for. -/
theorem Folds.kindNow {m : Fold Operand} (hm : Folds f m fun s o => o.Known s) :
    Folds f (m >>= Fold.kindNow) Store.Knows := by
  refine hm.bind fun s o hs ho => ?_
  rw [run_kindNow]
  exact ⟨.refl, ho.knows_kind hs⟩

theorem store_changes {s : FoldState} (hs : s.store.Sound) (o : Operand) {k : Kind}
    (hk : s.store.Knows k) : Changes f.file s.store ((Fold.store f o k).run s).2.store := by
  cases o with
  | value _ => exact .refl
  | place root steps => exact perform_changes hs (w := ⟨root, steps, k⟩) hk

/-- Storing a plain kind into what an expression stands for. -/
theorem Folds.store {m : Fold Operand} (hm : Folds f m fun s o => o.Known s)
    (place : Operand → Operand) {k : Kind} (hk : k.isPlain = true) {o : Operand}
    (ho : ∀ s, o.Known s) :
    Folds f (m >>= fun x => Fold.store f (place x) k >>= fun _ => Pure.pure o)
      fun s o => o.Known s := by
  refine hm.bind fun s x hs _ => ?_
  rw [run_bind, run_pure]
  exact ⟨store_changes hs (place x) (Store.knows_of_isPlain hk _), ho _⟩

/-- A fold whose result does not count, followed by a result that is known at once. -/
theorem Folds.thenPure {α : Type} {m : Fold α} {P : Store → α → Prop} (hm : Folds f m P)
    {o : Operand} (ho : ∀ s, o.Known s) :
    Folds f (m >>= fun _ => Pure.pure o) fun s o => o.Known s :=
  hm.bind fun s _ _ _ => ⟨.refl, ho s.store⟩

theorem known_value {k : Kind} (hk : k.isPlain = true) (s : Store) : (Operand.value k).Known s :=
  Store.knows_of_isPlain hk s

/-- Whether the walk over an expression is a series of changes. -/
abbrev WalkFolds (f : Fragment) (e : Expr) : Prop := Folds f (Fold.walk f e) fun s o => o.Known s

theorem walkFolds_index {base i : Expr} (hi : WalkFolds f i) (hb : WalkFolds f base)
    (span : Span) : WalkFolds f (.index span base i) := by
  unfold WalkFolds Fold.walk
  refine hi.both hb (fun h ho => ho.grows h) fun s _ o _ ho => ?_
  split
  · exact Operand.Known.member s o _
  · exact known_value rfl s

theorem walkFolds_assign {left right : Expr} (hr : WalkFolds f right) (hl : WalkFolds f left)
    (span : Span) {op : TokenKind} (hop : op.isAssign = true) :
    WalkFolds f (.binary span op left right) := by
  unfold WalkFolds Fold.walk
  simp only [hop, if_true]
  rw [← bind_assoc]
  refine hr.kindNow.bind fun s k hs hk => ?_
  have hk' := knows_assignedKind hk op right
  obtain ⟨hc, -⟩ := hl s hs
  have hstore := store_changes (f := f) (hc.sound hs) ((Fold.walk f left).run s).1
    (hc.grows.knows hk')
  simp only [run_bind, run_pure]
  exact ⟨hc.trans hstore, (hc.trans hstore).grows.knows hk'⟩

theorem walkFolds_binary {left right : Expr} (hl : WalkFolds f left) (hr : WalkFolds f right)
    (span : Span) {op : TokenKind} (hop : ¬op.isAssign = true) :
    WalkFolds f (.binary span op left right) := by
  unfold WalkFolds Fold.walk
  simp only [hop, Bool.false_eq_true, if_false]
  rw [← bind_assoc]
  refine hl.kindNow.bind fun s l hs hkl => ?_
  obtain ⟨hc, hkr⟩ := hr.kindNow s hs
  rw [← bind_assoc, run_bind, run_pure]
  exact ⟨hc, knows_binaryKind (hc.grows.knows hkl) op _⟩

theorem isPlain_unaryKind (op : TokenKind) : (unaryKind op).isPlain = true := by
  unfold unaryKind
  split <;> rfl

theorem walkFolds_unary {x : Expr} (hx : WalkFolds f x) (span : Span) (op : TokenKind) :
    WalkFolds f (.unary span op x) := by
  unfold WalkFolds Fold.walk
  by_cases hop : op = .symbol .plusPlus ∨ op = .symbol .minusMinus
  · simp only [hop, if_true]
    exact hx.store (fun o => o) rfl (known_value rfl)
  · simp only [hop, if_false]
    exact hx.thenPure (known_value (isPlain_unaryKind op))

theorem walkFolds_call {callee : Expr} {args : List Expr} (ha : FoldsOn f (Fold.walkAll f args))
    (hc : WalkFolds f callee) (span : Span) : WalkFolds f (.call span callee args) := by
  unfold WalkFolds Fold.walk
  refine ha.bind fun s _ hs _ => ?_
  cases hk : receiverKind? callee with
  | none => exact hc.thenPure (known_value rfl) s hs
  | some k => exact hc.store Operand.owner (isPlain_receiverKind? hk) (known_value rfl) s hs

theorem isPlain_constructedKind (callee : Expr) : (constructedKind callee).isPlain = true := by
  unfold constructedKind
  repeat' split
  all_goals rfl

theorem walkFolds_ternary {cond yes no : Expr} (hc : WalkFolds f cond) (hy : WalkFolds f yes)
    (hn : WalkFolds f no) (span : Span) : WalkFolds f (.ternary span cond yes no) := by
  unfold WalkFolds Fold.walk
  refine hc.bind fun s _ hs _ => ?_
  have h : Folds f _ fun s (o : Operand) => o.Known s :=
    hy.kindNow.both hn.kindNow (g := fun (y n : Kind) => Operand.value (y.agree n))
      (fun h hk => h.knows hk) fun s y n hky _ => show s.Knows _ from knows_agree hky n
  simpa only [bind_assoc] using h s hs

mutual

/-- Walking over an expression is a series of changes. -/
-- By induction on the expression; the cases that write have their own lemmas, the others are read
-- and store nothing of their own.
theorem walk_folds (f : Fragment) : (e : Expr) → WalkFolds f e
  | .literal _ k _ _ => by
    unfold WalkFolds Fold.walk
    exact .pure (known_value (by cases k <;> rfl))
  | .identifier .. => by
    unfold WalkFolds Fold.walk
    exact .pure fun _ => trivial
  | .missing => by
    unfold WalkFolds Fold.walk
    exact .pure (known_value rfl)
  | .group _ x => by
    unfold WalkFolds Fold.walk
    exact walk_folds f x
  | .member _ base _ _ => by
    unfold WalkFolds Fold.walk
    exact (walk_folds f base).bind fun s o _ _ => ⟨.refl, Operand.Known.member s.store o _⟩
  | .index span base i => walkFolds_index (walk_folds f i) (walk_folds f base) span
  | .binary span op left right => by
    by_cases hop : op.isAssign = true
    · exact walkFolds_assign (walk_folds f right) (walk_folds f left) span hop
    · exact walkFolds_binary (walk_folds f left) (walk_folds f right) span hop
  | .unary span op x => walkFolds_unary (walk_folds f x) span op
  | .trailing span op x => by
    unfold WalkFolds Fold.walk
    exact (walk_folds f x).store (fun o => o) rfl (known_value rfl)
  | .call span callee args => walkFolds_call (walkAll_folds f args) (walk_folds f callee) span
  | .array _ xs => by
    unfold WalkFolds Fold.walk
    exact (walkAll_folds f xs).thenPure (known_value rfl)
  | .construct _ callee args _ => by
    unfold WalkFolds Fold.walk
    exact (walkAll_folds f args).thenPure (known_value (isPlain_constructedKind callee))
  | .ternary span cond yes no =>
    walkFolds_ternary (walk_folds f cond) (walk_folds f yes) (walk_folds f no) span
  | .template _ parts _ => by
    unfold WalkFolds Fold.walk
    exact (walkParts_folds f parts).thenPure (known_value rfl)

theorem walkAll_folds (f : Fragment) : (xs : List Expr) → FoldsOn f (Fold.walkAll f xs)
  | [] => by
    unfold FoldsOn Fold.walkAll
    exact .pure fun _ => trivial
  | x :: xs => by
    unfold FoldsOn Fold.walkAll
    exact (walk_folds f x).bind fun s _ hs _ => walkAll_folds f xs s hs

theorem walkParts_folds (f : Fragment) : (ps : List (Bytes × Expr)) →
    FoldsOn f (Fold.walkParts f ps)
  | [] => by
    unfold FoldsOn Fold.walkParts
    exact .pure fun _ => trivial
  | (_, x) :: ps => by
    unfold FoldsOn Fold.walkParts
    exact (walk_folds f x).bind fun s _ hs _ => walkParts_folds f ps s hs

end

end Folding

/-! ## Stores that operations lead to -/

namespace Store

/-- Folding a script is a series of changes. -/
theorem fold_changes {s : Store} (hs : s.Sound) (f : Fragment) :
    Changes f.file s (s.fold f).2 := (walkAll_folds f f.script { store := s } hs).1

/-- An operation on a store. -/
inductive Operation where
  | fold (f : Fragment)
  | replace (file : FileId) (fs : List Fragment)
  | removeOrigin (file : FileId)

/-- The store after an operation. -/
def Operation.run (s : Store) : Operation → Store
  | .fold f => (s.fold f).2
  | .replace file fs => (s.replace file fs).2
  | .removeOrigin file => s.removeOrigin file

/-- The store after operations, the first of them on the empty store. -/
def after (ops : List Operation) : Store := ops.foldl Operation.run .empty

/-- What changes and dropping a file keep in sound stores. -/
structure Kept (P : Store → Prop) : Prop where
  change : ∀ {file s t}, s.Sound → P s → Change file s t → P t
  remove : ∀ {s} (file : FileId), s.Sound → P s → P (s.removeOrigin file)

theorem Kept.changes {P : Store → Prop} (h : Kept P) {file : FileId} {s t : Store}
    (hs : s.Sound) (hp : P s) (hc : Changes file s t) : P t := by
  induction hc with
  | refl => exact hp
  | tail hsteps hc ih => exact h.change (Changes.sound hsteps hs) ih hc

theorem Sound.removeOrigin {s : Store} (hs : s.Sound) (file : FileId) :
    (s.removeOrigin file).Sound where
  toWellFormed := (sameLabels_removeOrigin s file).wellFormed hs.toWellFormed
  refs := by
    intro id v a hv ha
    rw [get?_removeOrigin] at hv
    obtain ⟨w, hw, rfl⟩ := Option.map_eq_some_iff.1 hv
    exact hs.refs hw (List.mem_of_mem_filter ha)

theorem kept_sound : Kept Sound where
  change := fun hs _ hc => hc.sound hs
  remove := fun file hs _ => hs.removeOrigin file

theorem Kept.foldAll {P : Store → Prop} (h : Kept P) : (fs : List Fragment) → {s : Store} →
    s.Sound → P s → (s.foldAll fs).2.Sound ∧ P (s.foldAll fs).2
  | [], _, hs, hp => ⟨hs, hp⟩
  | f :: fs, _, hs, hp =>
    h.foldAll fs ((fold_changes hs f).sound hs) (h.changes hs hp (fold_changes hs f))

theorem Kept.run {P : Store → Prop} (h : Kept P) {s : Store} (hs : s.Sound) (hp : P s) :
    (op : Operation) → (op.run s).Sound ∧ P (op.run s)
  | .fold f => ⟨(fold_changes hs f).sound hs, h.changes hs hp (fold_changes hs f)⟩
  | .replace file fs => h.foldAll fs (hs.removeOrigin file) (h.remove file hs hp)
  | .removeOrigin file => ⟨hs.removeOrigin file, h.remove file hs hp⟩

/-- What each operation keeps, all of them keep. -/
theorem Kept.runAll {P : Store → Prop} (h : Kept P) : (ops : List Operation) → {s : Store} →
    s.Sound → P s → (ops.foldl Operation.run s).Sound ∧ P (ops.foldl Operation.run s)
  | [], _, hs, hp => ⟨hs, hp⟩
  | op :: ops, _, hs, hp =>
    have ⟨hs', hp'⟩ := h.run hs hp op
    h.runAll ops hs' hp'

theorem sound_after (ops : List Operation) : (after ops).Sound :=
  (kept_sound.runAll ops sound_empty sound_empty).1

theorem keeps_after {P : Store → Prop} (h : Kept P) (h0 : P .empty) (ops : List Operation) :
    P (after ops) := (h.runAll ops sound_empty h0).2

/-! ## References that a file keeps -/

/-- Whether the file of every assignment has references from a global to the assigned variable. -/
def Owned (s : Store) : Prop :=
  ∀ {id v a}, s.get? id = some v → a ∈ v.assignments → s.Rooted a.origin id

theorem owned_empty : Owned .empty := by
  intro id v a hv
  simp at hv

theorem Change.owned {file : FileId} {s t : Store} (h : Change file s t) (hs : s.Sound)
    (ho : s.Owned) : t.Owned := by
  have hgrows := h.grows
  have hwf := (h.sound hs).toWellFormed
  intro id w b hw hb
  cases h with
  | declare _ _ =>
    obtain hv | hnil := get?_grown_of hw
    · exact hgrows.rooted hwf (ho hv hb)
    · simp [hnil] at hb
  | house _ _ => exact hgrows.rooted hwf (ho hw hb)
  | assign hv ha _ hr =>
    obtain ⟨x, hx, hbx⟩ | ⟨rfl, rfl⟩ := mem_assign (ne_zero_of_get? hv) hw hb
    · exact hgrows.rooted hwf (ho hx hbx)
    · exact hgrows.rooted hwf (ha ▸ hr)

/-- Dropping the assignments of a file leaves the references of all others. -/
theorem Link.removeOrigin {s : Store} (hs : s.WellFormed) {file g : FileId} (hne : file ≠ g)
    {x y : VarId} (h : s.Link g x y) : (s.removeOrigin file).Link g x y := by
  obtain ⟨v, a, o, n, hv, ha, hg, hk, hp⟩ := h
  have hl := sameLabels_removeOrigin s file
  obtain ⟨h0, hf⟩ := property?_eq_some_iff.1 hp
  have hget : (s.removeOrigin file).get? x
      = some { v with assignments := v.assignments.filter fun a => a.origin != file } := by
    rw [get?_removeOrigin, hv, Option.map_some]
  have hkept : a ∈ v.assignments.filter fun a => a.origin != file := by
    refine List.mem_filter.2 ⟨ha, ?_⟩
    rw [hg]
    exact bne_iff_ne.2 hne.symm
  exact ⟨_, a, o, n, hget, hkept, hg, hk,
    property?_eq_some_iff.2 ⟨h0, hl.extends.find? (hl.wellFormed hs) hf⟩⟩

theorem Owned.removeOrigin {s : Store} (hs : s.Sound) (ho : s.Owned) (file : FileId) :
    (s.removeOrigin file).Owned := by
  intro id w b hw hb
  rw [get?_removeOrigin] at hw
  obtain ⟨v, hv, rfl⟩ := Option.map_eq_some_iff.1 hw
  obtain ⟨hbv, hne⟩ := List.mem_filter.1 hb
  have hne : file ≠ b.origin := Ne.symm (bne_iff_ne.1 hne)
  obtain ⟨root, r, hr, h0, hlinks⟩ := ho hv hbv
  obtain ⟨r', hr', ho', -⟩ := (sameLabels_removeOrigin s file).get? hr
  exact ⟨root, r', hr', ho'.trans h0,
    ReflTransGen.mono (fun _ _ hl => hl.removeOrigin hs.toWellFormed hne) _ _ hlinks⟩

theorem kept_owned : Kept Owned where
  change := fun hs ho hc => hc.owned hs ho
  remove := fun file hs ho => ho.removeOrigin hs file

/-- In every store that operations lead to, the file of an assignment has references of its own
from a global to the assigned variable, and dropping another file takes none of them away. -/
theorem references_of_assignment (ops : List Operation) {id : VarId} {v : Variable}
    {a : Assignment} (hv : (after ops).get? id = some v) (ha : a ∈ v.assignments) :
    (∃ root r, (after ops).get? root = some r ∧ r.owner = 0 ∧
        ReflTransGen ((after ops).Link a.origin) root id) ∧
      ∀ file, file ≠ a.origin → ∀ x y, (after ops).Link a.origin x y →
        ((after ops).removeOrigin file).Link a.origin x y :=
  ⟨keeps_after kept_owned owned_empty ops hv ha,
    fun _ hne _ _ hl => hl.removeOrigin (sound_after ops).toWellFormed hne⟩

open Script (Expr) in
/-- The file 1 folds `a.b = 1`.  The file 2 folds `c = a` and `c.d = "x"`, so it writes into the
object of `a` through `c`.  Then the file 1 is dropped. -/
def aliased : List Operation :=
  let span : Span := ⟨0, 0, 0⟩
  let name (n : Bytes) : Expr := .identifier span n
  let assign (target value : Expr) : Expr := .binary span (.symbol .assign) target value
  [.fold ⟨1, 0, [assign (.member span (name "a") "b" span) (.literal span .number "1" "1")]⟩,
    .replace 2 [⟨2, 0, [assign (name "c") (name "a"),
      assign (.member span (name "c") "d" span) (.literal span .string "x" "x")]⟩],
    .removeOrigin 1]

/-- The property `d` of the object of `a` is reached through `c`, though nothing says any more that
`a` holds an object. -/
theorem references_of_aliased :
    (after aliased).get? 4 = some ⟨"d", 1, [⟨2, .string, ⟨2, 0, 0⟩⟩]⟩ ∧
      (∃ root r, (after aliased).get? root = some r ∧ r.owner = 0 ∧
        ReflTransGen ((after aliased).Link 2) root 4) ∧
      ∀ file, file ≠ 2 → ∀ x y, (after aliased).Link 2 x y →
        ((after aliased).removeOrigin file).Link 2 x y :=
  have hd : (after aliased).get? 4 = some ⟨"d", 1, [⟨2, .string, ⟨2, 0, 0⟩⟩]⟩ := by
    decide +kernel
  ⟨hd, references_of_assignment aliased hd (List.mem_singleton_self _)⟩

end Store

end Storyline.Variables
