import Storyline.Proofs.Variables.Changes

/-!
# What a script assigns, and in which order

The kinds that a script writes depend on the store, the places that it writes to do not: folding
any script is performing writes to the places of `writes`, in their order (`fold_performs`).

A write records assignments along its chain of properties and at its end.  A `Trail` lists the
assignments that lead from one store to a later one, each with its variable, so that the
assignments of a variable are the earlier ones and then those of the trail (`Trail.assignments`).
`Marks` says what the trail of a single write looks like.
-/

namespace Storyline.Variables

open Script (Expr TokenKind)
open Store (Sound Knows Changes Extends)

/-! ## Writing to the places of a script -/

/-- A global, and the properties on the way from it to a place. -/
abbrev Place := Step × List Step

/-- The place that is written to. -/
def Write.place (w : Write) : Place := (w.root, w.steps)

/-- The place that an operand stands for. -/
def Operand.place? : Operand → Option Place
  | .place root steps => some (root, steps)
  | .value _ => none

theorem Operand.place?_member (o : Operand) (step : Step) :
    (o.member step).place? = o.place?.map fun p => (p.1, p.2 ++ [step]) := by
  cases o <;> rfl

theorem Operand.place?_owner (o : Operand) :
    o.owner.place? = o.place?.map fun p => (p.1, p.2.dropLast) := by
  cases o <;> rfl

/-- Which place the walk over an expression finds does not depend on the store. -/
theorem walk_place? (f : Fragment) : (e : Expr) → (s : FoldState) →
    ((Fold.walk f e).run s).1.place? = place? e
  | .literal .., _ | .identifier .., _ | .missing, _ => rfl
  | .group _ x, s => by
    rw [Fold.walk, place?]
    exact walk_place? f x s
  | .member _ base name span, s => by
    rw [Fold.walk, place?, run_bind, run_pure, Operand.place?_member, walk_place? f base]
  | .index _ base i, s => by
    simp only [Fold.walk, place?, run_bind, run_pure]
    cases literalStep? i with
    | none => rfl
    | some step =>
      simp only [Operand.place?_member, walk_place? f base, Option.bind_some]
  | .binary _ op left right, s => by
    simp only [Fold.walk, place?]
    split <;> rfl
  | .unary _ op x, s => by
    simp only [Fold.walk, place?, run_bind]
    split <;> rfl
  | .trailing .., _ | .array .., _ | .construct .., _ | .ternary .., _ | .template .., _ => by
    simp only [Fold.walk, place?]
    rfl
  | .call _ callee args, s => by
    simp only [Fold.walk, place?, run_bind]
    split <;> rfl

/-- Writes whose kinds are no references but to objects that are there by then. -/
def KnownAt (f : Fragment) : FoldState → List Write → Prop
  | _, [] => True
  | s, w :: ws => s.store.Knows w.kind ∧ KnownAt f (perform f s w) ws

theorem knownAt_append {f : Fragment} {s : FoldState} {ws ws' : List Write} :
    KnownAt f s (ws ++ ws') ↔ KnownAt f s ws ∧ KnownAt f (performAll f s ws) ws' := by
  induction ws generalizing s with
  | nil => exact ⟨fun h => ⟨trivial, h⟩, And.right⟩
  | cons w ws ih =>
    rw [List.cons_append, KnownAt, KnownAt, ih, and_assoc]
    rfl

theorem KnownAt.sound {f : Fragment} {s : FoldState} {ws : List Write} (h : KnownAt f s ws)
    (hs : s.store.Sound) : (performAll f s ws).store.Sound := by
  induction ws generalizing s with
  | nil => exact hs
  | cons w ws ih => exact ih h.2 ((perform_changes hs h.1).sound hs)

/-- Whether a fold does nothing but write to places, in order. -/
def Performs {α : Type} (f : Fragment) (s : FoldState) (m : Fold α)
    (ps : List Place) : Prop :=
  ∃ ws, (m.run s).2 = performAll f s ws ∧ ws.map Write.place = ps ∧ KnownAt f s ws

section Performing

variable {α β : Type} {f : Fragment} {s : FoldState}

theorem Performs.pure (a : α) : Performs f s (Pure.pure a) [] := ⟨[], rfl, rfl, trivial⟩

theorem Performs.sound {m : Fold α} {ps : List Place} (h : Performs f s m ps)
    (hs : s.store.Sound) : (m.run s).2.store.Sound := by
  obtain ⟨ws, hrun, -, hknown⟩ := h
  rw [hrun]
  exact hknown.sound hs

theorem Performs.bind {m : Fold α} {g : α → Fold β} {ps qs : List Place}
    (hs : s.store.Sound) (hm : Performs f s m ps)
    (hg : (m.run s).2.store.Sound → Performs f (m.run s).2 (g (m.run s).1) qs) :
    Performs f s (m >>= g) (ps ++ qs) := by
  obtain ⟨ws', hrun', hplaces', hknown'⟩ := hg (hm.sound hs)
  obtain ⟨ws, hrun, hplaces, hknown⟩ := hm
  rw [hrun] at hrun' hknown'
  refine ⟨ws ++ ws', ?_, ?_, knownAt_append.2 ⟨hknown, hknown'⟩⟩
  · rw [run_bind, hrun, hrun', performAll_append]
  · rw [List.map_append, hplaces, hplaces']

/-- A result that is only looked at writes nothing. -/
theorem Performs.then {m : Fold α} {g : α → Fold β} {ps : List Place}
    (hm : Performs f s m ps) (hg : ∀ a t, ((g a).run t).2 = t) : Performs f s (m >>= g) ps := by
  obtain ⟨ws, hrun, hplaces, hknown⟩ := hm
  exact ⟨ws, by rw [run_bind, hg, hrun], hplaces, hknown⟩

/-- Reading a kind writes nothing. -/
theorem Performs.kind {o : Operand} {g : Kind → Fold β} {ps : List Place}
    (h : Performs f s (g (o.kind s.store)) ps) : Performs f s (Fold.kindNow o >>= g) ps := h

theorem performs_store (o : Operand) {k : Kind} (hk : s.store.Knows k) :
    Performs f s (Fold.store f o k) o.place?.toList := by
  cases o with
  | value _ => exact .pure ()
  | place root steps => exact ⟨[⟨root, steps, k⟩], rfl, rfl, hk, trivial⟩

theorem places_writeTo (p : Option Place) (k : Kind) :
    (writeTo p k).map Write.place = p.toList := by
  cases p <;> rfl

/-- Whether the walk over an expression writes to its places. -/
abbrev WalkPerforms (f : Fragment) (e : Expr) : Prop :=
  ∀ s : FoldState, s.store.Sound → Performs f s (Fold.walk f e) ((writes e).map Write.place)

/-- A plain kind is stored into what was walked over last. -/
theorem WalkPerforms.store {e : Expr} (he : WalkPerforms f e) (hs : s.store.Sound) {k : Kind}
    (hk : k.isPlain = true) (o : Operand) :
    Performs f s (Fold.walk f e >>= fun x => Fold.store f x k >>= fun _ => Pure.pure o)
      ((writes e ++ writeTo (place? e) k).map Write.place) := by
  rw [List.map_append, places_writeTo, ← walk_place? f e s]
  refine .bind hs (he s hs) fun _ => .then ?_ fun _ _ => rfl
  exact performs_store _ (Store.knows_of_isPlain hk _)

theorem walkPerforms_assign {left right : Expr} (hr : WalkPerforms f right)
    (hl : WalkPerforms f left) (span : Span) {op : TokenKind} (hop : op.isAssign = true) :
    WalkPerforms f (.binary span op left right) := by
  intro s hs
  have hplaces : (writes (.binary span op left right)).map Write.place
      = (writes right).map Write.place ++ ((writes left).map Write.place
        ++ (place? left).toList) := by
    simp only [writes, hop, if_true, List.map_append, places_writeTo, List.append_assoc]
  rw [hplaces]
  unfold Fold.walk
  simp only [hop, if_true]
  refine .bind hs (hr s hs) fun hs₁ => .kind ?_
  -- the kind on the right is known from here on
  have hknown := (walk_folds f right s hs).2.knows_kind hs₁
  rw [← walk_place? f left ((Fold.walk f right).run s).2]
  refine .bind hs₁ (hl _ hs₁) fun hs₂ => .then ?_ fun _ _ => rfl
  have hgrows := (walk_folds f left ((Fold.walk f right).run s).2 hs₁).1.grows
  exact performs_store _ (hgrows.knows (knows_assignedKind hknown op right))

theorem walkPerforms_binary {left right : Expr} (hl : WalkPerforms f left)
    (hr : WalkPerforms f right) (span : Span) {op : TokenKind} (hop : ¬op.isAssign = true) :
    WalkPerforms f (.binary span op left right) := by
  intro s hs
  unfold Fold.walk
  simp only [writes, hop, Bool.false_eq_true, if_false, List.map_append]
  exact .bind hs (hl s hs) fun hs₁ => .kind (.then (hr _ hs₁) fun _ _ => rfl)

theorem walkPerforms_unary {x : Expr} (hx : WalkPerforms f x) (span : Span) (op : TokenKind) :
    WalkPerforms f (.unary span op x) := by
  intro s hs
  unfold Fold.walk
  by_cases hop : op = .symbol .plusPlus ∨ op = .symbol .minusMinus
  · simp only [writes, hop, if_true]
    exact hx.store hs rfl _
  · simp only [writes, hop, if_false, List.append_nil]
    exact .then (hx s hs) fun _ _ => rfl

theorem walkPerforms_call {callee : Expr} {args : List Expr}
    (ha : ∀ s : FoldState, s.store.Sound →
      Performs f s (Fold.walkAll f args) ((writesAll args).map Write.place))
    (hc : WalkPerforms f callee) (span : Span) : WalkPerforms f (.call span callee args) := by
  intro s hs
  unfold Fold.walk
  simp only [writes, List.map_append, List.append_assoc]
  refine .bind hs (ha s hs) fun hs₁ => ?_
  cases hk : receiverKind? callee with
  | none =>
    simp only [List.map_nil, List.append_nil]
    exact .then (hc _ hs₁) fun _ _ => rfl
  | some k =>
    rw [places_writeTo, ← walk_place? f callee ((Fold.walkAll f args).run s).2,
      ← Operand.place?_owner]
    refine .bind hs₁ (hc _ hs₁) fun _ => .then ?_ fun _ _ => rfl
    exact performs_store _ (Store.knows_of_isPlain (isPlain_receiverKind? hk) _)

theorem walkPerforms_ternary {cond yes no : Expr} (hc : WalkPerforms f cond)
    (hy : WalkPerforms f yes) (hn : WalkPerforms f no) (span : Span) :
    WalkPerforms f (.ternary span cond yes no) := by
  intro s hs
  unfold Fold.walk
  simp only [writes, List.map_append, List.append_assoc]
  exact .bind hs (hc s hs) fun hs₁ => .bind hs₁ (hy _ hs₁) fun hs₂ =>
    .kind (.then (hn _ hs₂) fun _ _ => rfl)

end Performing

mutual

/-- Walking over an expression is writing to its places. -/
-- By induction on the expression, in the order in which the parts are walked: the writes of a node
-- are those of its parts and then its own.
theorem walk_performs (f : Fragment) : (e : Expr) → WalkPerforms f e
  | .literal .., _, _ | .identifier .., _, _ | .missing, _, _ => .pure _
  | .group _ x, s, hs => by
    unfold Fold.walk
    exact walk_performs f x s hs
  | .member _ base _ _, s, hs => by
    unfold Fold.walk
    exact .then (walk_performs f base s hs) fun _ _ => rfl
  | .index _ base i, s, hs => by
    unfold Fold.walk
    simp only [writes, List.map_append]
    exact .bind hs (walk_performs f i s hs) fun hs₁ =>
      .then (walk_performs f base _ hs₁) fun _ _ => rfl
  | .binary span op left right, s, hs => by
    by_cases hop : op.isAssign = true
    · exact walkPerforms_assign (walk_performs f right) (walk_performs f left) span hop s hs
    · exact walkPerforms_binary (walk_performs f left) (walk_performs f right) span hop s hs
  | .unary span op x, s, hs => walkPerforms_unary (walk_performs f x) span op s hs
  | .trailing _ _ x, s, hs => by
    unfold Fold.walk
    exact (walk_performs f x).store hs rfl _
  | .call span callee args, s, hs =>
    walkPerforms_call (walkAll_performs f args) (walk_performs f callee) span s hs
  | .array _ xs, s, hs => by
    unfold Fold.walk
    exact .then (walkAll_performs f xs s hs) fun _ _ => rfl
  | .construct _ _ args _, s, hs => by
    unfold Fold.walk
    exact .then (walkAll_performs f args s hs) fun _ _ => rfl
  | .ternary span cond yes no, s, hs =>
    walkPerforms_ternary (walk_performs f cond) (walk_performs f yes) (walk_performs f no) span s hs
  | .template _ parts _, s, hs => by
    unfold Fold.walk
    exact .then (walkParts_performs f parts s hs) fun _ _ => rfl

theorem walkAll_performs (f : Fragment) : (xs : List Expr) → (s : FoldState) → s.store.Sound →
    Performs f s (Fold.walkAll f xs) ((writesAll xs).map Write.place)
  | [], _, _ => .pure ()
  | x :: xs, s, hs => by
    unfold Fold.walkAll
    simp only [writesAll, List.map_append]
    exact .bind hs (walk_performs f x s hs) fun hs₁ => walkAll_performs f xs _ hs₁

theorem walkParts_performs (f : Fragment) : (ps : List (Bytes × Expr)) → (s : FoldState) →
    s.store.Sound → Performs f s (Fold.walkParts f ps) ((writesParts ps).map Write.place)
  | [], _, _ => .pure ()
  | (_, x) :: ps, s, hs => by
    unfold Fold.walkParts
    simp only [writesParts, List.map_append]
    exact .bind hs (walk_performs f x s hs) fun hs₁ => walkParts_performs f ps _ hs₁

end

/-- Folding a script is writing to its places, in order. -/
theorem fold_performs {s : Store} (hs : s.Sound) (f : Fragment) :
    ∃ ws, (s.fold f).2 = (performAll f { store := s } ws).store ∧
      ws.map Write.place = (writesAll f.script).map Write.place ∧ KnownAt f { store := s } ws := by
  obtain ⟨ws, hrun, hplaces, hknown⟩ := walkAll_performs f f.script { store := s } hs
  exact ⟨ws, congrArg FoldState.store hrun, hplaces, hknown⟩

/-! ## Trails -/

namespace Store

/-- The assignments of the variable with a number. -/
def assignmentsAt (s : Store) (id : VarId) : List Assignment :=
  ((s.get? id).map (·.assignments)).getD []

/-- A later store, and the assignments that were made on the way to it. -/
structure Trail (s : Store) (l : List (VarId × Assignment)) (t : Store) : Prop
    extends Extends s t where
  assignments : ∀ id, t.assignmentsAt id
    = s.assignmentsAt id ++ (l.filter fun e => e.1 = id).map (·.2)

theorem Trail.refl (s : Store) : Trail s [] s := ⟨.refl s, fun _ => by simp⟩

theorem Trail.trans {s t u : Store} {l m : List (VarId × Assignment)} (h : Trail s l t)
    (h' : Trail t m u) : Trail s (l ++ m) u where
  toExtends := h.toExtends.trans h'.toExtends
  assignments id := by
    rw [h'.assignments, h.assignments, List.filter_append, List.map_append, List.append_assoc]

theorem trail_grown (s : Store) (o : ObjectId) (n : Bytes) : Trail s [] (s.grown o n) where
  toExtends := extends_grown s o n
  assignments id := by
    simp only [assignmentsAt, get?_grown]
    split
    · next h =>
      have hnone : s.get? id = none := by
        cases hv : s.get? id with
        | none => rfl
        | some v => exact absurd (le_size_of_get? hv) (by rw [h]; exact Nat.not_succ_le_self _)
      simp [hnone]
    · simp

theorem trail_declare (s : Store) (o : ObjectId) (n : Bytes) : Trail s [] (s.declare o n).2 := by
  rw [declare_eq]
  split
  · exact .refl s
  · exact trail_grown s o n

theorem trail_homeObject (s : Store) (id : VarId) : Trail s [] (s.homeObject id).2 := by
  rw [homeObject_eq]
  split
  · exact .refl s
  · exact ⟨extends_housed s id, fun j => by simp [assignmentsAt]⟩

theorem trail_assign {s : Store} {id : VarId} {v : Variable} (hv : s.get? id = some v)
    (a : Assignment) : Trail s [(id, a)] (s.assign id a) where
  toExtends := (sameLabels_assign (ne_zero_of_get? hv) a).extends
  assignments j := by
    simp only [assignmentsAt, get?_assign (ne_zero_of_get? hv)]
    by_cases hj : id = j
    · subst hj
      simp [hv]
    · cases s.get? j <;> simp [hj]

end Store

open Store (Trail)

/-! ## The trail of a write -/

/-- Whether a span of a place is where it names a variable: the global at its root, or a property
at one of its steps. -/
def Place.Names (p : Place) (v : Variable) (span : Span) : Prop :=
  (v.owner = 0 ∧ v.name = p.1.name ∧ span = p.1.span)
    ∨ v.owner ≠ 0 ∧ ∃ step ∈ p.2, span = step.span

/-- An assignment that writing to a place makes: it belongs to the file and stands where the place
names the variable. -/
def Place.Left (f : Fragment) (p : Place) (t : Store) (e : VarId × Assignment) : Prop :=
  e.2.origin = f.file ∧ ∃ v span, t.get? e.1 = some v ∧ p.Names v span ∧
    e.2.span = span.shift f.base f.file

/-- The assignments that writing to a place makes; on a global it is exactly one. -/
structure Place.Marks (f : Fragment) (t : Store) (p : Place) (l : List (VarId × Assignment)) :
    Prop where
  each : ∀ e ∈ l, p.Left f t e
  direct : p.2 = [] → l.length = 1

theorem Place.Left.later {f : Fragment} {p : Place} {t u : Store} {e : VarId × Assignment}
    (h : p.Left f t e) (hu : Extends t u) : p.Left f u e := by
  obtain ⟨horigin, v, span, hv, hnames, hspan⟩ := h
  obtain ⟨v', hv', howner, hname⟩ := hu.vars hv
  refine ⟨horigin, v', span, hv', ?_, hspan⟩
  simpa only [Names, howner, hname] using hnames

section Writing

variable {f : Fragment}

/-- What writing through a variable assigns: at most a reference to the object that it gives, to the
variable itself. -/
theorem objectOf_trail {s : FoldState} {id : VarId} {v : Variable} (hv : s.store.get? id = some v)
    (span : Span) :
    ∃ l, Trail s.store l ((Fold.objectOf f id span).run s).2.store ∧
      ∀ e ∈ l, e = (id, ⟨f.file, .object ((Fold.objectOf f id span).run s).1,
        span.shift f.base f.file⟩) := by
  have hreached : Trail s.store [] (reached s id).2.store := by
    unfold reached
    split
    · exact .refl _
    · exact Store.trail_homeObject _ id
  rw [objectOf_run]
  by_cases href : (reached s id).2.store.refers id (reached s id).1 f.file = true
  · simp only [href, if_true]
    exact ⟨[], hreached, List.forall_mem_nil _⟩
  · simp only [href, Bool.false_eq_true, if_false]
    obtain ⟨v', hv', -⟩ := hreached.vars hv
    refine ⟨_, hreached.trans (Store.trail_assign hv' _), ?_⟩
    simp

/-- The chain of a write leads to a variable that the write names. -/
theorem resolve_trail (p : Place) : (steps : List Step) → (∀ step ∈ steps, step ∈ p.2) →
    {s : FoldState} → s.store.Sound → {id : VarId} → s.store.Rooted f.file id →
    {v : Variable} → s.store.get? id = some v → (span : Span) → p.Names v span →
    ∃ l, Trail s.store l ((Fold.resolve f id span steps).run s).2.store ∧
      (∀ e ∈ l, p.Left f ((Fold.resolve f id span steps).run s).2.store e) ∧
      (steps = [] → l = []) ∧ ∃ v', ((Fold.resolve f id span steps).run s).2.store.get?
          ((Fold.resolve f id span steps).run s).1.1 = some v' ∧
        p.Names v' ((Fold.resolve f id span steps).run s).1.2
  | [], _, s, _, _, _, v, hv, _, hnames => 
    ⟨[], .refl _, List.forall_mem_nil _, fun _ => rfl, v, hv, hnames⟩
  -- one step makes the object and declares the property; the others start from there
  | step :: rest, hsub, s, hs, id, hr, v, hv, span, hnames => by
    obtain ⟨hstep, hrest⟩ := List.forall_mem_cons.1 hsub
    obtain ⟨hc, ⟨home, hh⟩, href⟩ := objectOf_changes hs hr span
    obtain ⟨l, htrail, hl⟩ := objectOf_trail (f := f) hv span
    obtain ⟨hd, hfind⟩ := Store.declare_changes (hc.sound hs) f.file (.inr ⟨home, hh⟩) step.name
    have hroot := resolve_changes (f := f) [step] hs hr span
    rw [resolve_run_cons] at hroot ⊢
    generalize (Fold.objectOf f id span).run s = r at hc hh htrail hd hfind hroot ⊢
    -- the property that comes next belongs to an object, and is where the step is
    obtain ⟨u, hu, howner, -⟩ := Store.get?_of_find? hfind
    have hnext : p.Names u step.span :=
      .inr ⟨by rw [howner]; exact Store.ne_zero_of_home? hh, step, hstep, rfl⟩
    obtain ⟨m, hmtrail, hm, -, hend⟩ := resolve_trail p rest hrest
      (s := { r.2 with store := (r.2.store.declare r.1 step.name).2 }) (hroot.1.sound hs) hroot.2
      hu step.span hnext
    have hmade := htrail.trans (Store.trail_declare r.2.store r.1 step.name)
    refine ⟨l ++ [] ++ m, hmade.trans hmtrail, ?_, nofun, hend⟩
    rw [List.append_nil, List.forall_mem_append]
    refine ⟨fun e he => ?_, hm⟩
    obtain rfl := hl e he
    obtain ⟨v', hv', howner', hname'⟩ := (htrail.toExtends.trans
      ((Store.trail_declare r.2.store r.1 step.name).toExtends.trans hmtrail.toExtends)).vars hv
    refine ⟨rfl, v', span, hv', ?_, rfl⟩
    simpa only [Place.Names, howner', hname'] using hnames

/-- What a write assigns. -/
theorem perform_trail {s : FoldState} (hs : s.store.Sound) (w : Write) :
    ∃ l, Trail s.store l (perform f s w).store ∧ w.place.Marks f (perform f s w).store l := by
  obtain ⟨hd, hfind⟩ := Store.declare_changes hs f.file (.inl rfl) w.root.name
  obtain ⟨v, hv, howner, hname⟩ := Store.get?_of_find? hfind
  have hmade := Store.trail_declare s.store 0 w.root.name
  obtain ⟨l, htrail, hl, hnil, v', hv', hnames⟩ := resolve_trail (f := f) w.place w.steps
    (fun _ h => h) (s := { s with store := (s.store.declare 0 w.root.name).2 }) (hd.sound hs)
    (Store.rooted_of_global hv howner f.file) hv w.root.span (.inl ⟨howner, hname, rfl⟩)
  rw [perform_run]
  dsimp only
  generalize (Fold.resolve f _ w.root.span w.steps).run _ = r at htrail hl hv' hnames ⊢
  have hrecord := Store.trail_assign hv' ⟨f.file, w.kind, r.1.2.shift f.base f.file⟩
  refine ⟨[] ++ l ++ [_], (hmade.trans htrail).trans hrecord, ?_, fun hsteps => ?_⟩
  · rw [List.nil_append, List.forall_mem_append, List.forall_mem_singleton]
    refine ⟨fun e he => (hl e he).later hrecord.toExtends, rfl, ?_⟩
    obtain ⟨v'', hv'', howner'', hname''⟩ := hrecord.vars hv'
    refine ⟨v'', r.1.2, hv'', ?_, rfl⟩
    simpa only [Place.Names, howner'', hname''] using hnames
  · simp [hnil hsteps]

/-- What writes assign, one after the other. -/
theorem performAll_trail {s : FoldState} (hs : s.store.Sound) {ws : List Write}
    (hknown : KnownAt f s ws) :
    ∃ ls, Trail s.store ls.flatten (performAll f s ws).store ∧
      List.Forall₂ (Place.Marks f (performAll f s ws).store) (ws.map Write.place) ls := by
  induction ws generalizing s with
  | nil => exact ⟨[], .refl _, .nil⟩
  | cons w ws ih =>
    obtain ⟨l, htrail, hmarks⟩ := perform_trail (f := f) hs w
    obtain ⟨ls, hrest, hall⟩ := ih ((perform_changes hs hknown.1).sound hs) hknown.2
    refine ⟨l :: ls, htrail.trans hrest, .cons ⟨fun e he => ?_, hmarks.direct⟩ hall⟩
    exact (hmarks.each e he).later hrest.toExtends

end Writing

/-- What folding a script assigns: for each of its places in order, what writing there assigns. -/
theorem fold_trail {s : Store} (hs : s.Sound) (f : Fragment) :
    ∃ ls, Trail s ls.flatten (s.fold f).2 ∧
      List.Forall₂ (Place.Marks f (s.fold f).2) ((writesAll f.script).map Write.place) ls := by
  obtain ⟨ws, hrun, hplaces, hknown⟩ := fold_performs hs f
  obtain ⟨ls, htrail, hmarks⟩ := performAll_trail (f := f) hs hknown
  rw [hrun, ← hplaces]
  exact ⟨ls, htrail, hmarks⟩

end Storyline.Variables
