import Storyline.Proofs.Variables.Targets

/-!
# Where assignments come from

Whatever is written to lies at words of the script: the global at its name, each property at its own
name or at the value between the brackets (`liesIn_writes`).  An assignment that folding a script
adds to a store therefore stands at a word of the script, moved to its file, and on a global that
word is its name (`Fragment.Makes`).  Replacing the scripts of a file leaves the assignments of
other files and those that the new scripts make (`replace_entries`).
-/

namespace Storyline.Variables

open Script (Expr TokenKind Leaf)
open Script.Expr (leaves leavesOf leavesIn mem_leavesOf mem_leavesIn leaves_unparen)
open Store (Trail)

/-! ## Places at words -/

/-- A place whose names all stand at words. -/
structure Place.LiesIn (p : Place) (words : List Leaf) : Prop where
  root : p.leaf ∈ words
  steps : ∀ step ∈ p.2, ∃ y ∈ words, y.span = step.span

namespace Place.LiesIn

variable {p : Place} {xs ys : List Leaf}

theorem mono (h : p.LiesIn xs) (hsub : xs ⊆ ys) : p.LiesIn ys where
  root := hsub h.root
  steps step hstep := by
    obtain ⟨y, hy, hspan⟩ := h.steps step hstep
    exact ⟨y, hsub hy, hspan⟩

theorem snoc (h : p.LiesIn xs) {step : Step} {y : Leaf} (hy : y ∈ ys) (hspan : y.span = step.span) :
    Place.LiesIn (p.1, p.2 ++ [step]) (xs ++ ys) where
  root := List.mem_append_left _ h.root
  steps := by
    rw [List.forall_mem_append, List.forall_mem_singleton]
    exact ⟨(h.mono (List.subset_append_left xs ys)).steps, y, List.mem_append_right _ hy, hspan⟩

theorem dropLast (h : p.LiesIn xs) : Place.LiesIn (p.1, p.2.dropLast) xs :=
  ⟨h.root, fun step hstep => h.steps step (List.dropLast_subset p.2 hstep)⟩

end Place.LiesIn

/-- A property between brackets stands at the value there. -/
theorem exists_leaf_of_literalStep? {i : Expr} {step : Step} (h : literalStep? i = some step) :
    ∃ y ∈ i.leaves, y.span = step.span := by
  rw [← leaves_unparen]
  rw [literalStep?] at h
  split at h
  · next span raw value heq =>
    obtain rfl := Option.some.inj h
    exact ⟨⟨raw, span⟩, by rw [heq, leaves]; exact List.mem_singleton_self _, rfl⟩
  · next span raw value heq =>
    obtain rfl := Option.some.inj h
    exact ⟨⟨raw, span⟩, by rw [heq, leaves]; exact List.mem_singleton_self _, rfl⟩
  · cases h

theorem liesIn_place? : (e : Expr) → {p : Place} → place? e = some p → p.LiesIn e.leaves
  | .identifier .., _, h => by
    obtain rfl := Option.some.inj h
    exact ⟨List.mem_singleton_self _, List.forall_mem_nil _⟩
  | .group _ x, _, h => liesIn_place? x h
  | .member _ base name span, _, h => by
    obtain ⟨p, hp, rfl⟩ := Option.map_eq_some_iff.mp h
    exact (liesIn_place? base hp).snoc (List.mem_singleton_self _) rfl
  | .index _ base i, _, h => by
    obtain ⟨step, hstep, h⟩ := Option.bind_eq_some_iff.mp h
    obtain ⟨p, hp, rfl⟩ := Option.map_eq_some_iff.mp h
    obtain ⟨y, hy, hspan⟩ := exists_leaf_of_literalStep? hstep
    exact (liesIn_place? base hp).snoc hy hspan
  | .literal .., _, h | .binary .., _, h | .unary .., _, h | .trailing .., _, h | .call .., _, h
  | .array .., _, h | .construct .., _, h | .ternary .., _, h | .template .., _, h
  | .missing, _, h => by cases h

/-- Writes whose places stand at words. -/
def AllLie (ws : List Write) (words : List Leaf) : Prop := ∀ w ∈ ws, w.place.LiesIn words

namespace AllLie

variable {ws ws' : List Write} {xs ys : List Leaf}

theorem append (h : AllLie ws xs) (h' : AllLie ws' xs) : AllLie (ws ++ ws') xs :=
  List.forall_mem_append.mpr ⟨h, h'⟩

theorem inLeft (h : AllLie ws xs) : AllLie ws (xs ++ ys) :=
  fun w hw => (h w hw).mono (List.subset_append_left xs ys)

theorem inRight (h : AllLie ws ys) : AllLie ws (xs ++ ys) :=
  fun w hw => (h w hw).mono (List.subset_append_right xs ys)

theorem writeTo {p : Option Place} (h : ∀ q, p = some q → q.LiesIn xs) (k : Kind) :
    AllLie (writeTo p k) xs := by
  intro w hw
  have hplace : w.place ∈ p.toList := places_writeTo p k ▸ List.mem_map_of_mem hw
  exact h _ (Option.mem_toList.mp hplace)

theorem writeTo_place? (e : Expr) (k : Kind) : AllLie (Variables.writeTo (place? e) k) e.leaves :=
  writeTo (fun _ h => liesIn_place? e h) k

end AllLie

mutual

/-- What an expression writes to lies at its words. -/
theorem liesIn_writes : (e : Expr) → AllLie (writes e) e.leaves
  | .literal .. | .identifier .. | .missing => List.forall_mem_nil _
  | .group _ x => liesIn_writes x
  | .member _ base _ _ => (liesIn_writes base).inLeft
  | .index _ base i => .append (liesIn_writes i).inRight (liesIn_writes base).inLeft
  | .binary span op left right => by
    have hl := liesIn_writes left
    have hr := liesIn_writes right
    rw [writes]
    split
    · exact .append (.append hr.inRight hl.inLeft) (AllLie.writeTo_place? left _).inLeft
    · exact .append hl.inLeft hr.inRight
  | .unary _ op x => by
    rw [writes]
    refine .append (liesIn_writes x) ?_
    split
    · exact .writeTo_place? x _
    · exact List.forall_mem_nil _
  | .trailing _ _ x => .append (liesIn_writes x) (.writeTo_place? x _)
  | .call _ callee args => by
    rw [writes]
    refine .append (.append (liesIn_writesAll args).inRight (liesIn_writes callee).inLeft) ?_
    split
    · refine .writeTo (fun q hq => ?_) _
      obtain ⟨p, hp, rfl⟩ := Option.map_eq_some_iff.mp hq
      exact (liesIn_place? callee hp).dropLast.mono (List.subset_append_left _ _)
    · exact List.forall_mem_nil _
  | .array _ xs => liesIn_writesAll xs
  | .construct _ _ args _ => (liesIn_writesAll args).inRight
  | .ternary _ cond yes no => .append (.append (liesIn_writes cond).inLeft
      (liesIn_writes yes).inLeft.inRight) (liesIn_writes no).inRight.inRight
  | .template _ parts _ => liesIn_writesParts parts

theorem liesIn_writesAll : (xs : List Expr) → AllLie (writesAll xs) (leavesOf xs)
  | [] => List.forall_mem_nil _
  | x :: xs => .append (liesIn_writes x).inLeft (liesIn_writesAll xs).inRight

theorem liesIn_writesParts : (ps : List (Bytes × Expr)) → AllLie (writesParts ps) (leavesIn ps)
  | [] => List.forall_mem_nil _
  | (_, x) :: ps => .append (liesIn_writes x).inLeft (liesIn_writesParts ps).inRight

end

/-! ## Assignments at words -/

/-- Whether an assignment of a variable can come from a script: it stands at a word of the script,
which is the name of the variable if that is a global. -/
def Fragment.Makes (f : Fragment) (v : Variable) (a : Assignment) : Prop :=
  a.origin = f.file ∧ ∃ y ∈ leavesOf f.script,
    a.span = y.span.shift f.base f.file ∧ (v.owner = 0 → v.name = y.text)

theorem Place.Left.makes {f : Fragment} {p : Place} {t : Store} {x : VarId} {a : Assignment}
    {v : Variable} (h : p.Left f t (x, a)) (hp : p.LiesIn (leavesOf f.script))
    (hv : t.get? x = some v) : f.Makes v a := by
  obtain ⟨horigin, u, span, hu, hnames, hspan⟩ := h
  obtain rfl : u = v := Option.some.inj (hu.symm.trans hv)
  refine ⟨horigin, ?_⟩
  rcases hnames with ⟨-, hname, rfl⟩ | ⟨howner, step, hstep, rfl⟩
  · exact ⟨p.leaf, hp.root, hspan, fun _ => hname⟩
  · obtain ⟨y, hy, hat⟩ := hp.steps step hstep
    exact ⟨y, hy, by rw [hspan, hat], fun hzero => absurd hzero howner⟩

/-- What was written belongs to one of the places. -/
theorem exists_marks_of_mem {f : Fragment} {t : Store} {ps : List Place}
    {ls : List (List (VarId × Assignment))} (h : List.Forall₂ (Place.Marks f t) ps ls)
    {l : List (VarId × Assignment)} (hl : l ∈ ls) : ∃ p ∈ ps, p.Marks f t l := by
  induction h with
  | nil => cases hl
  | @cons p l' ps ls hmarks _ ih =>
    rcases List.mem_cons.mp hl with rfl | hl
    · exact ⟨p, List.mem_cons_self, hmarks⟩
    · obtain ⟨q, hq, hmark⟩ := ih hl
      exact ⟨q, List.mem_cons_of_mem _ hq, hmark⟩

namespace Store

variable {s : Store} {x : VarId} {v : Variable} {a : Assignment}

/-- Whether a variable like `v` has an assignment in a store. -/
def Has (s : Store) (x : VarId) (v : Variable) (a : Assignment) : Prop :=
  ∃ u, s.get? x = some u ∧ a ∈ u.assignments ∧ u.owner = v.owner ∧ u.name = v.name

theorem has_of_get? (hv : s.get? x = some v) (ha : a ∈ v.assignments) : s.Has x v a :=
  ⟨v, hv, ha, rfl, rfl⟩

/-- What was made of an assignment of `v` holds of it for every variable like `v`. -/
theorem makes_congr {f : Fragment} {u : Variable} (h : f.Makes u a) (howner : u.owner = v.owner)
    (hname : u.name = v.name) : f.Makes v a := by
  obtain ⟨horigin, y, hy, hspan, htext⟩ := h
  exact ⟨horigin, y, hy, hspan, by rwa [← howner, ← hname]⟩

/-- An assignment after a fold was there before, or the script makes it. -/
theorem fold_entries (hs : s.Sound) (f : Fragment) (h : (s.fold f).2.Has x v a) :
    s.Has x v a ∨ f.Makes v a := by
  obtain ⟨u, hu, ha, howner, hname⟩ := h
  obtain ⟨ls, htrail, hmarks⟩ := fold_trail hs f
  have hat : a ∈ (s.fold f).2.assignmentsAt x := by rwa [assignmentsAt, hu]
  rw [htrail.assignments, List.mem_append] at hat
  rcases hat with hold | hnew
  · left
    cases hget : s.get? x with
    | none => simp [assignmentsAt, hget] at hold
    | some w =>
      obtain ⟨u', hu', howner', hname'⟩ := htrail.vars hget
      obtain rfl : u' = u := Option.some.inj (hu'.symm.trans hu)
      rw [assignmentsAt, hget] at hold
      exact ⟨w, hget, hold, howner'.symm.trans howner, hname'.symm.trans hname⟩
  · right
    obtain ⟨e, he, rfl⟩ := List.mem_map.mp hnew
    obtain ⟨hflat, hx⟩ := List.mem_filter.mp he
    obtain rfl : e.1 = x := of_decide_eq_true hx
    obtain ⟨l, hl, he⟩ := List.mem_flatten.mp hflat
    obtain ⟨p, hp, hmark⟩ := exists_marks_of_mem hmarks hl
    obtain ⟨w, hw, rfl⟩ := List.mem_map.mp hp
    exact makes_congr ((hmark.each e he).makes (liesIn_writesAll f.script w hw) hu) howner hname

theorem foldAll_entries (hs : s.Sound) (fs : List Fragment) (h : (s.foldAll fs).2.Has x v a) :
    s.Has x v a ∨ ∃ f ∈ fs, f.Makes v a := by
  induction fs generalizing s with
  | nil => exact .inl h
  | cons f fs ih =>
    rcases ih ((fold_changes hs f).sound hs) h with hold | ⟨g, hg, hmakes⟩
    · refine (fold_entries hs f hold).imp_right fun hmakes => ?_
      exact ⟨f, List.mem_cons_self, hmakes⟩
    · exact .inr ⟨g, List.mem_cons_of_mem _ hg, hmakes⟩

/-- An assignment that is left when a file is dropped belongs to another one. -/
theorem removeOrigin_entries {file : FileId} (h : (s.removeOrigin file).Has x v a) :
    a.origin ≠ file ∧ s.Has x v a := by
  obtain ⟨u, hu, ha, howner, hname⟩ := h
  rw [get?_removeOrigin] at hu
  obtain ⟨w, hw, rfl⟩ := Option.map_eq_some_iff.mp hu
  obtain ⟨ha, horigin⟩ := List.mem_filter.mp ha
  exact ⟨bne_iff_ne.mp horigin, w, hw, ha, howner, hname⟩

/-- An assignment after the scripts of a file were replaced belongs to another file and was there
before, or one of the new scripts makes it. -/
theorem replace_entries (hs : s.Sound) {file : FileId} {fs : List Fragment}
    (h : (s.replace file fs).2.Has x v a) :
    (a.origin ≠ file ∧ s.Has x v a) ∨ ∃ f ∈ fs, f.Makes v a :=
  (foldAll_entries (hs.removeOrigin file) fs h).imp_left removeOrigin_entries

end Store

end Storyline.Variables
