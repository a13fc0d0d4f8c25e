import Storyline.Proofs.Variables.Targets

/-!
# Reading leaves no trace

An expression alters a variable by itself if it assigns, counts up or down, or calls a method that
only arrays or only maps have.  Where nothing does, at any depth, nothing is written to
(`writes_eq_nil`).  A fold tells by the ids it gives whether the script writes to a place at all,
and if there are none, nothing about the store is different: no variable, no object and no
assignment is made (`fold_eq_iff`).
-/

namespace Storyline.Script.Expr

open Variables (arrayMethods mapMethods)

/-! ## Expressions that only read -/

/-- Whether calling an expression calls one of the methods that show what their receiver is. -/
def isKnownMethod (callee : Expr) : Bool :=
  match callee.unparen with
  | .member _ _ name _ => (arrayMethods ++ mapMethods).contains name
  | _ => false

/-- Whether an expression alters a variable by itself: it assigns, counts up or down, or calls a
known method.  Behind its operand no other operator stands than those that count. -/
def alters : Expr → Bool
  | .binary _ op _ _ => op.isAssign
  | .unary _ op _ => op = .symbol .plusPlus || op = .symbol .minusMinus
  | .trailing .. => true
  | .call _ callee _ => callee.isKnownMethod
  | _ => false

/-- Whether neither an expression nor one inside it, at any depth, alters a variable. -/
def OnlyReads (e : Expr) : Prop := ∀ t : Expr, t.Occurs e → t.alters = false

theorem onlyReads_iff {e : Expr} :
    e.OnlyReads ↔ e.alters = false ∧ ∀ c ∈ e.children, c.OnlyReads := by
  constructor
  · exact fun h => ⟨h e .refl, fun c hc t ht => h t (.head hc ht)⟩
  · rintro ⟨he, hchildren⟩ t ht
    rcases Relation.ReflTransGen.cases_head ht with rfl | ⟨c, hc, hoccurs⟩
    · exact he
    · exact hchildren c hc t hoccurs

theorem onlyReads_missing : missing.OnlyReads := by
  rw [onlyReads_iff]
  exact ⟨rfl, nofun⟩

/-- It makes no difference that missing parts are left out of the children. -/
theorem onlyReads_filter_isPresent {xs : List Expr} :
    (∀ c ∈ xs.filter isPresent, c.OnlyReads) ↔ ∀ c ∈ xs, c.OnlyReads := by
  refine ⟨fun h c hc => ?_, fun h c hc => h c (List.mem_of_mem_filter hc)⟩
  cases hpresent : c.isPresent with
  | true => exact h c (List.mem_filter.mpr ⟨hc, hpresent⟩)
  | false =>
    cases c with
    | missing => exact onlyReads_missing
    | _ => cases hpresent

mutual

/-- Whether an expression only reads, by its parts. -/
def onlyReads : Expr → Bool
  | .literal .. | .identifier .. | .missing => true
  | .group _ x | .member _ x _ _ => onlyReads x
  | .index _ base i => onlyReads base && onlyReads i
  | e@(.binary _ _ left right) => !e.alters && (onlyReads left && onlyReads right)
  | e@(.unary _ _ x) | e@(.trailing _ _ x) => !e.alters && onlyReads x
  | e@(.call _ callee args) => !e.alters && (onlyReads callee && onlyReadsAll args)
  | .array _ xs => onlyReadsAll xs
  | .construct _ callee args _ => onlyReads callee && onlyReadsAll args
  | .ternary _ cond yes no => onlyReads cond && (onlyReads yes && onlyReads no)
  | .template _ parts _ => onlyReadsParts parts

/-- Whether all expressions only read. -/
def onlyReadsAll : List Expr → Bool
  | [] => true
  | x :: xs => onlyReads x && onlyReadsAll xs

/-- Whether all substitutions of a template only read. -/
def onlyReadsParts : List (Bytes × Expr) → Bool
  | [] => true
  | (_, x) :: rest => onlyReads x && onlyReadsParts rest

end

mutual

-- By induction on the expression: the children of a node are the parts that the computation asks.
theorem onlyReads_eq_true_iff : (e : Expr) → (e.onlyReads = true ↔ e.OnlyReads)
  | .literal .. | .identifier .. | .missing => by
    rw [onlyReads_iff]
    exact ⟨fun _ => ⟨rfl, nofun⟩, fun _ => rfl⟩
  | .group _ x | .member _ x _ _ => by
    rw [onlyReads_iff, children, onlyReads_filter_isPresent, onlyReads, onlyReads_eq_true_iff x]
    simp [alters]
  | .index _ base i => by
    rw [onlyReads_iff, children, onlyReads_filter_isPresent, onlyReads, Bool.and_eq_true,
      onlyReads_eq_true_iff base, onlyReads_eq_true_iff i]
    simp [alters]
  | .binary _ _ left right => by
    rw [onlyReads_iff, children, onlyReads_filter_isPresent, onlyReads, Bool.and_eq_true,
      Bool.and_eq_true, onlyReads_eq_true_iff left, onlyReads_eq_true_iff right]
    simp
  | .unary _ _ x | .trailing _ _ x => by
    rw [onlyReads_iff, children, onlyReads_filter_isPresent, onlyReads, Bool.and_eq_true,
      onlyReads_eq_true_iff x]
    simp
  | .call _ callee args => by
    rw [onlyReads_iff, children, onlyReads_filter_isPresent, onlyReads, Bool.and_eq_true,
      Bool.and_eq_true, onlyReads_eq_true_iff callee, onlyReadsAll_eq_true_iff args]
    simp
  | .array _ xs => by
    rw [onlyReads_iff, children, onlyReads_filter_isPresent, onlyReads,
      onlyReadsAll_eq_true_iff xs]
    simp [alters]
  | .construct _ callee args _ => by
    rw [onlyReads_iff, children, onlyReads_filter_isPresent, onlyReads, Bool.and_eq_true,
      onlyReads_eq_true_iff callee, onlyReadsAll_eq_true_iff args]
    simp [alters]
  | .ternary _ cond yes no => by
    rw [onlyReads_iff, children, onlyReads_filter_isPresent, onlyReads, Bool.and_eq_true,
      Bool.and_eq_true, onlyReads_eq_true_iff cond, onlyReads_eq_true_iff yes,
      onlyReads_eq_true_iff no]
    simp [alters]
  | .template _ parts _ => by
    rw [onlyReads_iff, children, onlyReads_filter_isPresent, onlyReads,
      onlyReadsParts_eq_true_iff parts]
    simp [alters]

theorem onlyReadsAll_eq_true_iff : (xs : List Expr) →
    (onlyReadsAll xs = true ↔ ∀ x ∈ xs, x.OnlyReads)
  | [] => by simp [onlyReadsAll]
  | x :: xs => by
    rw [onlyReadsAll, Bool.and_eq_true, onlyReads_eq_true_iff x, onlyReadsAll_eq_true_iff xs,
      List.forall_mem_cons]

theorem onlyReadsParts_eq_true_iff : (ps : List (Bytes × Expr)) →
    (onlyReadsParts ps = true ↔ ∀ x ∈ ps.map Prod.snd, x.OnlyReads)
  | [] => by simp [onlyReadsParts]
  | (_, x) :: ps => by
    rw [onlyReadsParts, Bool.and_eq_true, onlyReads_eq_true_iff x, onlyReadsParts_eq_true_iff ps,
      List.map_cons, List.forall_mem_cons]

end

instance (e : Expr) : Decidable e.OnlyReads := decidable_of_iff _ (onlyReads_eq_true_iff e)

end Storyline.Script.Expr

namespace Storyline.Variables

open Script (Expr)
open Script.Expr (onlyReads_iff onlyReads_filter_isPresent)

/-! ## Nothing is written to -/

theorem receiverKind?_of_isKnownMethod {callee : Expr} (h : callee.isKnownMethod = false) :
    receiverKind? callee = none := by
  rw [Expr.isKnownMethod] at h
  rw [receiverKind?]
  split
  · next name _ hname =>
    simp only [hname, List.contains_append, Bool.or_eq_false_iff] at h
    rw [h.1, h.2]
    rfl
  · rfl

mutual

/-- An expression that only reads writes to nothing. -/
theorem writes_eq_nil : (e : Expr) → e.onlyReads = true → writes e = []
  | .literal .., _ | .identifier .., _ | .missing, _ => rfl
  | .group _ x, h => writes_eq_nil x h
  | .member _ base _ _, h => writes_eq_nil base h
  | .index _ base i, h => by
    obtain ⟨hbase, hi⟩ := Bool.and_eq_true_iff.mp h
    rw [writes, writes_eq_nil base hbase, writes_eq_nil i hi, List.append_nil]
  | .binary _ op left right, h => by
    obtain ⟨hop, h⟩ := Bool.and_eq_true_iff.mp h
    obtain ⟨hleft, hright⟩ := Bool.and_eq_true_iff.mp h
    have hop : ¬ op.isAssign = true := by simpa [Expr.alters] using hop
    rw [writes, if_neg hop, writes_eq_nil left hleft, writes_eq_nil right hright, List.append_nil]
  | .unary _ op x, h => by
    obtain ⟨hop, hx⟩ := Bool.and_eq_true_iff.mp h
    have hop : ¬ (op = .symbol .plusPlus ∨ op = .symbol .minusMinus) := by
      simpa [Expr.alters] using hop
    rw [writes, if_neg hop, writes_eq_nil x hx, List.append_nil]
  | .trailing .., h => by simp [Expr.onlyReads, Expr.alters] at h
  | .call _ callee args, h => by
    obtain ⟨hknown, h⟩ := Bool.and_eq_true_iff.mp h
    obtain ⟨hcallee, hargs⟩ := Bool.and_eq_true_iff.mp h
    have hknown : callee.isKnownMethod = false := by simpa [Expr.alters] using hknown
    rw [writes, receiverKind?_of_isKnownMethod hknown, writes_eq_nil callee hcallee,
      writesAll_eq_nil args hargs]
    rfl
  | .array _ xs, h => writesAll_eq_nil xs h
  | .construct _ _ args _, h => writesAll_eq_nil args (Bool.and_eq_true_iff.mp h).2
  | .ternary _ cond yes no, h => by
    obtain ⟨hcond, h⟩ := Bool.and_eq_true_iff.mp h
    obtain ⟨hyes, hno⟩ := Bool.and_eq_true_iff.mp h
    rw [writes, writes_eq_nil cond hcond, writes_eq_nil yes hyes, writes_eq_nil no hno]
    rfl
  | .template _ parts _, h => writesParts_eq_nil parts h

theorem writesAll_eq_nil : (xs : List Expr) → Expr.onlyReadsAll xs = true → writesAll xs = []
  | [], _ => rfl
  | x :: xs, h => by
    obtain ⟨hx, hxs⟩ := Bool.and_eq_true_iff.mp h
    rw [writesAll, writes_eq_nil x hx, writesAll_eq_nil xs hxs, List.append_nil]

theorem writesParts_eq_nil : (ps : List (Bytes × Expr)) → Expr.onlyReadsParts ps = true →
    writesParts ps = []
  | [], _ => rfl
  | (_, x) :: ps, h => by
    obtain ⟨hx, hps⟩ := Bool.and_eq_true_iff.mp h
    rw [writesParts, writes_eq_nil x hx, writesParts_eq_nil ps hps, List.append_nil]

end

/-! ## Nothing is changed -/

/-- A write touches a variable. -/
theorem touched_perform (f : Fragment) (s : FoldState) (w : Write) :
    (perform f s w).touched.toList ≠ [] := by
  rw [perform_run]
  dsimp only
  generalize (Fold.resolve f _ w.root.span w.steps).run _ = r
  show (if r.2.touched.contains r.1.1 then r.2.touched else r.2.touched.push r.1.1).toList ≠ []
  split
  · next hcontains =>
    exact List.ne_nil_of_mem (Array.mem_toList_iff.mpr (Array.contains_iff_mem.mp hcontains))
  · simp

/-- Writes touch a variable if there are any. -/
theorem touched_performAll (f : Fragment) (s : FoldState) {ws : List Write} (hne : ws ≠ []) :
    (performAll f s ws).touched.toList ≠ [] := by
  obtain ⟨ws, w, rfl⟩ := (List.eq_nil_or_concat ws).resolve_left hne
  rw [List.concat_eq_append, performAll_append]
  exact touched_perform f _ w

namespace Store

variable {s : Store}

/-- A fold that gives no ids has changed nothing, and it gives none exactly if the script writes to
nothing. -/
theorem fold_eq_iff (hs : s.Sound) (f : Fragment) :
    ((s.fold f).1 = [] ↔ writesAll f.script = []) ∧ ((s.fold f).1 = [] → s.fold f = ([], s)) := by
  obtain ⟨ws, hrun, hplaces, -⟩ := walkAll_performs f f.script { store := s } hs
  have hfold : s.fold f = ((performAll f { store := s } ws).touched.toList,
      (performAll f { store := s } ws).store) := by
    rw [← hrun]
    rfl
  have hnil : writesAll f.script = [] ↔ ws = [] := by
    rw [← List.map_eq_nil_iff (f := Write.place), ← hplaces, List.map_eq_nil_iff]
  have htouched : (s.fold f).1 = [] → ws = [] := by
    rw [hfold]
    exact fun h => by_contra fun hne => touched_performAll f _ hne h
  have huntouched : ws = [] → s.fold f = ([], s) := by
    rintro rfl
    exact hfold
  exact ⟨⟨fun h => hnil.mpr (htouched h), fun h => by rw [huntouched (hnil.mp h)]⟩,
    fun h => huntouched (htouched h)⟩

/-- Reading allocates nothing: folding a script without an assignment, a `++` or `--`, and a call of
a method that only arrays or only maps have gives no ids and leaves the store as it was. -/
theorem fold_of_onlyReads (ops : List Operation) (f : Fragment)
    (h : ∀ e ∈ f.script, e.OnlyReads) : (after ops).fold f = ([], after ops) := by
  obtain ⟨hwrites, hsame⟩ := fold_eq_iff (sound_after ops) f
  have hreads := (Script.Expr.onlyReadsAll_eq_true_iff f.script).mpr h
  exact hsame (hwrites.mpr (writesAll_eq_nil f.script hreads))

/-- Properties on the way to others, calls, constructors and templates are looked through, and those
that no script made before are not made now. -/
theorem fold_of_onlyReads_nested :
    let made : Fragment := ⟨1, 0, (Script.parse "q.r = \"s\"" 1 0).script⟩
    let f : Fragment := ⟨2, 10,
      (Script.parse "q.r[t.u](`x$\x7bq.v\x7d`).y ? [z[1]] : new (Map)(a.b) + -c.push" 2 0).script⟩
    (∀ e ∈ f.script, e.OnlyReads) ∧ f.script.length = 1 ∧
      (after [.fold made]).fold f = ([], after [.fold made]) := by
  intro made f
  have hreads : ∀ e ∈ f.script, e.OnlyReads := by decide +kernel
  exact ⟨hreads, by decide +kernel, fold_of_onlyReads [.fold made] f hreads⟩

end Store

end Storyline.Variables
