import Mathlib.Data.List.Nodup
import Mathlib.Logic.Relation
import Storyline.Proofs.Script.Leaves
import Storyline.Proofs.Variables.Trails

/-!
# Every assignment of a script is folded once, outside of constructors

A script assigns to a variable wherever an assignment, `++` or `--` has its name as operand, at any
depth.  Folding the script adds exactly one assignment at that name to the variable, unless the
expression stands in what a `new` constructs: there the fold does not look, and nothing is added
(`fold_assigns_once`).

Names stand for no more than one write each: the roots of the places that an expression writes to,
the root of the place that it stands for, and the leaves in what is constructed are different leaves
of the expression (`count_roots`).
-/

namespace Storyline.Script.Expr

open Relation (ReflTransGen)

/-! ## Inside an expression -/

/-- Whether an expression stands in what a `new` inside another one constructs. -/
def InConstructed (t e : Expr) : Prop :=
  ∃ span callee args hasArgs, (construct span callee args hasArgs).Occurs e ∧ t.Occurs callee

/-- What an assignment assigns to, or `++` and `--` count. -/
def assigned? : Expr → Option Expr
  | .binary _ op left _ => if op.isAssign then some left else none
  | .unary _ op x | .trailing _ op x =>
    if op = .symbol .plusPlus ∨ op = .symbol .minusMinus then some x else none
  | _ => none

/-- Whether an expression assigns to the variable whose name stands at a span; there may be
parentheses around the name. -/
def Assigns (e : Expr) (name : Bytes) (span : Span) : Prop :=
  ∃ x, e.assigned? = some x ∧ x.unparen = .identifier span name

/-- The name that an expression assigns to, and where it stands. -/
def assignedName? (e : Expr) : Option Leaf :=
  e.assigned?.bind fun x => match x.unparen with
    | .identifier span name => some ⟨name, span⟩
    | _ => none

theorem assignedName?_eq_some_iff {e : Expr} {name : Bytes} {span : Span} :
    e.assignedName? = some ⟨name, span⟩ ↔ e.Assigns name span := by
  rw [assignedName?, Option.bind_eq_some_iff]
  refine exists_congr fun x => and_congr_right fun _ => ?_
  split
  · next h => simp [h, and_comm]
  · next h => exact iff_of_false (by simp) (h span name)

instance (e : Expr) (name : Bytes) (span : Span) : Decidable (e.Assigns name span) :=
  decidable_of_iff _ assignedName?_eq_some_iff

theorem leaves_unparen : (e : Expr) → e.unparen.leaves = e.leaves
  | .group _ x => by
    rw [unparen, leaves]
    exact leaves_unparen x
  | .literal .. | .identifier .. | .binary .. | .unary .. | .trailing .. | .member .. | .index ..
  | .call .. | .array .. | .construct .. | .ternary .. | .template .. | .missing => rfl

theorem mem_leavesOf {xs : List Expr} {y : Leaf} : y ∈ leavesOf xs ↔ ∃ x ∈ xs, y ∈ x.leaves := by
  induction xs with
  | nil => simp [leavesOf]
  | cons x xs ih => simp [leavesOf, ih]

theorem mem_leavesIn {ps : List (Bytes × Expr)} {y : Leaf} :
    y ∈ leavesIn ps ↔ ∃ x ∈ ps.map Prod.snd, y ∈ x.leaves := by
  induction ps with
  | nil => simp [leavesIn]
  | cons p ps ih => simp [leavesIn, ih]

/-- The leaves of a part are leaves of the whole. -/
theorem leaves_subset_of_child {c e : Expr} (h : c ∈ e.children) : c.leaves ⊆ e.leaves := by
  have hc := List.mem_of_mem_filter h
  intro y hy
  cases e with
  | literal | identifier | missing => simp at hc
  | binary | index =>
    simp only [List.mem_cons, List.not_mem_nil, or_false] at hc
    rcases hc with rfl | rfl <;> simp [leaves, hy]
  | unary | trailing | member | group =>
    obtain rfl := List.mem_singleton.mp hc
    simp [leaves, hy]
  | call | construct =>
    rcases List.mem_cons.mp hc with rfl | hc
    · simp [leaves, hy]
    · exact List.mem_append_right _ (mem_leavesOf.mpr ⟨c, hc, hy⟩)
  | array => exact mem_leavesOf.mpr ⟨c, hc, hy⟩
  | ternary =>
    simp only [List.mem_cons, List.not_mem_nil, or_false] at hc
    rcases hc with rfl | rfl | rfl <;> simp [leaves, hy]
  | template => exact mem_leavesIn.mpr ⟨c, hc, hy⟩

theorem Occurs.leaves_subset {t e : Expr} (h : t.Occurs e) : t.leaves ⊆ e.leaves := by
  induction h with
  | refl => exact List.Subset.refl _
  | tail _ hc ih => exact List.Subset.trans (leaves_subset_of_child hc) ih

/-- The name that is assigned to is a leaf. -/
theorem Assigns.mem_leaves {e : Expr} {name : Bytes} {span : Span} (h : e.Assigns name span) :
    ⟨name, span⟩ ∈ e.leaves := by
  obtain ⟨x, hx, hname⟩ := h
  have hleaves : x.leaves = [⟨name, span⟩] := by
    rw [← leaves_unparen, hname]
    rfl
  cases e with
  | binary span op left right =>
    simp only [assigned?] at hx
    split at hx
    · cases hx
      simp [leaves, hleaves]
    · cases hx
  | unary span op y =>
    simp only [assigned?] at hx
    split at hx
    · cases hx
      simp [leaves, hleaves]
    · cases hx
  | trailing span op y =>
    simp only [assigned?] at hx
    split at hx
    · cases hx
      simp [leaves, hleaves]
    · cases hx
  | literal | identifier | member | index | call | array | construct | ternary | template | group
  | missing => simp [assigned?] at hx

/-! ## What is constructed -/

mutual

/-- The leaves in what is constructed, at any depth. -/
def constructedLeaves : Expr → List Leaf
  | .literal .. | .identifier .. | .missing => []
  | .unary _ _ x | .trailing _ _ x | .member _ x _ _ | .group _ x => x.constructedLeaves
  | .binary _ _ left right => left.constructedLeaves ++ right.constructedLeaves
  | .index _ base i => base.constructedLeaves ++ i.constructedLeaves
  | .call _ callee args => callee.constructedLeaves ++ constructedLeavesOf args
  | .array _ xs => constructedLeavesOf xs
  | .construct _ callee args _ => callee.leaves ++ constructedLeavesOf args
  | .ternary _ cond yes no =>
    cond.constructedLeaves ++ (yes.constructedLeaves ++ no.constructedLeaves)
  | .template _ parts _ => constructedLeavesIn parts

/-- The leaves in what is constructed inside expressions. -/
def constructedLeavesOf : List Expr → List Leaf
  | [] => []
  | x :: xs => x.constructedLeaves ++ constructedLeavesOf xs

/-- The leaves in what is constructed inside the substitutions of a template. -/
def constructedLeavesIn : List (Bytes × Expr) → List Leaf
  | [] => []
  | (_, x) :: rest => x.constructedLeaves ++ constructedLeavesIn rest

end

theorem mem_constructedLeavesOf {xs : List Expr} {y : Leaf} :
    y ∈ constructedLeavesOf xs ↔ ∃ x ∈ xs, y ∈ x.constructedLeaves := by
  induction xs with
  | nil => simp [constructedLeavesOf]
  | cons x xs ih => simp [constructedLeavesOf, ih]

theorem mem_constructedLeavesIn {ps : List (Bytes × Expr)} {y : Leaf} :
    y ∈ constructedLeavesIn ps ↔ ∃ x ∈ ps.map Prod.snd, y ∈ x.constructedLeaves := by
  induction ps with
  | nil => simp [constructedLeavesIn]
  | cons p ps ih => simp [constructedLeavesIn, ih]

end Storyline.Script.Expr

namespace Storyline.Variables

open Script (Expr TokenKind Leaf)
open Script.Expr (leaves leavesOf leavesIn constructedLeaves constructedLeavesOf constructedLeavesIn)

/-! ## Roots -/

/-- The leaf at the root of a place. -/
def Place.leaf (p : Place) : Leaf := ⟨p.1.name, p.1.span⟩

/-- The roots that writes start from. -/
def roots (ws : List Write) : List Leaf := ws.map fun w => w.place.leaf

/-- The root of the place that an expression stands for. -/
def rootOf (e : Expr) : List Leaf := (place? e).toList.map Place.leaf

@[simp] theorem roots_nil : roots [] = [] := rfl

@[simp] theorem roots_append (ws ws' : List Write) : roots (ws ++ ws') = roots ws ++ roots ws' := by
  simp [roots]

@[simp] theorem roots_writeTo (e : Expr) (k : Kind) : roots (writeTo (place? e) k) = rootOf e := by
  cases h : place? e <;> simp [roots, rootOf, writeTo, h, Write.place, Place.leaf]

@[simp] theorem roots_writeTo_owner (e : Expr) (k : Kind) :
    roots (writeTo ((place? e).map fun p => (p.1, p.2.dropLast)) k) = rootOf e := by
  cases h : place? e <;> simp [roots, rootOf, writeTo, h, Write.place, Place.leaf]

theorem rootOf_member (span : Span) (base : Expr) (name : Bytes) (nameSpan : Span) :
    rootOf (.member span base name nameSpan) = rootOf base := by
  cases h : place? base <;> simp [rootOf, place?, h, Place.leaf]

theorem count_rootOf_index (y : Leaf) (span : Span) (base i : Expr) :
    (rootOf (.index span base i)).count y ≤ (rootOf base).count y := by
  cases hl : literalStep? i with
  | none => simp [rootOf, place?, hl]
  | some step => cases h : place? base <;> simp [rootOf, place?, hl, h, Place.leaf]

mutual

/-- The roots of what an expression writes to, the root of what it stands for, and the leaves of
what is constructed in it are different leaves of it. -/
-- By induction on the expression: each write has its root at a name of the expression, and no name
-- is the root of two writes.  What a construction is built from is counted apart, for it is not
-- walked.
theorem count_roots (y : Leaf) : (e : Expr) →
    (roots (writes e)).count y + (rootOf e).count y + e.constructedLeaves.count y
      ≤ e.leaves.count y
  | .literal .. => by simp [writes, rootOf, place?, constructedLeaves]
  | .identifier .. => by simp [writes, rootOf, place?, constructedLeaves, leaves, Place.leaf]
  | .missing => by simp [writes, rootOf, place?, constructedLeaves]
  | .group _ x => count_roots y x
  | .member span base name nameSpan => by
    have hb := count_roots y base
    simp only [writes, rootOf_member, constructedLeaves, leaves, List.count_append]
    omega
  | .index span base i => by
    have hb := count_roots y base
    have hi := count_roots y i
    have hroot := count_rootOf_index y span base i
    simp only [writes, roots_append, constructedLeaves, leaves, List.count_append]
    omega
  | .binary span op left right => by
    have hl := count_roots y left
    have hr := count_roots y right
    have hroot : rootOf (.binary span op left right) = [] := rfl
    simp only [writes, constructedLeaves, leaves, List.count_append, hroot, List.count_nil]
    split
    · simp only [roots_append, roots_writeTo, List.count_append]
      omega
    · simp only [roots_append, List.count_append]
      omega
  | .unary span op x => by
    have hx := count_roots y x
    have hroot : rootOf (.unary span op x) = [] := rfl
    simp only [writes, constructedLeaves, leaves, roots_append, List.count_append, hroot,
      List.count_nil]
    split
    · simp only [roots_writeTo]
      omega
    · simp only [roots_nil, List.count_nil]
      omega
  | .trailing span op x => by
    have hx := count_roots y x
    have hroot : rootOf (.trailing span op x) = [] := rfl
    simp only [writes, constructedLeaves, leaves, roots_append, roots_writeTo, List.count_append,
      hroot, List.count_nil]
    omega
  | .call span callee args => by
    have hc := count_roots y callee
    have ha := count_rootsAll y args
    have hroot : rootOf (.call span callee args) = [] := rfl
    simp only [writes, constructedLeaves, leaves, roots_append, List.count_append, hroot,
      List.count_nil]
    split
    · simp only [roots_writeTo_owner]
      omega
    · simp only [roots_nil, List.count_nil]
      omega
  | .array _ xs => by
    have hx := count_rootsAll y xs
    simp only [rootOf, place?, Option.toList_none, List.map_nil, List.count_nil, writes,
      constructedLeaves, leaves]
    omega
  | .construct _ callee args _ => by
    have ha := count_rootsAll y args
    simp only [rootOf, place?, Option.toList_none, List.map_nil, List.count_nil, writes,
      constructedLeaves, leaves, List.count_append]
    omega
  | .ternary span cond yes no => by
    have hc := count_roots y cond
    have hy := count_roots y yes
    have hn := count_roots y no
    have hroot : rootOf (.ternary span cond yes no) = [] := rfl
    simp only [writes, constructedLeaves, leaves, roots_append, List.count_append, hroot,
      List.count_nil]
    omega
  | .template _ parts _ => by
    have hp := count_rootsParts y parts
    simp only [rootOf, place?, Option.toList_none, List.map_nil, List.count_nil, writes,
      constructedLeaves, leaves]
    omega

theorem count_rootsAll (y : Leaf) : (xs : List Expr) →
    (roots (writesAll xs)).count y + (constructedLeavesOf xs).count y ≤ (leavesOf xs).count y
  | [] => by simp [writesAll, constructedLeavesOf]
  | x :: xs => by
    have hx := count_roots y x
    have hxs := count_rootsAll y xs
    simp only [writesAll, constructedLeavesOf, leavesOf, roots_append, List.count_append]
    omega

theorem count_rootsParts (y : Leaf) : (ps : List (Bytes × Expr)) →
    (roots (writesParts ps)).count y + (constructedLeavesIn ps).count y ≤ (leavesIn ps).count y
  | [] => by simp [writesParts, constructedLeavesIn]
  | (_, x) :: ps => by
    have hx := count_roots y x
    have hps := count_rootsParts y ps
    simp only [writesParts, constructedLeavesIn, leavesIn, roots_append, List.count_append]
    omega

end

/-! ## Names that are assigned to -/

theorem mem_writesAll {xs : List Expr} {w : Write} : w ∈ writesAll xs ↔ ∃ x ∈ xs, w ∈ writes x := by
  induction xs with
  | nil => simp [writesAll]
  | cons x xs ih => simp [writesAll, ih]

theorem mem_writesParts {ps : List (Bytes × Expr)} {w : Write} :
    w ∈ writesParts ps ↔ ∃ x ∈ ps.map Prod.snd, w ∈ writes x := by
  induction ps with
  | nil => simp [writesParts]
  | cons p ps ih => simp [writesParts, ih]

/-- What a part writes the whole writes, unless the part is what the whole constructs. -/
theorem writes_subset_of_child {c e : Expr} (h : c ∈ e.children) :
    writes c ⊆ writes e ∨ ∃ span args hasArgs, e = .construct span c args hasArgs := by
  have hc := List.mem_of_mem_filter h
  cases e with
  | literal | identifier | missing => simp at hc
  -- only the callee of a construction is passed over
  | construct span callee args hasArgs =>
    rcases List.mem_cons.mp hc with rfl | hc
    · exact .inr ⟨span, args, hasArgs, rfl⟩
    · exact .inl fun w hw => mem_writesAll.mpr ⟨c, hc, hw⟩
  | binary span op left right =>
    refine .inl fun w hw => ?_
    simp only [List.mem_cons, List.not_mem_nil, or_false] at hc
    simp only [writes]
    rcases hc with rfl | rfl <;> split <;> simp [hw]
  | index =>
    refine .inl fun w hw => ?_
    simp only [List.mem_cons, List.not_mem_nil, or_false] at hc
    rcases hc with rfl | rfl <;> simp [writes, hw]
  | unary | trailing | member | group =>
    refine .inl fun w hw => ?_
    obtain rfl := List.mem_singleton.mp hc
    simp [writes, hw]
  | call span callee args =>
    refine .inl fun w hw => ?_
    rcases List.mem_cons.mp hc with rfl | hc
    · simp [writes, hw]
    · simp only [writes, List.mem_append]
      exact .inl (.inl (mem_writesAll.mpr ⟨c, hc, hw⟩))
  | array => exact .inl fun w hw => mem_writesAll.mpr ⟨c, hc, hw⟩
  | ternary =>
    refine .inl fun w hw => ?_
    simp only [List.mem_cons, List.not_mem_nil, or_false] at hc
    rcases hc with rfl | rfl | rfl <;> simp [writes, hw]
  | template => exact .inl fun w hw => mem_writesParts.mpr ⟨c, hc, hw⟩

theorem constructedLeaves_subset_leaves (e : Expr) : e.constructedLeaves ⊆ e.leaves := by
  intro y hy
  have hcount := count_roots y e
  have hpos := List.count_pos_iff.mpr hy
  exact List.count_pos_iff.mp (by omega)

theorem constructedLeaves_subset_of_child {c e : Expr} (h : c ∈ e.children) :
    c.constructedLeaves ⊆ e.constructedLeaves := by
  have hc := List.mem_of_mem_filter h
  intro y hy
  cases e with
  | literal | identifier | missing => simp at hc
  | binary | index =>
    simp only [List.mem_cons, List.not_mem_nil, or_false] at hc
    rcases hc with rfl | rfl <;> simp [constructedLeaves, hy]
  | unary | trailing | member | group =>
    obtain rfl := List.mem_singleton.mp hc
    simp [constructedLeaves, hy]
  | call =>
    rcases List.mem_cons.mp hc with rfl | hc
    · simp [constructedLeaves, hy]
    · exact List.mem_append_right _ (Script.Expr.mem_constructedLeavesOf.mpr ⟨c, hc, hy⟩)
  | construct =>
    rcases List.mem_cons.mp hc with rfl | hc
    · exact List.mem_append_left _ (constructedLeaves_subset_leaves c hy)
    · exact List.mem_append_right _ (Script.Expr.mem_constructedLeavesOf.mpr ⟨c, hc, hy⟩)
  | array => exact Script.Expr.mem_constructedLeavesOf.mpr ⟨c, hc, hy⟩
  | ternary =>
    simp only [List.mem_cons, List.not_mem_nil, or_false] at hc
    rcases hc with rfl | rfl | rfl <;> simp [constructedLeaves, hy]
  | template => exact Script.Expr.mem_constructedLeavesIn.mpr ⟨c, hc, hy⟩

theorem place?_of_unparen {span : Span} {name : Bytes} : (x : Expr) →
    x.unparen = .identifier span name → place? x = some (⟨name, span⟩, [])
  | .group _ x, h => place?_of_unparen x h
  | .identifier .., h => by
    cases h
    rfl
  | .literal .., h | .binary .., h | .unary .., h | .trailing .., h | .member .., h | .index .., h
  | .call .., h | .array .., h | .construct .., h | .ternary .., h | .template .., h
  | .missing, h => by cases h

/-- An assignment to a name is one of the writes. -/
theorem mem_writes_of_assigns {e : Expr} {name : Bytes} {span : Span} (h : e.Assigns name span) :
    (⟨name, span⟩, []) ∈ (writes e).map Write.place := by
  obtain ⟨x, hx, hname⟩ := h
  have hplace := place?_of_unparen x hname
  have hwrite (k : Kind) : (⟨name, span⟩, []) ∈ (writeTo (place? x) k).map Write.place := by
    rw [places_writeTo, hplace]
    exact List.mem_singleton_self _
  -- a bare name stands as a place of its own, whichever operator assigns it
  cases e with
  | binary span op left right =>
    simp only [Expr.assigned?] at hx
    split at hx
    · next hop =>
      cases hx
      simp only [writes, hop, if_true, List.map_append]
      exact List.mem_append_right _ (hwrite _)
    · cases hx
  | unary span op y =>
    simp only [Expr.assigned?] at hx
    split at hx
    · next hop =>
      cases hx
      simp only [writes, hop, if_true, List.map_append]
      exact List.mem_append_right _ (hwrite _)
    · cases hx
  | trailing span op y =>
    simp only [Expr.assigned?] at hx
    split at hx
    · cases hx
      simp only [writes, List.map_append]
      exact List.mem_append_right _ (hwrite _)
    · cases hx
  | literal | identifier | member | index | call | array | construct | ternary | template | group
  | missing => simp [Expr.assigned?] at hx

section Occurring

variable {t e : Expr} {name : Bytes} {span : Span}

/-- An assignment to a name at any depth is one of the writes, or stands in what is constructed. -/
theorem mem_writes_of_occurs (h : t.Occurs e) (ht : t.Assigns name span) :
    (⟨name, span⟩, []) ∈ (writes e).map Write.place ∨ t.InConstructed e := by
  induction h using Relation.ReflTransGen.head_induction_on with
  | refl => exact .inl (mem_writes_of_assigns ht)
  | @head e c hc hoccurs ih =>
    rcases ih with hwrite | ⟨span, callee, args, hasArgs, hnew, hcallee⟩
    · rcases writes_subset_of_child hc with hsub | ⟨span, args, hasArgs, rfl⟩
      · exact .inl (List.map_subset Write.place hsub hwrite)
      · exact .inr ⟨span, c, args, hasArgs, .refl, hoccurs⟩
    · exact .inr ⟨span, callee, args, hasArgs, .head hc hnew, hcallee⟩

/-- A name that is assigned to in what is constructed is a leaf there. -/
theorem mem_constructedLeaves_of_inConstructed (h : t.InConstructed e) (ht : t.Assigns name span) :
    ⟨name, span⟩ ∈ e.constructedLeaves := by
  obtain ⟨span, callee, args, hasArgs, hnew, hcallee⟩ := h
  have hleaf := hcallee.leaves_subset ht.mem_leaves
  induction hnew using Relation.ReflTransGen.head_induction_on with
  | refl => exact List.mem_append_left _ hleaf
  | head hc _ ih => exact constructedLeaves_subset_of_child hc ih

end Occurring

/-! ## Counting assignments -/

namespace Store

/-- The assignments of the global with a name. -/
def globalAssignments (s : Store) (name : Bytes) : List Assignment :=
  ((s.global? name).map s.assignmentsAt).getD []

/-- The assignments of a global are the earlier ones and those of the trail. -/
theorem Trail.globalAssignments {s t : Store} {l : List (VarId × Assignment)} (h : Trail s l t)
    (hs : s.WellFormed) (ht : t.WellFormed) {name : Bytes} {id : VarId}
    (hid : t.global? name = some id) :
    t.globalAssignments name
      = s.globalAssignments name ++ (l.filter fun e => e.1 = id).map (·.2) := by
  have hbefore : s.globalAssignments name = s.assignmentsAt id := by
    cases hold : s.global? name with
    | some old =>
      have hsame : t.find? 0 name = some old := h.toExtends.find? ht hold
      obtain rfl : old = id := Option.some.inj (hsame.symm.trans hid)
      simp [Store.globalAssignments, hold]
    | none =>
      obtain ⟨v, hv, howner, hname⟩ := get?_of_find? hid
      cases hget : s.get? id with
      | none => simp [Store.globalAssignments, hold, assignmentsAt, hget]
      | some u =>
        -- a variable keeps its name, so it was there under this one before
        obtain ⟨v', hv', howner', hname'⟩ := h.vars hget
        obtain rfl : v' = v := Option.some.inj (hv'.symm.trans hv)
        have hfound : s.find? 0 name = some id :=
          hs.find?_eq_some_iff.2 ⟨u, hget, by rw [← howner', howner], by rw [← hname', hname]⟩
        rw [Store.global?] at hold
        rw [hfound] at hold
        cases hold
  rw [hbefore, ← h.assignments]
  simp [Store.globalAssignments, hid]

end Store

open Store (Trail)

section Counting

variable {f : Fragment} {t : Store} {name : Bytes} {span : Span} {id : VarId}

/-- Whether an assignment is one of the variable `id` at a span of a script. -/
def isAt (f : Fragment) (id : VarId) (span : Span) (e : VarId × Assignment) : Bool :=
  e.1 = id && e.2.span = span.shift f.base f.file

/-- Writing to a place assigns to a global at the name of the global in the place only. -/
theorem Place.Marks.countP_eq_zero {p : Place} {l : List (VarId × Assignment)}
    (h : p.Marks f t l) (hid : t.global? name = some id)
    (hinj : p.1.span.shift f.base f.file = span.shift f.base f.file → p.1.span = span)
    (hne : p.leaf ≠ ⟨name, span⟩) : l.countP (isAt f id span) = 0 := by
  obtain ⟨v, hv, howner, hname⟩ := Store.get?_of_find? hid
  rw [List.countP_eq_zero]
  intro e he hat
  simp only [isAt, Bool.and_eq_true, decide_eq_true_eq] at hat
  obtain ⟨-, u, sp, hu, hnames, hspan⟩ := h.each e he
  rw [hat.1] at hu
  obtain rfl : u = v := Option.some.inj (hu.symm.trans hv)
  rcases hnames with ⟨-, hroot, rfl⟩ | ⟨hprop, -⟩
  · have hsame := hinj (hspan.symm.trans hat.2)
    exact hne (by rw [Place.leaf, ← hroot, hname, hsame])
  · exact hprop howner

/-- Writing to a global assigns to it once, at its name. -/
theorem Place.Marks.countP_eq_one {l : List (VarId × Assignment)}
    (h : Place.Marks f t (⟨name, span⟩, []) l) (ht : t.WellFormed) (hid : t.global? name = some id) :
    l.countP (isAt f id span) = 1 := by
  obtain ⟨v, hv, howner, hname⟩ := Store.get?_of_find? hid
  obtain ⟨e, rfl⟩ := List.length_eq_one_iff.mp (h.direct rfl)
  obtain ⟨-, u, sp, hu, hnames, hspan⟩ := h.each e (List.mem_singleton_self e)
  rcases hnames with ⟨huowner, huname, rfl⟩ | ⟨-, step, hstep, -⟩
  · have hsame : e.1 = id :=
      ht.distinct hu hv (huowner.trans howner.symm) (huname.trans hname.symm)
    simp [isAt, hsame, hspan]
  · cases hstep

/-- Where no place starts with a name, nothing is assigned at that name. -/
theorem countP_flatten_eq_zero {ps : List Place} {ls : List (List (VarId × Assignment))}
    (h : List.Forall₂ (Place.Marks f t) ps ls) (hid : t.global? name = some id)
    (hinj : ∀ p ∈ ps, p.1.span.shift f.base f.file = span.shift f.base f.file → p.1.span = span)
    (hcount : (ps.map Place.leaf).count ⟨name, span⟩ = 0) :
    ls.flatten.countP (isAt f id span) = 0 := by
  induction h with
  | nil => rfl
  | @cons p l ps ls hmarks hrest ih =>
    obtain ⟨hp, hps⟩ := List.forall_mem_cons.mp hinj
    rw [List.map_cons, List.count_eq_zero, List.mem_cons, not_or] at hcount
    rw [List.flatten_cons, List.countP_append, hmarks.countP_eq_zero hid hp (Ne.symm hcount.1),
      ih hps (List.count_eq_zero.mpr hcount.2)]

/-- Where one place starts with a name and is the global itself, one assignment is made there. -/
theorem countP_flatten_eq_one {ps : List Place} {ls : List (List (VarId × Assignment))}
    (h : List.Forall₂ (Place.Marks f t) ps ls) (ht : t.WellFormed) (hid : t.global? name = some id)
    (hinj : ∀ p ∈ ps, p.1.span.shift f.base f.file = span.shift f.base f.file → p.1.span = span)
    (hmem : (⟨name, span⟩, []) ∈ ps) (hcount : (ps.map Place.leaf).count ⟨name, span⟩ ≤ 1) :
    ls.flatten.countP (isAt f id span) = 1 := by
  induction h with
  | nil => cases hmem
  | @cons p l ps ls hmarks hrest ih =>
    obtain ⟨hp, hps⟩ := List.forall_mem_cons.mp hinj
    rw [List.map_cons] at hcount
    rw [List.flatten_cons, List.countP_append]
    rcases List.mem_cons.mp hmem with rfl | hmem
    · have hleaf : Place.leaf (⟨name, span⟩, []) = ⟨name, span⟩ := rfl
      rw [hleaf, List.count_cons_self] at hcount
      rw [hmarks.countP_eq_one ht hid, countP_flatten_eq_zero hrest hid hps (by omega)]
    · -- the name starts the other place, so it does not start this one
      have hpos : 0 < (ps.map Place.leaf).count ⟨name, span⟩ :=
        List.count_pos_iff.mpr (List.mem_map.mpr ⟨_, hmem, rfl⟩)
      have hne : p.leaf ≠ ⟨name, span⟩ := by
        intro heq
        rw [heq, List.count_cons_self] at hcount
        omega
      rw [List.count_cons_of_ne hne] at hcount
      rw [hmarks.countP_eq_zero hid hp hne, ih hps hmem hcount]

end Counting

/-! ## Parsed scripts -/

/-- Spans inside a text of fewer than 2^32 bytes are told apart wherever the text stands. -/
theorem shift_injective {a b : Span} {file file' : FileId} {size base : Nat}
    (ha : a.Within file' size) (hb : b.Within file' size) (small : size < Word.modulus)
    (h : a.shift base file = b.shift base file) : a = b := by
  have hstart : (a.start + base) % Word.modulus = (b.start + base) % Word.modulus :=
    congrArg Span.start h
  have hstop : (a.stop + base) % Word.modulus = (b.stop + base) % Word.modulus :=
    congrArg Span.stop h
  obtain ⟨hafile, hale, hain⟩ := ha
  obtain ⟨hbfile, hble, hbin⟩ := hb
  rw [show Word.modulus = 4294967296 from rfl] at hstart hstop small
  obtain ⟨fa, sa, ea⟩ := a
  obtain ⟨fb, sb, eb⟩ := b
  simp only at *
  rw [hafile, hbfile, show sa = sb by omega, show ea = eb by omega]

/-- The names that a script with its words in place writes to, and the words in what it constructs,
are all different. -/
theorem count_places_le_one {w : Script.Window} {lo hi : Nat} {xs : List Expr}
    (h : w.Spelled lo (leavesOf xs) hi) (y : Leaf) :
    (((writesAll xs).map Write.place).map Place.leaf).count y
      + (constructedLeavesOf xs).count y ≤ 1 := by
  have hroots := count_rootsAll y xs
  have honce := List.nodup_iff_count_le_one.mp (List.Nodup.of_map _ h.nodup) y
  rw [roots, ← Function.comp_def, ← List.map_map] at hroots
  omega

/-- The names that a script with its words in place writes to are words of it. -/
theorem within_of_mem_places {w : Script.Window} {lo hi : Nat} {xs : List Expr}
    (h : w.Spelled lo (leavesOf xs) hi) {p : Place} (hp : p ∈ (writesAll xs).map Write.place) :
    p.1.span.Within w.file w.source.size := by
  have hroots := count_rootsAll p.leaf xs
  rw [roots, ← Function.comp_def, ← List.map_map] at hroots
  have hpos := List.count_pos_iff.mpr (List.mem_map_of_mem (f := Place.leaf) hp)
  have hleaf : p.leaf ∈ leavesOf xs := List.count_pos_iff.mp (by omega)
  obtain ⟨hstands, -, -⟩ := h.stands p.leaf hleaf
  exact ⟨hstands.file, Nat.le_of_lt hstands.nonempty, hstands.within⟩

/-- A global that is written to is in the store. -/
theorem global?_of_mem_places {f : Fragment} {t : Store} (ht : t.WellFormed) {name : Bytes}
    {span : Span} {ps : List Place} {ls : List (List (VarId × Assignment))}
    (h : List.Forall₂ (Place.Marks f t) ps ls) (hmem : (⟨name, span⟩, []) ∈ ps) :
    ∃ id, t.global? name = some id := by
  induction h with
  | nil => cases hmem
  | @cons p l ps ls hmarks _ ih =>
    rcases List.mem_cons.mp hmem with rfl | hmem
    · obtain ⟨e, rfl⟩ := List.length_eq_one_iff.mp (hmarks.direct rfl)
      obtain ⟨-, v, sp, hv, hnames, hspan⟩ := hmarks.each e (List.mem_singleton_self e)
      rcases hnames with ⟨howner, hname, -⟩ | ⟨-, step, hstep, -⟩
      · exact ⟨e.1, ht.find?_eq_some_iff.2 ⟨v, hv, howner, hname⟩⟩
      · cases hstep
    · exact ih hmem

theorem countP_isAt (f : Fragment) (id : VarId) (span : Span) (l : List (VarId × Assignment)) :
    ((l.filter fun e => e.1 = id).map (·.2)).countP (fun a => a.span = span.shift f.base f.file)
      = l.countP (isAt f id span) := by
  rw [List.countP_map, List.countP_filter]
  refine List.countP_congr fun e _ => ?_
  simp [isAt, and_comm]

/-- Folding a parsed script adds to a global exactly one assignment at each name of it that the
script assigns to, at any depth, unless the assignment stands in what a `new` constructs; then it
adds none there. -/
theorem fold_assigns_once (ops : List Store.Operation) (text : Bytes) (file : FileId) (limit : Nat)
    (f : Fragment) (hscript : f.script = (Script.parse text file limit).script)
    (small : text.length < Word.modulus) {st t : Expr} (hst : st ∈ f.script) (ht : t.Occurs st)
    {name : Bytes} {span : Span} (hassigns : t.Assigns name span) :
    ∃ new, ((Store.after ops).fold f).2.globalAssignments name
        = (Store.after ops).globalAssignments name ++ new ∧
      (¬ t.InConstructed st → new.countP (fun a => a.span = span.shift f.base f.file) = 1) ∧
      (t.InConstructed st → new.countP (fun a => a.span = span.shift f.base f.file) = 0) := by
  have hsound := Store.sound_after ops
  generalize Store.after ops = s at hsound ⊢
  have hplaced := (Script.parse_placed text file limit).1
  rw [← hscript] at hplaced
  have hwf : (s.fold f).2.WellFormed := ((Store.fold_changes hsound f).sound hsound).toWellFormed
  obtain ⟨ls, htrail, hmarks⟩ := fold_trail hsound f
  have hsize : (Script.Window.whole text file).source.size < Word.modulus := by
    simpa [Script.Window.whole] using small
  have honce := count_places_le_one hplaced ⟨name, span⟩
  have hleaf : ⟨name, span⟩ ∈ leavesOf f.script :=
    Script.Expr.mem_leavesOf.mpr ⟨st, hst, ht.leaves_subset hassigns.mem_leaves⟩
  obtain ⟨hstands, -, -⟩ := hplaced.stands _ hleaf
  have hinj : ∀ p ∈ (writesAll f.script).map Write.place,
      p.1.span.shift f.base f.file = span.shift f.base f.file → p.1.span = span := fun p hp =>
    shift_injective (within_of_mem_places hplaced hp)
      ⟨hstands.file, Nat.le_of_lt hstands.nonempty, hstands.within⟩ hsize
  -- outside of constructors the name is written to, and so it is a global afterwards
  have hwritten : ¬ t.InConstructed st →
      (⟨name, span⟩, []) ∈ (writesAll f.script).map Write.place := by
    intro hout
    have hwrite := (mem_writes_of_occurs ht hassigns).resolve_right hout
    exact List.map_subset _ (fun w hw => mem_writesAll.mpr ⟨st, hst, hw⟩) hwrite
  -- if the name is no global afterwards, it was none before, and then nothing is assigned
  cases hid : (s.fold f).2.global? name with
  | none =>
    have hold : s.global? name = none := by
      cases hs : s.global? name with
      | none => rfl
      | some id =>
        have hfound := htrail.toExtends.find? hwf hs
        rw [← Store.global?, hid] at hfound
        cases hfound
    refine ⟨[], by simp [Store.globalAssignments, hid, hold], fun hout => ?_, fun _ => rfl⟩
    obtain ⟨id, hid'⟩ := global?_of_mem_places hwf hmarks (hwritten hout)
    rw [hid] at hid'
    cases hid'
  | some id =>
    refine ⟨_, htrail.globalAssignments hsound.toWellFormed hwf hid, fun hout => ?_, fun hin => ?_⟩
    · rw [countP_isAt]
      exact countP_flatten_eq_one hmarks hwf hid hinj (hwritten hout) (by omega)
    · rw [countP_isAt]
      refine countP_flatten_eq_zero hmarks hid hinj ?_
      -- a name inside a construction is the root of no write, for its one occurrence is counted
      -- there
      have hconstructed : 0 < (constructedLeavesOf f.script).count ⟨name, span⟩ :=
        List.count_pos_iff.mpr (Script.Expr.mem_constructedLeavesOf.mpr
          ⟨st, hst, mem_constructedLeaves_of_inConstructed hin hassigns⟩)
      omega

/-- In `new Map((x)++)` the name that is counted stands in an argument, and is assigned to once. -/
theorem fold_counts_argument_once :
    let f : Fragment := ⟨1, 10, (Script.parse "new Map((x)++)" 1 0).script⟩
    ∃ st ∈ f.script, ∃ t : Expr, t.Occurs st ∧ t.Assigns "x" ⟨1, 9, 10⟩ ∧ ¬ t.InConstructed st ∧
      ∃ new, ((Store.after []).fold f).2.globalAssignments "x"
          = (Store.after []).globalAssignments "x" ++ new ∧
        new.countP (fun a => a.span = ⟨1, 19, 20⟩) = 1 := by
  intro f
  have hfound : ∃ st ∈ f.script, ∃ t ∈ st.children,
      t.Assigns "x" ⟨1, 9, 10⟩ ∧ ⟨"x", ⟨1, 9, 10⟩⟩ ∉ st.constructedLeaves := by
    decide +kernel
  obtain ⟨st, hst, t, ht, hassigns, hleaf⟩ := hfound
  have hout : ¬ t.InConstructed st := fun hin =>
    hleaf (mem_constructedLeaves_of_inConstructed hin hassigns)
  obtain ⟨new, hnew, honce, -⟩ :=
    fold_assigns_once [] "new Map((x)++)" 1 0 f rfl (by decide) hst (.single ht) hassigns
  exact ⟨st, hst, t, .single ht, hassigns, hout, new, hnew, honce hout⟩

/-- In `new (x = 1)()` the assignment stands in what is constructed, and is not folded. -/
theorem fold_misses_constructed :
    let f : Fragment := ⟨1, 10, (Script.parse "new (x = 1)()" 1 0).script⟩
    ∃ st ∈ f.script, ∃ t : Expr, t.Occurs st ∧ t.Assigns "x" ⟨1, 5, 6⟩ ∧
      ¬ ∃ new, ((Store.after []).fold f).2.globalAssignments "x"
          = (Store.after []).globalAssignments "x" ++ new ∧
        new.countP (fun a => a.span = ⟨1, 15, 16⟩) = 1 := by
  intro f
  have hfound : ∃ st ∈ f.script, ∃ callee ∈ st.children, ∃ t ∈ callee.children,
      t.Assigns "x" ⟨1, 5, 6⟩ := by
    decide +kernel
  obtain ⟨st, hst, callee, hcallee, t, ht, hassigns⟩ := hfound
  refine ⟨st, hst, t, .tail (.single hcallee) ht, hassigns, ?_⟩
  rintro ⟨new, hnew, honce⟩
  have hnone : ((Store.after []).fold f).2.globalAssignments "x" = [] := by decide +kernel
  rw [hnone] at hnew
  obtain ⟨-, rfl⟩ := List.nil_eq_append_iff.mp hnew
  cases honce

end Storyline.Variables
