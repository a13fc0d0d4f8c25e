import Mathlib.Data.List.Basic
import Storyline.Variables.Fold

/-!
# What a script writes

Folding a script reads the store in two ways: the kind of a variable on the right of an assignment
becomes the kind of the target, and the object that a chain of properties runs through is the one
its variable refers to.  A settled script does without the first: the kind of every assigned value
is plain from the script alone.

For a settled script the places it writes and the kinds it writes there are known before it is
folded (`writes`), and folding it is nothing but writing them one after the other (`walk_run`).
-/

namespace Storyline.Variables

open Script (Expr TokenKind Symbol)

/-! ## Places and fixed kinds -/

/-- The variable or property that an expression stands for. -/
def place? : Expr → Option (Step × List Step)
  | .identifier span name => some (⟨name, span⟩, [])
  | .group _ x => place? x
  | .member _ base name span => (place? base).map fun p => (p.1, p.2 ++ [⟨name, span⟩])
  | .index _ base i =>
    (literalStep? i).bind fun step => (place? base).map fun p => (p.1, p.2 ++ [step])
  | _ => none

/-- Whether a binary operator gives values of one kind, whatever the kinds of its operands. -/
def isBlind : TokenKind → Bool
  | .symbol s =>
    !([.plus, .minus, .star, .slash, .percent, .starStar, .and, .or, .coalesce] : List Symbol).contains s
  | _ => true

/-- The kind of the result of a binary operator as far as the kinds of its operands are known. -/
def binaryKind? (op : TokenKind) : Option Kind → Option Kind → Option Kind
  | some l, some r => some (binaryKind op l r)
  | l, r =>
    if isBlind op then some (binaryKind op .unknown .unknown)
    else if op = .symbol .plus ∧ (l = some .string ∨ r = some .string) then some .string
    else none

/-- Whether an assignment gives its target a kind that does not depend on the kind of the value. -/
def isBlindAssign : TokenKind → Bool
  | .symbol s =>
    ([.minusAssign, .starAssign, .slashAssign, .percentAssign, .starStarAssign] : List Symbol).contains s
  | _ => false

/-- The kind that an assignment gives to its target as far as the kind of the value is known. -/
def assignedKind? (op : TokenKind) (right : Expr) (kind : Option Kind) : Option Kind :=
  if isBlindAssign op then some (assignedKind op right .unknown)
  else kind.map (assignedKind op right)

/-- The kind of the value of an expression, if it is the same in every store. -/
def fixedKind? : Expr → Option Kind
  | .literal _ k _ _ => some (literalKind k)
  | .identifier .. => none
  | .group _ x => fixedKind? x
  | .member _ base _ _ => if (place? base).isSome then none else some .unknown
  | .index _ base i =>
    if (literalStep? i).isSome && (place? base).isSome then none else some .unknown
  | .binary _ op left right =>
    if op.isAssign then assignedKind? op right (fixedKind? right)
    else binaryKind? op (fixedKind? left) (fixedKind? right)
  | .unary _ op _ =>
    some (if op = .symbol .plusPlus ∨ op = .symbol .minusMinus then .number else unaryKind op)
  | .trailing .. => some .number
  | .call .. => some .unknown
  | .array .. => some .array
  | .construct _ callee _ _ => some (constructedKind callee)
  | .ternary _ _ yes no => (fixedKind? yes).bind fun y => (fixedKind? no).map y.agree
  | .template .. => some .string
  | .missing => some .unknown

theorem binaryKind_of_isBlind {op : TokenKind} (h : isBlind op = true) (l r l' r' : Kind) :
    binaryKind op l r = binaryKind op l' r' := by
  cases op with
  | symbol s => cases s <;> first | rfl | simp [isBlind] at h
  | keyword k => cases k <;> rfl
  | _ => rfl

theorem binaryKind_of_binaryKind? {op : TokenKind} {l? r? : Option Kind} {l r k : Kind}
    (h : binaryKind? op l? r? = some k) (hl : ∀ x, l? = some x → l = x)
    (hr : ∀ x, r? = some x → r = x) : binaryKind op l r = k := by
  unfold binaryKind? at h
  split at h
  · rename_i a b
    rw [hl a rfl, hr b rfl]
    exact Option.some.inj h
  · split at h
    · rename_i hb
      rw [binaryKind_of_isBlind hb l r .unknown .unknown]
      exact Option.some.inj h
    · split at h
      · rename_i hp
        obtain ⟨rfl, hs⟩ := hp
        have hlr : l = .string ∨ r = .string := hs.imp (hl _) (hr _)
        rw [← Option.some.inj h]
        simp [binaryKind, hlr]
      · simp at h

theorem assignedKind_of_assignedKind? {op : TokenKind} {right : Expr} {k? : Option Kind}
    {k k' : Kind} (h : assignedKind? op right k? = some k') (hk : ∀ x, k? = some x → k = x) :
    assignedKind op right k = k' := by
  unfold assignedKind? at h
  split at h
  · rename_i hb
    rw [← Option.some.inj h]
    cases op with
    | symbol s => cases s <;> first | rfl | simp [isBlindAssign] at hb
    | _ => simp [isBlindAssign] at hb
  · obtain ⟨x, hx, rfl⟩ := Option.map_eq_some_iff.1 h
    rw [hk x hx]

/-! ## Settled scripts and their writes -/

mutual

/-- Whether no assignment inside an expression takes its kind from a variable. -/
def isSettled : Expr → Bool
  | .literal .. | .identifier .. | .missing => true
  | .group _ x | .unary _ _ x | .trailing _ _ x | .member _ x _ _ => isSettled x
  | .index _ base i => isSettled i && isSettled base
  | .binary span op left right =>
    isSettled right && isSettled left
      && (!op.isAssign || (fixedKind? (.binary span op left right)).isSome)
  | .call _ callee args => isSettledAll args && isSettled callee
  | .array _ xs => isSettledAll xs
  | .construct _ _ args _ => isSettledAll args
  | .ternary _ cond yes no => isSettled cond && isSettled yes && isSettled no
  | .template _ parts _ => isSettledParts parts

/-- Whether no assignment inside expressions takes its kind from a variable. -/
def isSettledAll : List Expr → Bool
  | [] => true
  | x :: xs => isSettled x && isSettledAll xs

/-- Whether no assignment inside the substitutions of a template takes its kind from a variable. -/
def isSettledParts : List (Bytes × Expr) → Bool
  | [] => true
  | (_, x) :: rest => isSettled x && isSettledParts rest

end

/-- A kind that is written to a place. -/
structure Write where
  root : Step
  steps : List Step
  kind : Kind
deriving DecidableEq, Repr, Inhabited

/-- A write of a kind to a place, if there is one. -/
def writeTo (place : Option (Step × List Step)) (kind : Kind) : List Write :=
  place.toList.map fun p => ⟨p.1, p.2, kind⟩

mutual

/-- What folding a settled expression writes, in order. -/
def writes : Expr → List Write
  | .literal .. | .identifier .. | .missing => []
  | .group _ x => writes x
  | .member _ base _ _ => writes base
  | .index _ base i => writes i ++ writes base
  | .binary span op left right =>
    if op.isAssign then
      writes right ++ writes left
        ++ writeTo (place? left) ((fixedKind? (.binary span op left right)).getD .unknown)
    else writes left ++ writes right
  | .unary _ op x =>
    writes x ++ if op = .symbol .plusPlus ∨ op = .symbol .minusMinus then writeTo (place? x) .number
      else []
  | .trailing _ _ x => writes x ++ writeTo (place? x) .number
  | .call _ callee args =>
    writesAll args ++ writes callee ++ match receiverKind? callee with
      | some kind => writeTo ((place? callee).map fun p => (p.1, p.2.dropLast)) kind
      | none => []
  | .array _ xs => writesAll xs
  | .construct _ _ args _ => writesAll args
  | .ternary _ cond yes no => writes cond ++ writes yes ++ writes no
  | .template _ parts _ => writesParts parts

/-- What folding settled expressions writes, in order. -/
def writesAll : List Expr → List Write
  | [] => []
  | x :: xs => writes x ++ writesAll xs

/-- What folding the settled substitutions of a template writes, in order. -/
def writesParts : List (Bytes × Expr) → List Write
  | [] => []
  | (_, x) :: rest => writes x ++ writesParts rest

end

/-! ## Written kinds -/

/-- Whether a kind is no reference. -/
def Kind.isPlain : Kind → Bool
  | .object _ => false
  | _ => true

theorem isPlain_agree {a : Kind} (ha : a.isPlain = true) (b : Kind) :
    (a.agree b).isPlain = true := by
  unfold Kind.agree
  split
  · exact ha
  · rfl

theorem isPlain_binaryKind {l : Kind} (hl : l.isPlain = true) (op : TokenKind) (r : Kind) :
    (binaryKind op l r).isPlain = true := by
  unfold binaryKind
  repeat' split
  all_goals first | rfl | exact isPlain_agree hl r

theorem isPlain_assignedKind {k : Kind} (hk : k.isPlain = true) (op : TokenKind) (right : Expr) :
    (assignedKind op right k).isPlain = true := by
  unfold assignedKind
  repeat' split
  all_goals first | rfl | exact hk

theorem isPlain_binaryKind? {op : TokenKind} {l r : Option Kind} {k : Kind}
    (hl : ∀ x, l = some x → x.isPlain = true) (h : binaryKind? op l r = some k) :
    k.isPlain = true := by
  unfold binaryKind? at h
  repeat' split at h
  · rw [← Option.some.inj h]
    exact isPlain_binaryKind (hl _ rfl) op _
  · rw [← Option.some.inj h]
    exact isPlain_binaryKind rfl op _
  · rw [← Option.some.inj h]
    rfl
  · simp at h

/-- A kind that is plain from a script alone is no reference. -/
-- By induction on the expression: a kind that is fixed never names an object, for objects come only
-- from variables.
theorem isPlain_fixedKind? : (e : Expr) → {k : Kind} → fixedKind? e = some k → k.isPlain = true
  | .literal _ l _ _, _, h => by
    rw [← Option.some.inj h]
    cases l <;> rfl
  | .group _ x, _, h => isPlain_fixedKind? x h
  | .member .., _, h => by
    simp only [fixedKind?] at h
    split at h
    · simp at h
    · rw [← Option.some.inj h]
      rfl
  | .index .., _, h => by
    simp only [fixedKind?] at h
    split at h
    · simp at h
    · rw [← Option.some.inj h]
      rfl
  | .binary _ op left right, _, h => by
    simp only [fixedKind?] at h
    split at h
    · unfold assignedKind? at h
      split at h
      · rw [← Option.some.inj h]
        exact isPlain_assignedKind rfl op right
      · obtain ⟨x, hx, rfl⟩ := Option.map_eq_some_iff.1 h
        exact isPlain_assignedKind (isPlain_fixedKind? right hx) op right
    · exact isPlain_binaryKind? (fun x hx => isPlain_fixedKind? left hx) h
  | .unary _ op _, _, h => by
    rw [← Option.some.inj h]
    split
    · rfl
    · unfold unaryKind
      split <;> rfl
  | .trailing .., _, h | .call .., _, h | .array .., _, h | .template .., _, h
  | .missing, _, h => by
    rw [← Option.some.inj h]
    rfl
  | .construct _ callee _ _, _, h => by
    rw [← Option.some.inj h]
    unfold constructedKind
    repeat' split
    all_goals rfl
  | .ternary _ _ yes no, _, h => by
    obtain ⟨y, hy, hn⟩ := Option.bind_eq_some_iff.1 h
    obtain ⟨n, -, rfl⟩ := Option.map_eq_some_iff.1 hn
    exact isPlain_agree (isPlain_fixedKind? yes hy) n

theorem isPlain_receiverKind? {callee : Expr} {k : Kind} (h : receiverKind? callee = some k) :
    k.isPlain = true := by
  unfold receiverKind? at h
  repeat' split at h
  all_goals first | (simp at h; done) | (rw [← Option.some.inj h]; rfl)

/-- Whether none of some writes writes a reference. -/
def ArePlain (ws : List Write) : Prop := ∀ w ∈ ws, w.kind.isPlain = true

theorem arePlain_append {ws ws' : List Write} (h : ArePlain ws) (h' : ArePlain ws') :
    ArePlain (ws ++ ws') := by
  intro w hw
  exact (List.mem_append.1 hw).elim (h w) (h' w)

theorem arePlain_writeTo (p : Option (Step × List Step)) {k : Kind} (hk : k.isPlain = true) :
    ArePlain (writeTo p k) := by
  intro w hw
  obtain ⟨q, -, rfl⟩ := List.mem_map.1 hw
  exact hk

theorem arePlain_nil : ArePlain [] := by
  intro w hw
  simp at hw

mutual

theorem arePlain_writes : (e : Expr) → ArePlain (writes e)
  | .literal .. | .identifier .. | .missing => arePlain_nil
  | .group _ x => arePlain_writes x
  | .member _ base _ _ => arePlain_writes base
  | .index _ base i => arePlain_append (arePlain_writes i) (arePlain_writes base)
  | .binary span op left right => by
    unfold writes
    split
    · refine arePlain_append (arePlain_append (arePlain_writes right) (arePlain_writes left))
        (arePlain_writeTo _ ?_)
      cases hk : fixedKind? (.binary span op left right) with
      | none => rfl
      | some k => exact isPlain_fixedKind? _ hk
    · exact arePlain_append (arePlain_writes left) (arePlain_writes right)
  | .unary _ op x => by
    refine arePlain_append (arePlain_writes x) ?_
    split
    · exact arePlain_writeTo _ rfl
    · exact arePlain_nil
  | .trailing _ _ x => arePlain_append (arePlain_writes x) (arePlain_writeTo _ rfl)
  | .call _ callee args => by
    refine arePlain_append (arePlain_append (arePlain_writesAll args) (arePlain_writes callee)) ?_
    split
    · rename_i hk
      exact arePlain_writeTo _ (isPlain_receiverKind? hk)
    · exact arePlain_nil
  | .array _ xs => arePlain_writesAll xs
  | .construct _ _ args _ => arePlain_writesAll args
  | .ternary _ cond yes no => arePlain_append
    (arePlain_append (arePlain_writes cond) (arePlain_writes yes)) (arePlain_writes no)
  | .template _ parts _ => arePlain_writesParts parts

theorem arePlain_writesAll : (xs : List Expr) → ArePlain (writesAll xs)
  | [] => arePlain_nil
  | x :: xs => arePlain_append (arePlain_writes x) (arePlain_writesAll xs)

theorem arePlain_writesParts : (ps : List (Bytes × Expr)) → ArePlain (writesParts ps)
  | [] => arePlain_nil
  | (_, x) :: ps => arePlain_append (arePlain_writes x) (arePlain_writesParts ps)

end

/-! ## Folding settled scripts -/

/-- Folding one write. -/
def perform (f : Fragment) (s : FoldState) (w : Write) : FoldState :=
  ((Fold.store f (.place w.root w.steps) w.kind).run s).2

/-- Folding writes, one after the other. -/
def performAll (f : Fragment) (s : FoldState) (ws : List Write) : FoldState :=
  ws.foldl (perform f) s

theorem performAll_append (f : Fragment) (s : FoldState) (ws ws' : List Write) :
    performAll f s (ws ++ ws') = performAll f (performAll f s ws) ws' :=
  List.foldl_append

/-- What the fold takes an expression for. -/
def Stands (e : Expr) (o : Operand) : Prop :=
  match place? e with
  | some p => o = .place p.1 p.2
  | none => ∃ k, o = .value k ∧ ∀ k', fixedKind? e = some k' → k = k'

theorem fixedKind?_of_place? : (e : Expr) → {p : Step × List Step} → place? e = some p →
    fixedKind? e = none
  | .identifier .., _, _ => rfl
  | .group _ x, _, h => fixedKind?_of_place? x h
  | .member _ base _ _, _, h => by
    have hb : (place? base).isSome := by
      obtain ⟨q, hq, -⟩ := Option.map_eq_some_iff.1 h
      simp [hq]
    simp [fixedKind?, hb]
  | .index _ base i, _, h => by
    obtain ⟨step, hs, hb⟩ := Option.bind_eq_some_iff.1 h
    obtain ⟨q, hq, -⟩ := Option.map_eq_some_iff.1 hb
    simp [fixedKind?, hs, hq]

theorem Stands.value {e : Expr} (hp : place? e = none) {k : Kind}
    (hk : ∀ k', fixedKind? e = some k' → k = k') : Stands e (.value k) := by
  simp only [Stands, hp]
  exact ⟨k, rfl, hk⟩

theorem Stands.kind {e : Expr} {o : Operand} (h : Stands e o) (s : Store) {k : Kind}
    (hk : fixedKind? e = some k) : o.kind s = k := by
  cases hp : place? e with
  | none =>
    simp only [Stands, hp] at h
    obtain ⟨k', rfl, hk'⟩ := h
    exact hk' k hk
  | some p => simp [fixedKind?_of_place? e hp] at hk

theorem Stands.member {e : Expr} {o : Operand} (h : Stands e o) (step : Step) :
    match place? e with
    | some p => o.member step = .place p.1 (p.2 ++ [step])
    | none => o.member step = .value .unknown := by
  cases hp : place? e with
  | none =>
    simp only [Stands, hp] at h
    obtain ⟨k, rfl, -⟩ := h
    rfl
  | some p =>
    simp only [Stands, hp] at h
    rw [h]
    rfl

/-- Storing into what an expression stands for is writing to its place, if it has one. -/
theorem store_run {e : Expr} {o : Operand} (h : Stands e o) (f : Fragment) (s : FoldState)
    (k : Kind) :
    (Fold.store f o k).run s = ((), performAll f s (writeTo (place? e) k)) := by
  cases hp : place? e with
  | none =>
    simp only [Stands, hp] at h
    obtain ⟨k', rfl, -⟩ := h
    rfl
  | some p =>
    simp only [Stands, hp] at h
    rw [h]
    rfl

theorem store_owner_run {e : Expr} {o : Operand} (h : Stands e o) (f : Fragment) (s : FoldState)
    (k : Kind) :
    (Fold.store f o.owner k).run s
      = ((), performAll f s (writeTo ((place? e).map fun p => (p.1, p.2.dropLast)) k)) := by
  cases hp : place? e with
  | none =>
    simp only [Stands, hp] at h
    obtain ⟨k', rfl, -⟩ := h
    rfl
  | some p =>
    simp only [Stands, hp] at h
    rw [h]
    rfl

theorem run_bind {α β : Type} (x : Fold α) (g : α → Fold β) (s : FoldState) :
    (x >>= g).run s = (g (x.run s).1).run (x.run s).2 := (rfl)

theorem run_pure {α : Type} (a : α) (s : FoldState) : (pure a : Fold α).run s = (a, s) := (rfl)

theorem run_kindNow (o : Operand) (s : FoldState) :
    (Fold.kindNow o).run s = (o.kind s.store, s) := (rfl)

/-- What the walk over an expression gives is what it stands for, and it does nothing but its
writes. -/
def Walks (f : Fragment) (e : Expr) : Prop :=
  ∀ s, ∃ o, (Fold.walk f e).run s = (o, performAll f s (writes e)) ∧ Stands e o

/-- The walk over expressions does nothing but their writes. -/
def WalksAll (f : Fragment) (xs : List Expr) : Prop :=
  ∀ s, (Fold.walkAll f xs).run s = ((), performAll f s (writesAll xs))

section Steps

variable {f : Fragment}

-- every step below opens the walk by its equations
attribute [local simp] Fold.walk

theorem walks_member {base : Expr} (hb : Walks f base) (span : Span) (name : Bytes)
    (nameSpan : Span) : Walks f (.member span base name nameSpan) := by
  intro s
  obtain ⟨o, ho, hst⟩ := hb s
  refine ⟨o.member ⟨name, nameSpan⟩, ?_, ?_⟩
  · simp only [Fold.walk, run_bind, run_pure, ho, writes]
  · have hm := hst.member ⟨name, nameSpan⟩
    cases hp : place? base <;> simp only [hp] at hm
    · simp [Stands, place?, fixedKind?, hp, hm]
    · simp [Stands, place?, hp, hm]

theorem walks_index {base i : Expr} (hi : Walks f i) (hb : Walks f base) (span : Span) :
    Walks f (.index span base i) := by
  intro s
  obtain ⟨oi, hi, -⟩ := hi s
  obtain ⟨o, ho, hst⟩ := hb (performAll f s (writes i))
  cases hl : literalStep? i with
  | none =>
    refine ⟨.value .unknown, ?_, by simp [Stands, place?, fixedKind?, hl]⟩
    simp only [Fold.walk, run_bind, run_pure, hi, ho, hl, writes, performAll_append]
  | some step =>
    refine ⟨o.member step, ?_, ?_⟩
    · simp only [Fold.walk, run_bind, run_pure, hi, ho, hl, writes, performAll_append]
    · have hm := hst.member step
      cases hp : place? base <;> simp only [hp] at hm
      · simp [Stands, place?, fixedKind?, hl, hp, hm]
      · simp [Stands, place?, hl, hp, hm]

theorem walks_assign {left right : Expr} (hr : Walks f right) (hl : Walks f left) {span : Span}
    {op : TokenKind} (hop : op.isAssign = true) {k : Kind}
    (hk : fixedKind? (.binary span op left right) = some k) :
    Walks f (.binary span op left right) := by
  intro s
  obtain ⟨o, ho, hst⟩ := hr s
  obtain ⟨t, ht, hstt⟩ := hl (performAll f s (writes right))
  -- the kind on the right is read after everything to the right was written
  have hkind : assignedKind op right (o.kind (performAll f s (writes right)).store) = k := by
    have hk' : assignedKind? op right (fixedKind? right) = some k := by
      simpa [fixedKind?, hop] using hk
    exact assignedKind_of_assignedKind? hk' fun x hx => hst.kind _ hx
  refine ⟨.value k, ?_, .value rfl fun k' h' => Option.some.inj (hk.symm.trans h')⟩
  simp only [Fold.walk, hop, if_true, run_bind, run_pure, run_kindNow, ho, ht, hkind,
    store_run hstt, writes, performAll_append, hk, Option.getD_some]

theorem walks_binary {left right : Expr} (hl : Walks f left) (hr : Walks f right) (span : Span)
    {op : TokenKind} (hop : ¬op.isAssign = true) : Walks f (.binary span op left right) := by
  intro s
  obtain ⟨o, ho, hst⟩ := hl s
  obtain ⟨t, ht, hstt⟩ := hr (performAll f s (writes left))
  refine ⟨.value (binaryKind op (o.kind (performAll f s (writes left)).store)
    (t.kind (performAll f (performAll f s (writes left)) (writes right)).store)), ?_, ?_⟩
  · simp only [Fold.walk, hop, Bool.false_eq_true, if_false, run_bind, run_pure, run_kindNow,
      ho, ht, writes, performAll_append]
  · refine .value rfl fun k hk => ?_
    have hk' : binaryKind? op (fixedKind? left) (fixedKind? right) = some k := by
      simpa [fixedKind?, hop] using hk
    exact binaryKind_of_binaryKind? hk' (fun x hx => hst.kind _ hx) fun x hx => hstt.kind _ hx

theorem walks_unary {x : Expr} (hx : Walks f x) (span : Span) (op : TokenKind) :
    Walks f (.unary span op x) := by
  intro s
  obtain ⟨o, ho, hst⟩ := hx s
  refine ⟨.value (if op = .symbol .plusPlus ∨ op = .symbol .minusMinus then .number
    else unaryKind op), ?_, .value rfl fun k' h' => Option.some.inj h'⟩
  by_cases hop : op = .symbol .plusPlus ∨ op = .symbol .minusMinus
  · simp only [Fold.walk, run_bind, run_pure, ho, hop, if_true, store_run hst, writes,
      performAll_append]
  · simp only [Fold.walk, run_bind, run_pure, ho, hop, if_false, writes, List.append_nil]

theorem walks_trailing {x : Expr} (hx : Walks f x) (span : Span) (op : TokenKind) :
    Walks f (.trailing span op x) := by
  intro s
  obtain ⟨o, ho, hst⟩ := hx s
  refine ⟨.value .number, ?_, .value rfl fun k' h' => Option.some.inj h'⟩
  simp only [Fold.walk, run_bind, run_pure, ho, store_run hst, writes, performAll_append]

theorem walks_call {callee : Expr} {args : List Expr} (ha : WalksAll f args)
    (hc : Walks f callee) (span : Span) : Walks f (.call span callee args) := by
  intro s
  obtain ⟨o, ho, hst⟩ := hc (performAll f s (writesAll args))
  refine ⟨.value .unknown, ?_, .value rfl fun k' h' => Option.some.inj h'⟩
  cases hk : receiverKind? callee with
  | none =>
    simp only [Fold.walk, run_bind, run_pure, ha s, ho, hk, writes, performAll_append,
      List.append_nil]
  | some k =>
    simp only [Fold.walk, run_bind, run_pure, ha s, ho, hk, store_owner_run hst, writes,
      performAll_append]

theorem walks_ternary {cond yes no : Expr} (hc : Walks f cond) (hy : Walks f yes)
    (hn : Walks f no) (span : Span) : Walks f (.ternary span cond yes no) := by
  intro s
  obtain ⟨c, hcr, -⟩ := hc s
  obtain ⟨y, hyr, hyst⟩ := hy (performAll f s (writes cond))
  obtain ⟨n, hnr, hnst⟩ := hn (performAll f (performAll f s (writes cond)) (writes yes))
  refine ⟨.value ((y.kind (performAll f (performAll f s (writes cond)) (writes yes)).store).agree
    (n.kind (performAll f (performAll f (performAll f s (writes cond)) (writes yes))
      (writes no)).store)), ?_, .value rfl ?_⟩
  · simp only [Fold.walk, run_bind, run_pure, run_kindNow, hcr, hyr, hnr, writes,
      performAll_append]
  · intro k hk
    obtain ⟨a, ha, hb⟩ := Option.bind_eq_some_iff.1 hk
    obtain ⟨b, hb', rfl⟩ := Option.map_eq_some_iff.1 hb
    rw [hyst.kind _ ha, hnst.kind _ hb']

theorem walks_array {xs : List Expr} (hx : WalksAll f xs) (span : Span) :
    Walks f (.array span xs) := by
  intro s
  refine ⟨.value .array, ?_, .value rfl fun k' h' => Option.some.inj h'⟩
  simp only [Fold.walk, run_bind, run_pure, hx s, writes]

theorem walks_construct {args : List Expr} (ha : WalksAll f args) (span : Span) (callee : Expr)
    (hasArgs : Bool) : Walks f (.construct span callee args hasArgs) := by
  intro s
  refine ⟨.value (constructedKind callee), ?_, .value rfl fun k' h' => Option.some.inj h'⟩
  simp only [Fold.walk, run_bind, run_pure, ha s, writes]

theorem walks_template {parts : List (Bytes × Expr)}
    (hp : ∀ s, (Fold.walkParts f parts).run s = ((), performAll f s (writesParts parts)))
    (span : Span) (tail : Bytes) : Walks f (.template span parts tail) := by
  intro s
  refine ⟨.value .string, ?_, .value rfl fun k' h' => Option.some.inj h'⟩
  simp only [Fold.walk, run_bind, run_pure, hp s, writes]

end Steps

mutual

/-- Walking over a settled expression is writing its writes. -/
theorem walk_run (f : Fragment) : (e : Expr) → isSettled e = true → Walks f e
  | .literal _ k _ _, _ => fun s => ⟨_, rfl, .value rfl fun k' h => Option.some.inj h⟩
  | .identifier span name, _ => fun s => ⟨_, rfl, rfl⟩
  | .missing, _ => fun s => ⟨_, rfl, .value rfl fun k' h => Option.some.inj h⟩
  | .group _ x, h => walk_run f x h
  | .member span base name nameSpan, h => walks_member (walk_run f base h) span name nameSpan
  | .index span base i, h => by
    obtain ⟨hi, hb⟩ := Bool.and_eq_true_iff.1 h
    exact walks_index (walk_run f i hi) (walk_run f base hb) span
  | .binary span op left right, h => by
    simp only [isSettled, Bool.and_eq_true, Bool.or_eq_true, Bool.not_eq_true'] at h
    obtain ⟨⟨hr, hl⟩, hk⟩ := h
    by_cases hop : op.isAssign = true
    · obtain ⟨k, hk⟩ := Option.isSome_iff_exists.1 (hk.resolve_left (by simp [hop]))
      exact walks_assign (walk_run f right hr) (walk_run f left hl) hop hk
    · exact walks_binary (walk_run f left hl) (walk_run f right hr) span hop
  | .unary span op x, h => walks_unary (walk_run f x h) span op
  | .trailing span op x, h => walks_trailing (walk_run f x h) span op
  | .call span callee args, h => by
    obtain ⟨ha, hc⟩ := Bool.and_eq_true_iff.1 h
    exact walks_call (walkAll_run f args ha) (walk_run f callee hc) span
  | .array span xs, h => walks_array (walkAll_run f xs h) span
  | .construct span callee args flag, h => walks_construct (walkAll_run f args h) span callee flag
  | .ternary span cond yes no, h => by
    simp only [isSettled, Bool.and_eq_true] at h
    obtain ⟨⟨hc, hy⟩, hn⟩ := h
    exact walks_ternary (walk_run f cond hc) (walk_run f yes hy) (walk_run f no hn) span
  | .template span parts tail, h => walks_template (walkParts_run f parts h) span tail

theorem walkAll_run (f : Fragment) : (xs : List Expr) → isSettledAll xs = true → WalksAll f xs
  | [], _ => fun s => rfl
  | x :: xs, h => by
    intro s
    obtain ⟨hx, hxs⟩ := Bool.and_eq_true_iff.1 h
    obtain ⟨o, ho, -⟩ := walk_run f x hx s
    simp only [Fold.walkAll, run_bind, ho, writesAll, performAll_append]
    exact walkAll_run f xs hxs _

theorem walkParts_run (f : Fragment) : (ps : List (Bytes × Expr)) → isSettledParts ps = true →
    ∀ s, (Fold.walkParts f ps).run s = ((), performAll f s (writesParts ps))
  | [], _ => fun s => rfl
  | (_, x) :: ps, h => by
    intro s
    obtain ⟨hx, hps⟩ := Bool.and_eq_true_iff.1 h
    obtain ⟨o, ho, -⟩ := walk_run f x hx s
    simp only [Fold.walkParts, run_bind, ho, writesParts, performAll_append]
    exact walkParts_run f ps hps _

end

/-- Folding a settled script is writing its writes. -/
theorem fold_of_isSettled {f : Fragment} (h : isSettledAll f.script = true) (s : Store) :
    s.fold f = ((performAll f { store := s } (writesAll f.script)).touched.toList,
      (performAll f { store := s } (writesAll f.script)).store) := by
  unfold Store.fold
  rw [walkAll_run f f.script h]

end Storyline.Variables
