import Storyline.Script.Expr
import Storyline.Variables.Store

/-!
# Inferring kinds from scripts

Folding a script into a store walks through its expressions from left to right, finds the kind of
each, and records the kind of every value that is assigned.  Assigning to a property makes the
variable before the dot hold a reference to an object; reading makes nothing.
-/

namespace Storyline.Variables

open Script (Expr TokenKind Symbol Keyword LiteralKind)

/-- A script and where it stands: its spans are relative to the offset `base` of a file. -/
structure Fragment where
  file : FileId
  base : Nat
  script : List Expr
deriving Repr, Inhabited

/-- A store that a script is folded into. -/
structure FoldState where
  store : Store
  /-- The assigned variables, in the order of their first assignments. -/
  touched : Array VarId := #[]
deriving Repr, Inhabited

/-- Folding: reads and changes the store. -/
abbrev Fold := StateM FoldState

/-- A property on the way to a place: its name and where that stands. -/
structure Step where
  name : Bytes
  span : Span
deriving DecidableEq, Repr, Inhabited

/-- What an expression stands for. -/
inductive Operand where
  /-- A variable or property, reached from a global through properties. -/
  | place (root : Step) (steps : List Step)
  /-- A value of a kind. -/
  | value (kind : Kind)
deriving DecidableEq, Repr, Inhabited

namespace Operand

/-- The place of a property, if its owner is a place. -/
def member : Operand → Step → Operand
  | place root steps, step => place root (steps ++ [step])
  | value _, _ => value .unknown

/-- The place that a property belongs to. -/
def owner : Operand → Operand
  | place root steps => place root steps.dropLast
  | value k => value k

/-- The kind of what an expression stands for. -/
def kind (s : Store) : Operand → Kind
  | place root steps =>
    ((s.lookup? (root.name :: steps.map (·.name))).map s.kindOf).getD .unknown
  | value k => k

end Operand

/-! ## Kinds of operators -/

/-- The kind of the result of a binary operator that assigns nothing. -/
def binaryKind (op : TokenKind) (left right : Kind) : Kind :=
  match op with
  | .keyword .in | .keyword .instanceof => .bool
  | .symbol s =>
    match s with
    | .equal | .strictEqual | .notEqual | .strictNotEqual | .less | .lessEqual | .greater
    | .greaterEqual => .bool
    | .plus =>
      if left = .string ∨ right = .string then .string
      else if left = .number ∧ right = .number then .number
      else .unknown
    | .minus | .star | .slash | .percent | .starStar =>
      if left = .number ∧ right = .number then .number else .unknown
    | .ampersand | .pipe | .caret | .shiftLeft | .shiftRight | .shiftRightUnsigned => .number
    | .and | .or | .coalesce => left.agree right
    | _ => .unknown
  | _ => .unknown

/-- The kind of the result of an operator before its operand, other than `++` and `--`. -/
def unaryKind : TokenKind → Kind
  | .symbol .bang => .bool
  | .keyword .typeof => .string
  | .symbol .minus | .symbol .plus | .symbol .tilde => .number
  | _ => .unknown

/-- The kind that an assignment gives to its target, from the kind of its right-hand side. -/
def assignedKind (op : TokenKind) (right : Expr) (kind : Kind) : Kind :=
  match op with
  | .symbol .plusAssign => if kind = .string then .string else .number
  | .symbol .minusAssign | .symbol .starAssign | .symbol .slashAssign | .symbol .percentAssign
  | .symbol .starStarAssign =>
    match right.unparen with
    | .literal _ .number _ _ => .number
    | _ => .unknown
  | _ => kind

/-- The kind of a literal. -/
def literalKind : LiteralKind → Kind
  | .string => .string
  | .number => .number
  | .bool => .bool
  | .null | .undefined => .unknown

/-- The kind of what a constructor makes. -/
def constructedKind (callee : Expr) : Kind :=
  match callee.unparen with
  | .identifier _ name =>
    if name = ("Array" : Bytes) then .array
    else if name = ("Map" : Bytes) then .map
    else if name = ("String" : Bytes) then .string
    else if name = ("Number" : Bytes) then .number
    else .unknown
  | _ => .unknown

/-- The methods that only arrays have. -/
def arrayMethods : List Bytes := ["push", "pop", "join", "slice", "splice", "shift", "unshift"]

/-- The methods that only maps have. -/
def mapMethods : List Bytes := ["set", "clear", "has", "get", "keys", "values"]

/-- The kind that calling `callee` shows its receiver to have. -/
def receiverKind? (callee : Expr) : Option Kind :=
  match callee.unparen with
  | .member _ _ name _ =>
    if arrayMethods.contains name then some .array
    else if mapMethods.contains name then some .map
    else none
  | _ => none

/-- The name of a property that is written between brackets as a text or a number. -/
def literalStep? (index : Expr) : Option Step :=
  match index.unparen with
  | .literal span .string _ value | .literal span .number _ value => some ⟨value, span⟩
  | _ => none

/-! ## Writing -/

namespace Fold

/-- Records that a variable receives a kind. -/
def record (f : Fragment) (id : VarId) (kind : Kind) (span : Span) : Fold Unit :=
  modify fun s =>
    { store := s.store.assign id ⟨f.file, kind, span.shift f.base f.file⟩
      touched := if s.touched.contains id then s.touched else s.touched.push id }

/-- Changes the store. -/
def onStore {α : Type} (g : Store → α × Store) : Fold α :=
  modifyGet fun s => let (a, store) := g s.store; (a, { s with store })

/-- The object that a variable refers to; without one that its assignments agree on, the object
made for it.  Every file that writes through a variable records the reference once, so that
dropping one file never cuts off the properties that another one assigned. -/
def objectOf (f : Fragment) (id : VarId) (span : Span) : Fold ObjectId := do
  let object ← match ((← get).store.kindOf id).object? with
    | some object => pure object
    | none => onStore (·.homeObject id)
  unless (← get).store.refers id object f.file do
    record f id (.object object) span
  return object

/-- The property at the end of a chain that starts at `id`, and where its name stands; what is
missing on the way is made. -/
def resolve (f : Fragment) : (id : VarId) → (span : Span) → List Step → Fold (VarId × Span)
  | id, span, [] => return (id, span)
  | id, span, step :: rest => do
    let object ← objectOf f id span
    let id ← onStore (·.declare object step.name)
    resolve f id step.span rest

/-- Records that a place receives a kind; a value is no place. -/
def store (f : Fragment) (target : Operand) (kind : Kind) : Fold Unit := do
  match target with
  | .value _ => return
  | .place root steps =>
    let id ← onStore (·.declare 0 root.name)
    let (id, span) ← resolve f id root.span steps
    record f id kind span

/-! ## Walking -/

/-- The kind of an operand now. -/
def kindNow (o : Operand) : Fold Kind := return o.kind (← get).store

mutual

/-- Records the assignments inside an expression and finds what it stands for. -/
def walk (f : Fragment) : Expr → Fold Operand
  | .literal _ k _ _ => return .value (literalKind k)
  | .identifier span name => return .place ⟨name, span⟩ []
  | .group _ x => walk f x
  | .member _ base name span => return (← walk f base).member ⟨name, span⟩
  | .index _ base i => do
    let _ ← walk f i
    let owner ← walk f base
    return match literalStep? i with
      | some step => owner.member step
      | none => .value .unknown
  | .binary _ op left right => do
    if op.isAssign then
      let kind := assignedKind op right (← kindNow (← walk f right))
      store f (← walk f left) kind
      return .value kind
    else
      let l ← kindNow (← walk f left)
      let r ← kindNow (← walk f right)
      return .value (binaryKind op l r)
  | .unary _ op x => do
    let o ← walk f x
    if op = .symbol .plusPlus ∨ op = .symbol .minusMinus then
      store f o .number
      return .value .number
    else return .value (unaryKind op)
  | .trailing _ _ x => do
    store f (← walk f x) .number
    return .value .number
  | .call _ callee args => do
    walkAll f args
    let o ← walk f callee
    if let some kind := receiverKind? callee then
      store f o.owner kind
    return .value .unknown
  | .array _ xs => do
    walkAll f xs
    return .value .array
  | .construct _ callee args _ => do
    walkAll f args
    return .value (constructedKind callee)
  | .ternary _ cond yes no => do
    let _ ← walk f cond
    let y ← kindNow (← walk f yes)
    let n ← kindNow (← walk f no)
    return .value (y.agree n)
  | .template _ parts _ => do
    walkParts f parts
    return .value .string
  | .missing => return .value .unknown

/-- Records the assignments inside expressions, in order. -/
def walkAll (f : Fragment) : List Expr → Fold Unit
  | [] => return
  | x :: xs => do
    let _ ← walk f x
    walkAll f xs

/-- Records the assignments inside the substitutions of a template, in order. -/
def walkParts (f : Fragment) : List (Bytes × Expr) → Fold Unit
  | [] => return
  | (_, x) :: rest => do
    let _ ← walk f x
    walkParts f rest

end

end Fold

namespace Store

/-- Records the assignments of a script; gives the assigned variables in the order of their first
assignments. -/
def fold (s : Store) (f : Fragment) : List VarId × Store :=
  let (_, r) := (Fold.walkAll f f.script).run { store := s }
  (r.touched.toList, r.store)

/-- Records the assignments of scripts, one after the other. -/
def foldAll (s : Store) : List Fragment → List (List VarId) × Store
  | [] => ([], s)
  | f :: fs =>
    let (ids, s) := s.fold f
    let (rest, s) := s.foldAll fs
    (ids :: rest, s)

/-- Puts the assignments of scripts in the place of all those of a file. -/
def replace (s : Store) (file : FileId) (fs : List Fragment) : List (List VarId) × Store :=
  (s.removeOrigin file).foldAll fs

end Store

end Storyline.Variables
