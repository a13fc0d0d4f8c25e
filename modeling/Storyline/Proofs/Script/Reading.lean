import Mathlib.Data.List.Basic
import Storyline.Script.Parser

/-!
# Steps of the script parser

The parser is a state monad; this file says what its steps do to a state as plain equations, so
that no proof about the grammar has to unfold the monad.  A look at the next token gives
`ParserState.front` and leaves `ParserState.look`, consuming it leaves `ParserState.pass`.

Whatever the parser does, it keeps the source and never takes back a report: `Follows s s'`, and
`steady` for the mutually recursive functions at any fuel.
-/

namespace Storyline.Script

namespace ParserState

/-! ## The next token -/

/-- The next token. -/
def front (s : ParserState) : Token :=
  match s.rest with
  | [] => ⟨.endOfScript, s.last, []⟩
  | l :: _ => l.token

/-- The state after a look at the next token. -/
def look (s : ParserState) : ParserState :=
  match s.rest with
  | [] => s
  | l :: _ => if s.seen then s else { s with seen := true, log := s.log ++ l.notices }

/-- The state after the next token; the end of the script stays. -/
def pass (s : ParserState) : ParserState :=
  if s.front.kind = .endOfScript then s.look
  else { s.look with
    rest := s.rest.tail
    seen := false
    last := if s.front.kind = .invalid then s.last else s.front.span }

/-- The state at the start of a substitution between two offsets of the source. -/
def inside (s : ParserState) (start stop : Nat) : ParserState :=
  { s with
    rest := lexemesIn s.source s.file start stop
    seen := false
    last := ⟨s.file, start, start⟩ }

/-- The state after a substitution: the tokens around it, as they were before it. -/
def outside (s outer : ParserState) : ParserState :=
  { s with rest := outer.rest, seen := outer.seen, last := outer.last }

/-- What the parser keeps on its way from one state to another. -/
structure Follows (s s' : ParserState) : Prop where
  source : s'.source = s.source
  file : s'.file = s.file
  maxErrors : s'.maxErrors = s.maxErrors
  log : s.log.size ≤ s'.log.size

theorem Follows.refl (s : ParserState) : Follows s s := ⟨rfl, rfl, rfl, Nat.le_refl _⟩

theorem Follows.trans {s t u : ParserState} (h : Follows s t) (k : Follows t u) : Follows s u :=
  ⟨k.source.trans h.source, k.file.trans h.file, k.maxErrors.trans h.maxErrors,
    Nat.le_trans h.log k.log⟩

@[simp] theorem look_rest (s : ParserState) : s.look.rest = s.rest := by
  unfold look
  split
  · rfl
  · split <;> rfl

@[simp] theorem look_last (s : ParserState) : s.look.last = s.last := by
  unfold look
  split
  · rfl
  · split <;> rfl

@[simp] theorem look_front (s : ParserState) : s.look.front = s.front := by
  simp [front]

theorem look_seen {s : ParserState} {l : Lexeme} {ls : List Lexeme} (h : s.rest = l :: ls) :
    s.look.seen = true := by
  unfold look
  rw [h]
  by_cases hs : s.seen = true <;> simp [hs]

@[simp] theorem look_look (s : ParserState) : s.look.look = s.look := by
  rcases h : s.rest with _ | ⟨l, ls⟩
  · simp [look, h]
  · have hs : s.look.seen = true := look_seen h
    rw [look.eq_def s.look]
    simp [h, hs]

@[simp] theorem look_pass (s : ParserState) : s.look.pass = s.pass := by
  simp [pass]

theorem size_append_list {α : Type} (a : Array α) (l : List α) :
    (a ++ l).size = a.size + l.length := by
  rw [← Array.length_toList, Array.toList_appendList, List.length_append, Array.length_toList]

theorem follows_look (s : ParserState) : Follows s s.look := by
  unfold look
  split
  · exact .refl s
  · split
    · exact .refl s
    · exact ⟨rfl, rfl, rfl, by simp only [size_append_list]; omega⟩

theorem follows_pass (s : ParserState) : Follows s s.pass := by
  have h := s.follows_look
  unfold pass
  split
  · exact h
  · exact ⟨h.source, h.file, h.maxErrors, h.log⟩

end ParserState

namespace Parse

open ParserState (Follows)

/-! ## Runs -/

variable {α β : Type}

theorem bind_run (m : Parse α) (f : α → Parse β) (s : ParserState) :
    (m >>= f) s = f (m s).1 (m s).2 := rfl

theorem pure_run (a : α) (s : ParserState) : (pure a : Parse α) s = (a, s) := rfl

theorem get_run (s : ParserState) : (get : Parse ParserState) s = (s, s) := rfl

theorem set_run (t s : ParserState) : (set t : Parse PUnit) s = (⟨⟩, t) := rfl

theorem modify_run (f : ParserState → ParserState) (s : ParserState) :
    (modify f : Parse PUnit) s = (⟨⟩, f s) := rfl

theorem peek_run (s : ParserState) : peek s = (s.front, s.look) := by
  unfold peek ParserState.front ParserState.look
  rcases h : s.rest with _ | ⟨l, ls⟩
  · simp only [bind_run, get_run, h, pure_run]
  · by_cases hs : s.seen = true
    · simp [bind_run, get_run, h, hs, pure_run]
    · simp only [bind_run, get_run, h, hs, pure_run, set_run, Bool.false_eq_true, if_false]

theorem advance_run (s : ParserState) : advance s = (s.front, s.pass) := by
  unfold advance ParserState.pass
  simp only [bind_run, peek_run]
  by_cases h : s.front.kind = .endOfScript
  · simp only [h, if_true, pure_run]
  · simp only [h, if_false, pure_run, bind_run, modify_run, ParserState.look_rest,
      ParserState.look_last]

theorem at?_run (k : TokenKind) (s : ParserState) :
    at? k s = (decide (s.front.kind = k), s.look) := by
  simp only [at?, bind_run, peek_run, pure_run]

theorem expect_run (k : TokenKind) (code : Code) (message : Bytes) (s : ParserState) :
    expect k code message s =
      if s.front.kind = k then (some s.front, s.pass)
      else (none, (complain code message s.look).2) := by
  simp only [expect, bind_run, at?_run]
  by_cases h : s.front.kind = k
  · simp [h, bind_run, advance_run, pure_run]
  · simp [h, bind_run, pure_run]

theorem expectName_run (s : ParserState) :
    expectName s =
      if s.front.kind.isPropertyName then (some s.front, s.pass)
      else (none, (complain .expectIdentifier "expected property name after '.'" s.look).2) := by
  simp only [expectName, bind_run, peek_run]
  by_cases h : s.front.kind.isPropertyName = true
  · simp [h, bind_run, advance_run, pure_run]
  · simp [h, bind_run, pure_run]

/-! ## Reports -/

/-- Without a limit every report is kept. -/
theorem report_log (code : Code) (span : Span) (message : Bytes) {s : ParserState}
    (h : s.maxErrors = 0) : s.log.size < (report code span message s).2.log.size := by
  simp [report, modify_run, h]

theorem follows_report (code : Code) (span : Span) (message : Bytes) (s : ParserState) :
    Follows s (report code span message s).2 := by
  simp only [report, modify_run]
  split
  · exact .refl s
  · exact ⟨rfl, rfl, rfl, by simp⟩

theorem here_run (s : ParserState) : (here s).2 = s.look := by
  simp only [here, bind_run, peek_run]
  split <;> simp [bind_run, get_run, pure_run]

theorem complain_run (code : Code) (message : Bytes) (s : ParserState) :
    complain code message s = report code (here s).1 message s.look := by
  simp only [complain, bind_run, here_run]

theorem follows_complain (code : Code) (message : Bytes) (s : ParserState) :
    Follows s (complain code message s).2 := by
  rw [complain_run]
  exact s.follows_look.trans (follows_report ..)

theorem complain_log (code : Code) (message : Bytes) {s : ParserState} (h : s.maxErrors = 0) :
    s.log.size < (complain code message s).2.log.size := by
  rw [complain_run]
  have hl := s.follows_look
  exact Nat.lt_of_le_of_lt hl.log (report_log _ _ _ (hl.maxErrors.trans h))

theorem follows_expect (k : TokenKind) (code : Code) (message : Bytes) (s : ParserState) :
    Follows s (expect k code message s).2 := by
  rw [expect_run]
  split
  · exact s.follows_pass
  · exact s.follows_look.trans (follows_complain ..)

theorem follows_expectName (s : ParserState) : Follows s (expectName s).2 := by
  rw [expectName_run]
  split
  · exact s.follows_pass
  · exact s.follows_look.trans (follows_complain ..)

/-! ## Steadiness -/

/-- A parser that keeps what has to be kept from whatever state it starts. -/
def Steady (m : Parse α) : Prop := ∀ s, Follows s (m s).2

theorem Steady.follows {m : Parse α} (hm : Steady m) {s s' : ParserState} {a : α}
    (h : m s = (a, s')) : Follows s s' := by
  have hs := hm s
  rwa [h] at hs

theorem Steady.pure (a : α) : Steady (pure a : Parse α) := fun s => .refl s

theorem Steady.bind {m : Parse α} {f : α → Parse β} (hm : Steady m) (hf : ∀ a, Steady (f a)) :
    Steady (m >>= f) := by
  intro s
  rw [bind_run]
  exact (hm s).trans (hf _ _)

theorem Steady.ite {c : Prop} [Decidable c] {m n : Parse α} (hm : Steady m) (hn : Steady n) :
    Steady (if c then m else n) := by
  split
  · exact hm
  · exact hn

theorem steady_peek : Steady peek := fun s => by
  rw [peek_run]
  exact s.follows_look

theorem steady_advance : Steady advance := fun s => by
  rw [advance_run]
  exact s.follows_pass

theorem steady_at? (k : TokenKind) : Steady (at? k) := fun s => by
  rw [at?_run]
  exact s.follows_look

/-- The functions of the parser at one fuel are steady. -/
structure SteadyAt (fuel : Nat) : Prop where
  binary : ∀ floor, Steady (binary fuel floor)
  climb : ∀ floor left, Steady (climb fuel floor left)
  ternary : ∀ cond, Steady (ternary fuel cond)
  unary : Steady (unary fuel)
  chain : ∀ base, Steady (chain fuel base)
  arguments : Steady (arguments fuel)
  listUntil : ∀ closing code message, Steady (listUntil fuel closing code message)
  items : ∀ closing acc, Steady (items fuel closing acc)
  primary : Steady (primary fuel)
  construct : Steady (construct fuel)
  properties : ∀ base, Steady (properties fuel base)
  template : ∀ t, Steady (template fuel t)
  substitutions : ∀ ps acc, Steady (substitutions fuel ps acc)
  substitution : ∀ start stop, Steady (substitution fuel start stop)

theorem steadyAt_zero : SteadyAt 0 where
  binary _ := by rw [Parse.binary]; exact .pure _
  climb _ _ := by rw [Parse.climb]; exact .pure _
  ternary _ := by rw [Parse.ternary]; exact .pure _
  unary := by rw [Parse.unary]; exact .pure _
  chain _ := by rw [Parse.chain]; exact .pure _
  arguments := by rw [Parse.arguments]; exact .pure _
  listUntil _ _ _ := by rw [Parse.listUntil]; exact .pure _
  items _ _ := by rw [Parse.items]; exact .pure _
  primary := by rw [Parse.primary]; exact .pure _
  construct := by rw [Parse.construct]; exact .pure _
  properties _ := by rw [Parse.properties]; exact .pure _
  template _ := by rw [Parse.template]; exact .pure _
  substitutions _ _ := by rw [Parse.substitutions]; exact .pure _
  substitution _ _ := by rw [Parse.substitution]; exact .pure _

theorem steady_expect (k : TokenKind) (code : Code) (message : Bytes) :
    Steady (expect k code message) := follows_expect k code message

theorem steady_complain (code : Code) (message : Bytes) : Steady (complain code message) :=
  follows_complain code message

/-- The state after what follows the expression of a substitution was reported. -/
def substitutionEnd (s : ParserState) : ParserState :=
  if s.front.kind = .endOfScript then s.look
  else (report .unexpectedToken s.front.span
    ("unexpected '" ++ s.front.text ++ "' in template substitution") s.look).2

theorem follows_substitutionEnd (s : ParserState) : Follows s (substitutionEnd s) := by
  unfold substitutionEnd
  split
  · exact s.follows_look
  · exact s.follows_look.trans (follows_report _ _ _ _)

theorem substitution_run (fuel start stop : Nat) (s : ParserState) :
    substitution (fuel + 1) start stop s =
      ((binary fuel 0 (s.inside start stop)).1.getD .missing,
        (substitutionEnd (binary fuel 0 (s.inside start stop)).2).outside s) := by
  rw [substitution]
  simp only [bind_run, get_run, set_run, peek_run]
  unfold substitutionEnd ParserState.outside ParserState.inside
  split
  · rfl
  · rfl

/-! ## Operands -/

/-- The operand of a single token: a literal without substitutions, or a name. -/
def leaf? (t : Token) : Option Expr :=
  match t.kind with
  | .number => some (.literal t.span .number t.text (numberValue t.text))
  | .string => some (.literal t.span .string t.text (stringValue t.text))
  | .keyword .true | .keyword .false => some (.literal t.span .bool t.text t.text)
  | .keyword .null => some (.literal t.span .null t.text t.text)
  | .keyword .undefined => some (.literal t.span .undefined t.text t.text)
  | .identifier => some (.identifier t.span t.text)
  | _ => none

/-- An operand is a single token, or what its first token announces. -/
theorem primary_run (fuel : Nat) (s : ParserState) :
    primary (fuel + 1) s =
      match leaf? s.front with
      | some e => (some e, s.pass)
      | none =>
        match s.front.kind with
        | .template => (some (template fuel s.front s.pass).1, (template fuel s.front s.pass).2)
        | .symbol .leftParen =>
          let inner := binary fuel 0 s.pass
          let closing := expect (.symbol .rightParen) .unclosedParen "expected ')'" inner.2
          (inner.1.map fun x =>
            .group (s.front.span.cover ((closing.1.map Token.span).getD x.span)) x, closing.2)
        | .symbol .leftBracket =>
          let xs := listUntil fuel (.symbol .rightBracket) .unclosedBracket "expected ']'" s.pass
          (some (.array (s.front.span.cover xs.1.2) xs.1.1), xs.2)
        | .keyword .new => construct fuel s.look
        | .endOfScript => (none, (complain .expectExpression "expected expression" s.look).2)
        | .invalid => (none, s.pass)
        | _ => (none, (report .unexpectedToken s.front.span
            ("unexpected '" ++ s.front.text ++ "'") s.look).2.pass) := by
  rw [primary]
  simp only [bind_run, peek_run]
  unfold leaf?
  -- By the kind of the token in front, as the function itself chooses.
  cases hk : s.front.kind with
  | symbol y =>
    cases y
    case leftParen =>
      simp only [bind_run, advance_run, ParserState.look_pass]
      cases (binary fuel 0 s.pass).1 <;> rfl
    case leftBracket => simp only [bind_run, advance_run, pure_run, ParserState.look_pass]
    all_goals simp only [bind_run, advance_run, pure_run]
  | keyword w =>
    cases w
    all_goals simp only [bind_run, advance_run, pure_run, ParserState.look_pass]
  | template | number | string | identifier | invalid =>
    simp only [bind_run, advance_run, pure_run, ParserState.look_pass]
  | endOfScript => rfl

theorem primary_look (fuel : Nat) (s : ParserState) :
    primary (fuel + 1) s.look = primary (fuel + 1) s := by
  rw [primary_run, primary_run]
  simp only [ParserState.look_front, ParserState.look_look, ParserState.look_pass]

theorem primary_leaf (fuel : Nat) {s : ParserState} {e : Expr} (h : leaf? s.front = some e) :
    primary (fuel + 1) s = (some e, s.pass) := by
  rw [primary_run, h]

theorem primary_template (fuel : Nat) {s : ParserState} (h : s.front.kind = .template) :
    primary (fuel + 1) s =
      (some (template fuel s.front s.pass).1, (template fuel s.front s.pass).2) := by
  simp only [primary_run, leaf?, h]

theorem primary_group (fuel : Nat) {s : ParserState} (h : s.front.kind = .symbol .leftParen) :
    primary (fuel + 1) s =
      let inner := binary fuel 0 s.pass
      let closing := expect (.symbol .rightParen) .unclosedParen "expected ')'" inner.2
      match inner.1 with
      | none => (none, closing.2)
      | some x => (some (.group (s.front.span.cover ((closing.1.map Token.span).getD x.span)) x),
          closing.2) := by
  simp only [primary_run, leaf?, h]
  cases (binary fuel 0 s.pass).1 <;> rfl

theorem primary_array (fuel : Nat) {s : ParserState} (h : s.front.kind = .symbol .leftBracket) :
    primary (fuel + 1) s =
      let xs := listUntil fuel (.symbol .rightBracket) .unclosedBracket "expected ']'" s.pass
      (some (.array (s.front.span.cover xs.1.2) xs.1.1), xs.2) := by
  simp only [primary_run, leaf?, h]

theorem primary_new (fuel : Nat) {s : ParserState} (h : s.front.kind = .keyword .new) :
    primary (fuel + 1) s = construct fuel s.look := by
  simp only [primary_run, leaf?, h]

/-- Whether an operand can start with a token. -/
def startsOperand (t : Token) : Bool :=
  (leaf? t).isSome || t.kind = .template || t.kind = .symbol .leftParen
    || t.kind = .symbol .leftBracket || t.kind = .keyword .new

/-- A token that no operand starts with is reported. -/
theorem primary_other (fuel : Nat) {s : ParserState} (h : startsOperand s.front = false)
    (hkind : s.front.kind ≠ .invalid) (hmax : s.maxErrors = 0) :
    s.log.size < (primary (fuel + 1) s).2.log.size := by
  have hlook := s.follows_look
  have hmax' : s.look.maxErrors = 0 := hlook.maxErrors.trans hmax
  have hreport : ∀ code span message,
      s.log.size < (report code span message s.look).2.pass.log.size := by
    intro code span message
    have h1 := report_log code span message hmax'
    have h2 := (ParserState.follows_pass (report code span message s.look).2).log
    exact Nat.lt_of_le_of_lt hlook.log (Nat.lt_of_lt_of_le h1 h2)
  simp only [startsOperand, Bool.or_eq_false_iff, decide_eq_false_iff_not,
    Option.isSome_eq_false_iff, Option.isNone_iff_eq_none] at h
  obtain ⟨⟨⟨⟨hleaf, htemplate⟩, hparen⟩, hbracket⟩, hnew⟩ := h
  rw [primary_run, hleaf]
  simp only
  split
  case h_5 =>
    -- the end of the script is not consumed
    have := complain_log .expectExpression "expected expression" hmax'
    exact Nat.lt_of_le_of_lt hlook.log this
  case h_7 => exact hreport _ _ _
  all_goals contradiction

theorem construct_run (fuel : Nat) (s : ParserState) :
    construct (fuel + 1) s =
      match if s.pass.front.kind = .keyword .new then construct fuel s.pass.look
        else primary fuel s.pass.look with
      | (none, s1) => (none, s1)
      | (some first, s1) =>
        let callee := properties fuel first s1
        if callee.2.front.kind = .symbol .leftParen then
          let args := arguments fuel callee.2.look
          (some (.construct (s.front.span.cover args.1.2) callee.1 args.1.1 true), args.2)
        else (some (.construct (s.front.span.cover callee.1.span) callee.1 [] false),
          callee.2.look) := by
  rw [construct]
  simp only [bind_run, advance_run, at?_run, decide_eq_true_eq]
  -- `new` behind `new` is read by the same function, all else is a primary expression
  by_cases h : s.pass.front.kind = .keyword .new
  · simp only [h, if_true, bind_run]
    rcases construct fuel s.pass.look with ⟨_ | first, s1⟩
    · rfl
    · simp only [bind_run, at?_run, decide_eq_true_eq]
      split <;> rfl
  · simp only [h, if_false, bind_run]
    rcases primary fuel s.pass.look with ⟨_ | first, s1⟩
    · rfl
    · simp only [bind_run, at?_run, decide_eq_true_eq]
      split <;> rfl

theorem steadyAt_succ {fuel : Nat} (ih : SteadyAt fuel) : SteadyAt (fuel + 1) where
  -- Every function is a chain of steps that keep the source, the file, the limit and what was
  -- reported so far: the cases follow its branches, and `ih` is used where it calls another or
  -- itself.
  binary floor := by
    rw [Parse.binary]
    refine .bind ih.unary fun left => ?_
    cases left with
    | none => exact .pure _
    | some left => exact .bind (ih.climb floor left) fun _ => .pure _
  climb floor left := by
    rw [Parse.climb]
    refine .bind steady_peek fun op => .ite (.ite (.pure _) ?_) ?_
    · exact .bind (ih.ternary left) fun _ => ih.climb _ _
    · split
      · exact .pure _
      · refine .ite (.pure _) (.bind steady_advance fun _ => .bind (ih.binary _) fun right => ?_)
        cases right with
        | none => exact .bind (steady_complain _ _) fun _ => .pure _
        | some right => exact ih.climb _ _
  ternary cond := by
    rw [Parse.ternary]
    refine .bind steady_advance fun _ => .bind (ih.binary _) fun yes => ?_
    cases yes with
    | none => exact .bind (steady_complain _ _) fun _ => .pure _
    | some yes =>
      refine .bind (steady_expect _ _ _) fun colon => ?_
      cases colon with
      | none => exact .pure _
      | some _ =>
        refine .bind (ih.binary _) fun no => ?_
        cases no with
        | none => exact .bind (steady_complain _ _) fun _ => .pure _
        | some no => exact .pure _
  unary := by
    rw [Parse.unary]
    refine .bind steady_peek fun t => .ite (.bind steady_advance fun _ => ?_) ?_
    · refine .bind ih.unary fun x => ?_
      cases x with
      | none => exact .bind (steady_complain _ _) fun _ => .pure _
      | some x => exact .pure _
    · refine .bind ih.primary fun x => ?_
      cases x with
      | none => exact .pure _
      | some x => exact .bind (ih.chain x) fun _ => .pure _
  chain base := by
    rw [Parse.chain]
    refine .bind steady_peek fun t => .ite (.bind steady_advance fun _ => ?_)
      (.ite (.bind steady_advance fun _ => ?_) (.ite ?_ (.ite ?_ (.pure _))))
    · refine .bind follows_expectName fun name => ?_
      cases name with
      | none => exact .pure _
      | some name => exact ih.chain _
    · refine .bind (ih.binary _) fun i => .bind (steady_expect _ _ _) fun closing => ?_
      cases i with
      | none => exact .bind (steady_complain _ _) fun _ => .pure _
      | some i => exact ih.chain _
    · exact .bind ih.arguments fun _ => ih.chain _
    · exact .bind steady_advance fun _ => .pure _
  arguments := by
    rw [Parse.arguments]
    exact .bind steady_advance fun _ => .bind (ih.listUntil _ _ _) fun _ => .pure _
  listUntil closing code message := by
    rw [Parse.listUntil]
    exact .bind (ih.items _ _) fun _ => .bind (fun s => .refl s) fun _ =>
      .bind (steady_expect _ _ _) fun _ => .pure _
  items closing acc := by
    rw [Parse.items]
    refine .bind steady_peek fun t => .ite (.pure _) (.bind (ih.binary _) fun x => ?_)
    cases x with
    | none => exact .pure _
    | some x =>
      exact .bind (steady_at? _) fun _ => .ite (.bind steady_advance fun _ => ih.items _ _) (.pure _)
  -- six kinds are leaves, then come templates, names and the two brackets
  primary := by
    rw [Parse.primary]
    refine .bind steady_peek fun t => ?_
    split
    iterate 6 exact .bind steady_advance fun _ => .pure _
    · exact .bind steady_advance fun _ => .bind (ih.template t) fun _ => .pure _
    · exact .bind steady_advance fun _ => .pure _
    · refine .bind steady_advance fun _ => .bind (ih.binary _) fun inner =>
        .bind (steady_expect _ _ _) fun closing => ?_
      cases inner with
      | none => exact .pure _
      | some inner => exact .pure _
    · exact .bind steady_advance fun _ => .bind (ih.listUntil _ _ _) fun _ => .pure _
    · exact ih.construct
    · exact .bind (steady_complain _ _) fun _ => .pure _
    · exact .bind steady_advance fun _ => .pure _
    · exact .bind (follows_report _ _ _) fun _ => .bind steady_advance fun _ => .pure _
  construct := by
    rw [Parse.construct]
    refine .bind steady_advance fun _ => .bind (steady_at? _) fun _ => ?_
    refine .ite (.bind ih.construct ?_) (.bind ih.primary ?_)
    -- the same is done with what `new` is put before, whichever function has read it
    all_goals
      intro callee
      cases callee with
      | none => exact .pure _
      | some first =>
        refine .bind (ih.properties first) fun _ => .bind (steady_at? _) fun _ => .ite ?_ (.pure _)
        exact .bind ih.arguments fun _ => .pure _
  properties base := by
    rw [Parse.properties]
    refine .bind (steady_at? _) fun _ => .ite (.bind steady_advance fun _ => ?_) (.pure _)
    refine .bind follows_expectName fun name => ?_
    cases name with
    | none => exact .pure _
    | some name => exact ih.properties _
  template t := by
    rw [Parse.template]
    refine .bind (ih.substitutions _ _) fun _ => ?_
    split
    · exact .pure _
    · exact .bind (fun s => .refl s) fun _ => .bind (follows_report _ _ _) fun _ => .pure _
  substitutions ps acc := by
    cases ps with
    | nil =>
      rw [Parse.substitutions]
      exact .pure _
    | cons p ps =>
      rw [Parse.substitutions]
      exact .bind (ih.substitution _ _) fun _ => ih.substitutions _ _
  substitution start stop := by
    intro s
    -- a substitution is read from another place and put back, and its reports are shifted but kept
    rw [substitution_run]
    have h := (ih.binary 0 (s.inside start stop)).trans (follows_substitutionEnd _)
    exact ⟨h.source, h.file, h.maxErrors, h.log⟩

/-- Every function of the parser keeps the source and takes back no report. -/
theorem steadyAt (fuel : Nat) : SteadyAt fuel := by
  induction fuel with
  | zero => exact steadyAt_zero
  | succ fuel ih => exact steadyAt_succ ih

end Parse

end Storyline.Script
