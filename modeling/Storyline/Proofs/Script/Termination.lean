import Storyline.Proofs.Script.Places
import Storyline.Proofs.Script.Reading
import Storyline.Proofs.Script.Unbounded

/-!
# The script parser ends

Without any fuel the parser ends, for every text and from every state, and the fuel that the parser
does have is never used up (`parse_terminates`).  Every function that reads an expression or a list
consumes a token unless it stands at the end of its range, and every function that extends an
operand consumes one or gives the operand back.  A substitution does not touch the tokens around it,
but it is read from inside of a template token that was consumed and that is longer than it.  So the
`weight` of what is left bounds the depth of the calls; `FinishesAt` has the bound of each function.
-/

namespace Storyline.Script

/-! ## Loops over bytes -/

theorem morePoints_fuel {fuel more : Nat} (pos : Nat) {s : Bytes} (h : s.length ≤ fuel)
    (hmore : s.length ≤ more) : morePoints fuel pos s = morePoints more pos s := by
  induction fuel generalizing more pos s with
  | zero =>
    obtain rfl := List.eq_nil_of_length_eq_zero (Nat.le_zero.mp h)
    cases more <;> rfl
  | succ fuel ih =>
    cases s with
    | nil => cases more <;> rfl
    | cons b s =>
      rw [List.length_cons] at h hmore
      obtain ⟨more, rfl⟩ := Nat.exists_eq_add_of_le' (Nat.le_of_add_left_le hmore)
      have hdrop (n : Nat) : morePoints fuel (pos + 1 + n) (s.drop n) =
          morePoints more (pos + 1 + n) (s.drop n) :=
        ih _ (by rw [List.length_drop]; omega) (by rw [List.length_drop]; omega)
      simp only [morePoints]
      rw [hdrop]

theorem templateShape_fuel {fuel more : Nat} (text : Array UInt8) (pos : Nat) {s : Bytes}
    (h : s.length ≤ fuel) (hmore : s.length ≤ more) :
    templateShape fuel text pos s = templateShape more text pos s := by
  induction fuel generalizing more text pos s with
  | zero =>
    obtain rfl := List.eq_nil_of_length_eq_zero (Nat.le_zero.mp h)
    cases more <;> simp [templateShape]
  | succ fuel ih =>
    obtain _ | ⟨b, _ | ⟨c, s⟩⟩ := s
    · cases more <;> simp [templateShape]
    · cases more <;> simp [templateShape]
    · simp only [List.length_cons] at h hmore
      obtain ⟨more, rfl⟩ := Nat.exists_eq_add_of_le' (Nat.le_of_add_left_le hmore)
      have hrest : s.length ≤ more := by omega
      have hnext : (c :: s).length ≤ more := by rw [List.length_cons]; omega
      have hpart (n : Nat) : (s.drop (n + 1)).length ≤ s.length := by simp
      simp only [templateShape]
      rw [ih _ _ (by omega) hrest, ih _ _ (by rw [List.length_cons]; omega) hnext]
      split
      · rfl
      · split
        · cases closingBrace? 0 0 .plain s with
          | none => rfl
          | some n =>
            simp only [ih #[] _ (Nat.le_trans (hpart n) (by omega)) ((hpart n).trans hrest)]
        · rfl

/-- Where a loop over bytes has a fuel, one that is no less than what is left to read is as good as
any other. -/
structure LoopsEnd : Prop where
  points : ∀ {fuel more pos : Nat} {s : Bytes}, s.length ≤ fuel → s.length ≤ more →
    morePoints fuel pos s = morePoints more pos s
  parts : ∀ {fuel more : Nat} {text : Array UInt8} {pos : Nat} {s : Bytes}, s.length ≤ fuel →
    s.length ≤ more → templateShape fuel text pos s = templateShape more text pos s
  tokens : ∀ {file : FileId} {fuel more pos : Nat} {s : Bytes}, s.length < fuel →
    s.length < more → lexemesFrom file fuel #[] pos s = lexemesFrom file more #[] pos s

theorem loopsEnd : LoopsEnd where
  points h hmore := morePoints_fuel _ h hmore
  parts h hmore := templateShape_fuel _ _ h hmore
  tokens h hmore := lexemesFrom_fuel _ _ _ _ _ h hmore

namespace ParserState

/-! ## What is left -/

/-- A token was consumed, or there was none to consume. -/
structure Advances (s s' : ParserState) : Prop where
  suffix : s'.rest <:+ s.rest
  consumed : s.front.kind = .endOfScript ∨ s'.rest.length < s.rest.length

/-- A token was consumed. -/
structure Consumes (s s' : ParserState) : Prop where
  suffix : s'.rest <:+ s.rest
  consumed : s'.rest.length < s.rest.length

/-- A token was consumed, or the operand `base` was given back. -/
structure Prolongs (s : ParserState) (base x : Expr) (s' : ParserState) : Prop where
  suffix : s'.rest <:+ s.rest
  consumed : (s'.rest = s.rest ∧ x = base) ∨ s'.rest.length < s.rest.length

variable {s t u : ParserState}

theorem weight_le_of_suffix {ls ms : List Lexeme} (h : ls <:+ ms) : weight ls ≤ weight ms := by
  obtain ⟨before, rfl⟩ := h
  rw [weight_append]
  exact Nat.le_add_left _ _

theorem Consumes.weight_lt (h : Consumes s t) : weight t.rest < weight s.rest := by
  obtain ⟨⟨before, heq⟩, hlt⟩ := h
  have hne : before ≠ [] := by
    rintro rfl
    rw [← heq] at hlt
    exact Nat.lt_irrefl _ hlt
  rw [← heq, weight_append]
  exact Nat.lt_add_of_pos_left (weight_pos hne)

theorem Consumes.advances (h : Consumes s t) : Advances s t := ⟨h.suffix, .inr h.consumed⟩

theorem Consumes.prolongs (h : Consumes s t) (base x : Expr) : Prolongs s base x t :=
  ⟨h.suffix, .inr h.consumed⟩

theorem Consumes.trans (h : Consumes s t) (k : u.rest <:+ t.rest) : Consumes s u :=
  ⟨k.trans h.suffix, Nat.lt_of_le_of_lt k.length_le h.consumed⟩

theorem Advances.trans (h : Advances s t) (k : u.rest <:+ t.rest) : Advances s u :=
  ⟨k.trans h.suffix, h.consumed.imp_right fun hlt => Nat.lt_of_le_of_lt k.length_le hlt⟩

theorem Advances.of_look (h : Advances s.look t) : Advances s t :=
  ⟨s.look_rest ▸ h.suffix, by simpa using h.consumed⟩

theorem Advances.weight_le (h : Advances s t) : weight t.rest ≤ weight s.rest :=
  weight_le_of_suffix h.suffix

theorem Advances.consumes (h : Advances s t) (hs : s.front.kind ≠ .endOfScript) : Consumes s t :=
  ⟨h.suffix, h.consumed.resolve_left hs⟩

theorem front_of_rest {l : Lexeme} {ls : List Lexeme} (h : s.rest = l :: ls) :
    s.front = l.token := by
  rw [front, h]

theorem rest_ne_nil (h : s.front.kind ≠ .endOfScript) : s.rest ≠ [] := by
  intro hnil
  rw [front, hnil] at h
  exact h rfl

theorem pass_rest (s : ParserState) :
    s.pass.rest = if s.front.kind = .endOfScript then s.rest else s.rest.tail := by
  rw [pass]
  split
  · exact s.look_rest
  · rfl

theorem pass_suffix (s : ParserState) : s.pass.rest <:+ s.rest := by
  rw [pass_rest]
  split
  · exact List.suffix_refl _
  · exact List.tail_suffix _

/-- The next token is consumed if it is not the end. -/
theorem consumes_pass (h : s.front.kind ≠ .endOfScript) : Consumes s s.pass := by
  refine ⟨s.pass_suffix, ?_⟩
  have := List.length_pos_iff.mpr (rest_ne_nil h)
  rw [pass_rest, if_neg h, List.length_tail]
  omega

theorem advances_pass (s : ParserState) : Advances s s.pass := by
  by_cases h : s.front.kind = .endOfScript
  · exact ⟨s.pass_suffix, .inl h⟩
  · exact (consumes_pass h).advances

/-- What comes next is what is left. -/
theorem front_congr (h : t.rest = s.rest) (hs : s.front.kind ≠ .endOfScript) :
    t.front = s.front := by
  obtain ⟨l, ls, hrest⟩ := List.exists_cons_of_ne_nil (rest_ne_nil hs)
  rw [front_of_rest hrest, front_of_rest (h.trans hrest)]

/-- The text of the next token is part of what is left. -/
theorem front_length_le (h : s.front.kind ≠ .endOfScript) :
    s.front.text.length ≤ weight s.rest := by
  obtain ⟨l, ls, hrest⟩ := List.exists_cons_of_ne_nil (rest_ne_nil h)
  rw [front_of_rest hrest, hrest, weight_cons]
  omega

end ParserState

/-! ## Steps of both parsers -/

namespace Parse

theorem report_rest (code : Code) (span : Span) (message : Bytes) (s : ParserState) :
    (report code span message s).2.rest = s.rest := by
  simp only [report, modify_run]
  split <;> rfl

theorem complain_suffix (code : Code) (message : Bytes) (s : ParserState) :
    (complain code message s).2.rest <:+ s.rest := by
  have hrest : (complain code message s).2.rest = s.rest := by
    rw [complain_run, report_rest, s.look_rest]
  exact hrest ▸ List.suffix_refl _

/-- One round of `statements`, with fuel. -/
def round (fuel : Nat) (acc : Array Expr) : Parse (Array Expr) := do
  let t ← peek
  if t.kind = .symbol .semicolon then
    let _ ← advance
    return acc
  else
    match ← binary fuel 0 with
    | none => return acc
    | some x =>
      let t ← peek
      if t.kind = .symbol .semicolon || t.kind = .endOfScript then return acc.push x
      else
        unless t.kind = .invalid do
          report .unexpectedToken t.span ("unexpected '" ++ t.text ++ "' after expression")
        let _ ← advance
        return acc.push x

/-- Statements are read in rounds. -/
theorem statements_succ (fuel : Nat) (acc : Array Expr) :
    statements (fuel + 1) acc = peek >>= fun t =>
      if t.kind = .endOfScript then pure acc.toList else round fuel acc >>= statements fuel := by
  funext s
  rw [statements, bind_run, bind_run, peek_run]
  by_cases hend : s.front.kind = .endOfScript
  · simp only [hend, if_true]
  simp only [hend, if_false, bind_run, round, peek_run, ParserState.look_front,
    ParserState.look_look]
  by_cases hsemi : s.front.kind = .symbol .semicolon
  · simp only [hsemi, if_true]
    rfl
  simp only [hsemi, if_false, bind_run]
  rcases binary fuel 0 s.look with ⟨x, s₁⟩
  cases x with
  | none => rfl
  | some x =>
    simp only [bind_run, peek_run]
    by_cases hnext : (s₁.front.kind = .symbol .semicolon || s₁.front.kind = .endOfScript) = true
    · simp only [hnext, if_true]
      rfl
    · by_cases hinvalid : s₁.front.kind = .invalid
      · simp only [hinvalid, if_true]
        rfl
      · simp only [hnext, hinvalid, if_false]
        rfl

end Parse

namespace Unbounded

open Storyline.Unbounded (Returns Ends)

-- most proofs below open a call; its equations are derived here, once
attribute [local simp] Call.answer

variable {β : Type} {s : ParserState} {post : β → ParserState → Prop}

section Steps

theorem returns_peek {f : Token → Unbounded ParserState β} {g : Token → Parse β}
    (h : Returns (f s.front) (g s.front) s.look post) :
    Returns (liftM Parse.peek >>= f) (Parse.peek >>= g) s post := by
  refine .lift ?_
  rw [Parse.peek_run]
  exact h

theorem returns_advance {f : Token → Unbounded ParserState β} {g : Token → Parse β}
    (h : Returns (f s.front) (g s.front) s.pass post) :
    Returns (liftM Parse.advance >>= f) (Parse.advance >>= g) s post := by
  refine .lift ?_
  rw [Parse.advance_run]
  exact h

theorem returns_at? {k : TokenKind} {f : Bool → Unbounded ParserState β} {g : Bool → Parse β}
    (h : Returns (f (decide (s.front.kind = k))) (g (decide (s.front.kind = k))) s.look post) :
    Returns (liftM (Parse.at? k) >>= f) (Parse.at? k >>= g) s post := by
  refine .lift ?_
  rw [Parse.at?_run]
  exact h

theorem returns_report {code : Code} {span : Span} {message : Bytes}
    {f : Unit → Unbounded ParserState β} {g : Unit → Parse β}
    (h : ∀ s' : ParserState, s'.rest = s.rest → Returns (f ()) (g ()) s' post) :
    Returns (liftM (Parse.report code span message) >>= f) (Parse.report code span message >>= g)
      s post :=
  .lift (h _ (Parse.report_rest ..))

theorem returns_complain {code : Code} {message : Bytes} {f : Unit → Unbounded ParserState β}
    {g : Unit → Parse β}
    (h : ∀ s' : ParserState, s'.rest <:+ s.rest → Returns (f ()) (g ()) s' post) :
    Returns (liftM (Parse.complain code message) >>= f) (Parse.complain code message >>= g)
      s post :=
  .lift (h _ (Parse.complain_suffix ..))

/-- What was asked for is consumed if it is there. -/
theorem returns_expect {k : TokenKind} {code : Code} {message : Bytes}
    {f : Option Token → Unbounded ParserState β} {g : Option Token → Parse β}
    (h : ∀ (r : Option Token) (s' : ParserState), s'.rest <:+ s.rest →
      (s.front.kind = k → s'.rest = s.pass.rest) → Returns (f r) (g r) s' post) :
    Returns (liftM (Parse.expect k code message) >>= f) (Parse.expect k code message >>= g)
      s post := by
  refine .lift ?_
  rw [Parse.expect_run]
  split
  · exact h _ _ s.pass_suffix fun _ => rfl
  · next hne =>
    refine h _ _ ?_ fun heq => absurd heq hne
    exact s.look_rest ▸ Parse.complain_suffix _ _ s.look

theorem returns_expectName {f : Option Token → Unbounded ParserState β}
    {g : Option Token → Parse β}
    (h : ∀ (r : Option Token) (s' : ParserState), s'.rest <:+ s.rest →
      Returns (f r) (g r) s' post) :
    Returns (liftM Parse.expectName >>= f) (Parse.expectName >>= g) s post := by
  refine .lift ?_
  rw [Parse.expectName_run]
  split
  · exact h _ _ s.pass_suffix
  · exact h _ _ (s.look_rest ▸ Parse.complain_suffix _ _ s.look)

theorem returns_get {f : ParserState → Unbounded ParserState β} {g : ParserState → Parse β}
    (h : Returns (f s) (g s) s post) : Returns (get >>= f) (get >>= g) s post :=
  h

end Steps

/-! ## Every function ends -/

open ParserState

/-- Substitutions for which a fuel is enough. -/
def Fits (fuel : Nat) (ps : List TemplatePart) : Prop :=
  ∀ p ∈ ps, 8 * (p.stop - p.start + 1) + 5 + ps.length ≤ fuel

/-- The functions without fuel end as those with one fuel do, where that fuel is enough, and get
on. -/
structure FinishesAt (fuel : Nat) : Prop where
  binary : ∀ s floor, 8 * weight s.rest + 4 ≤ fuel →
    Returns (binary floor) (Parse.binary fuel floor) s fun _ => Advances s
  climb : ∀ s floor left, 8 * weight s.rest + 2 ≤ fuel →
    Returns (climb floor left) (Parse.climb fuel floor left) s (Prolongs s left)
  ternary : ∀ s cond, 8 * weight s.pass.rest + 5 ≤ fuel →
    Returns (ternary cond) (Parse.ternary fuel cond) s fun _ => Advances s
  unary : ∀ s, 8 * weight s.rest + 3 ≤ fuel →
    Returns unary (Parse.unary fuel) s fun _ => Advances s
  chain : ∀ s base, 8 * weight s.rest + 2 ≤ fuel →
    Returns (chain base) (Parse.chain fuel base) s (Prolongs s base)
  arguments : ∀ s, 8 * weight s.pass.rest + 7 ≤ fuel →
    Returns arguments (Parse.arguments fuel) s fun _ => Advances s
  listUntil : ∀ s closing code message, closing ≠ .endOfScript → 8 * weight s.rest + 6 ≤ fuel →
    Returns (listUntil closing code message) (Parse.listUntil fuel closing code message) s
      fun _ => Advances s
  items : ∀ s closing acc, 8 * weight s.rest + 5 ≤ fuel →
    Returns (items closing acc) (Parse.items fuel closing acc) s fun _ s' =>
      s'.rest <:+ s.rest ∧ (s.front.kind = closing → s'.rest = s.rest) ∧
        (s.front.kind ≠ closing → Advances s s')
  primary : ∀ s, 8 * weight s.rest + 2 ≤ fuel →
    Returns primary (Parse.primary fuel) s fun _ => Advances s
  construct : ∀ s, 8 * weight s.pass.rest + 8 ≤ fuel →
    Returns construct (Parse.construct fuel) s fun _ => Advances s
  properties : ∀ s base, 8 * weight s.rest + 1 ≤ fuel →
    Returns (properties base) (Parse.properties fuel base) s (Prolongs s base)
  template : ∀ s t, 8 * t.text.length + 1 ≤ fuel →
    Returns (template t) (Parse.template fuel t) s fun _ s' => s'.rest = s.rest
  substitutions : ∀ s ps acc, Fits fuel ps →
    Returns (substitutions ps acc) (Parse.substitutions fuel ps acc) s fun _ s' => s'.rest = s.rest
  substitution : ∀ s start stop, 8 * (stop - start + 1) + 5 ≤ fuel →
    Returns (substitution start stop) (Parse.substitution fuel start stop) s
      fun _ s' => s'.rest = s.rest

theorem finishesAt_zero : FinishesAt 0 where
  binary _ _ h := absurd h (by omega)
  climb _ _ _ h := absurd h (by omega)
  ternary _ _ h := absurd h (by omega)
  unary _ h := absurd h (by omega)
  chain _ _ h := absurd h (by omega)
  arguments _ h := absurd h (by omega)
  listUntil _ _ _ _ _ h := absurd h (by omega)
  items _ _ _ h := absurd h (by omega)
  primary _ h := absurd h (by omega)
  construct _ h := absurd h (by omega)
  properties _ _ h := absurd h (by omega)
  template _ _ h := absurd h (by omega)
  substitutions s ps acc h := by
    cases ps with
    | nil =>
      rw [substitutions, Call.answer, Parse.substitutions]
      exact .pure rfl
    | cons p ps =>
      have := h p List.mem_cons_self
      omega
  substitution _ _ _ h := absurd h (by omega)

variable {fuel : Nat}

theorem finishes_binary (ih : FinishesAt fuel) (s : ParserState) (floor : Nat)
    (h : 8 * weight s.rest + 4 ≤ fuel + 1) :
    Returns (binary floor) (Parse.binary (fuel + 1) floor) s fun _ => Advances s := by
  rw [binary, Call.answer, Parse.binary]
  refine (ih.unary s (by omega)).bind fun left s₁ h₁ => ?_
  cases left with
  | none => exact .pure h₁
  | some left =>
    have := h₁.weight_le
    exact (ih.climb s₁ floor left (by omega)).bind fun x s₂ h₂ => .pure (h₁.trans h₂.suffix)

theorem finishes_climb (ih : FinishesAt fuel) (s : ParserState) (floor : Nat) (left : Expr)
    (h : 8 * weight s.rest + 2 ≤ fuel + 1) :
    Returns (climb floor left) (Parse.climb (fuel + 1) floor left) s (Prolongs s left) := by
  have hsame : Prolongs s left left s.look := ⟨by simp, .inl ⟨by simp, rfl⟩⟩
  -- behind an operator, with less to read, whatever was read is the operand that is extended
  have hmore (s₁ : ParserState) (x : Expr) (h₁ : Consumes s s₁) :
      Returns (climb floor x) (Parse.climb fuel floor x) s₁ (Prolongs s left) := by
    have := h₁.weight_lt
    exact (ih.climb s₁ floor x (by omega)).imp fun y s₂ h₂ => (h₁.trans h₂.suffix).prolongs left y
  rw [climb, Call.answer, Parse.climb]
  refine returns_peek (.ite (fun hop => .ite (fun _ => .pure hsame) fun _ => ?_) fun _ => ?_)
  · have hop : s.front.kind ≠ .endOfScript := by simp [hop]
    have := (consumes_pass hop).weight_lt
    refine (ih.ternary s.look left (by rw [s.look_pass]; omega)).bind fun x s₁ h₁ => ?_
    exact hmore s₁ x (h₁.of_look.consumes hop)
  · cases hb : s.front.kind.binding? with
    | none => exact .pure hsame
    | some b =>
      refine .ite (fun _ => .pure hsame) fun _ => returns_advance ?_
      have hpass := consumes_pass (s := s) (by rintro hend; simp [hend, TokenKind.binding?] at hb)
      have := hpass.weight_lt
      rw [s.look_pass]
      refine (ih.binary s.pass _ (by omega)).bind fun right s₁ h₁ => ?_
      have h₁ := hpass.trans h₁.suffix
      cases right with
      | none =>
        refine returns_complain fun s₂ h₂ => .pure ?_
        exact (h₁.trans h₂).prolongs left left
      | some right => exact hmore s₁ _ h₁

theorem finishes_ternary (ih : FinishesAt fuel) (s : ParserState) (cond : Expr)
    (h : 8 * weight s.pass.rest + 5 ≤ fuel + 1) :
    Returns (ternary cond) (Parse.ternary (fuel + 1) cond) s fun _ => Advances s := by
  rw [ternary, Call.answer, Parse.ternary]
  refine returns_advance ?_
  refine (ih.binary s.pass _ (by omega)).bind fun yes s₁ hyes => ?_
  have h₁ := s.advances_pass.trans hyes.suffix
  cases yes with
  | none => exact returns_complain fun s₂ h₂ => .pure (h₁.trans h₂)
  | some yes =>
    refine returns_expect fun colon s₂ h₂ _ => ?_
    cases colon with
    | none => exact .pure (h₁.trans h₂)
    | some _ =>
      have := weight_le_of_suffix (h₂.trans hyes.suffix)
      refine (ih.binary s₂ _ (by omega)).bind fun no s₃ h₃ => ?_
      have h₃ := h₁.trans (h₃.suffix.trans h₂)
      cases no with
      | none => exact returns_complain fun s₄ h₄ => .pure (h₃.trans h₄)
      | some no => exact .pure h₃

theorem finishes_unary (ih : FinishesAt fuel) (s : ParserState)
    (h : 8 * weight s.rest + 3 ≤ fuel + 1) :
    Returns unary (Parse.unary (fuel + 1)) s fun _ => Advances s := by
  rw [unary, Call.answer, Parse.unary]
  refine returns_peek (.ite (fun hop => ?_) fun _ => ?_)
  · have hpass := consumes_pass (s := s) (by
      intro hend
      simp [hend, TokenKind.isPrefixOperator] at hop)
    have := hpass.weight_lt
    refine returns_advance ?_
    rw [s.look_pass]
    refine (ih.unary s.pass (by omega)).bind fun x s₁ h₁ => ?_
    have h₁ := hpass.advances.trans h₁.suffix
    cases x with
    | none => exact returns_complain fun s₂ h₂ => .pure (h₁.trans h₂)
    | some x => exact .pure h₁
  · refine (ih.primary s.look (by rw [s.look_rest]; omega)).bind fun x s₁ h₁ => ?_
    have h₁ := h₁.of_look
    cases x with
    | none => exact .pure h₁
    | some x =>
      have := h₁.weight_le
      exact (ih.chain s₁ x (by omega)).bind fun y s₂ h₂ => .pure (h₁.trans h₂.suffix)

theorem finishes_chain (ih : FinishesAt fuel) (s : ParserState) (base : Expr)
    (h : 8 * weight s.rest + 2 ≤ fuel + 1) :
    Returns (chain base) (Parse.chain (fuel + 1) base) s (Prolongs s base) := by
  -- nothing is read where no operator extends the base
  have hsame : Prolongs s base base s.look := ⟨by simp, .inl ⟨by simp, rfl⟩⟩
  -- once a token is consumed, the fuel lasts for the rest of the chain
  have hmore (s₁ : ParserState) (x : Expr) (h₁ : Consumes s s₁) :
      Returns (chain x) (Parse.chain fuel x) s₁ (Prolongs s base) := by
    have := h₁.weight_lt
    exact (ih.chain s₁ x (by omega)).imp fun y s₂ h₂ => (h₁.trans h₂.suffix).prolongs base y
  rw [chain, Call.answer, Parse.chain]
  refine returns_peek ?_
  refine .ite (fun hdot => ?_) fun _ => .ite (fun hbracket => ?_) fun _ =>
    .ite (fun hparen => ?_) fun _ => .ite (fun hstep => ?_) fun _ => .pure hsame
  · have hpass := consumes_pass (s := s) (by simp [hdot])
    refine returns_advance ?_
    rw [s.look_pass]
    refine returns_expectName fun name s₁ h₁ => ?_
    cases name with
    | none => exact .pure ((hpass.trans h₁).prolongs base base)
    | some name => exact hmore s₁ _ (hpass.trans h₁)
  · have hpass := consumes_pass (s := s) (by simp [hbracket])
    have := hpass.weight_lt
    refine returns_advance ?_
    rw [s.look_pass]
    refine (ih.binary s.pass 0 (by omega)).bind fun i s₁ h₁ => ?_
    refine returns_expect fun closing s₂ h₂ _ => ?_
    have h₂ := (hpass.trans h₁.suffix).trans h₂
    cases i with
    | none =>
      refine returns_complain fun s₃ h₃ => .pure ?_
      exact (h₂.trans h₃).prolongs base base
    | some i => exact hmore s₂ _ h₂
  · have hparen : s.front.kind ≠ .endOfScript := by simp [hparen]
    have := (consumes_pass hparen).weight_lt
    refine (ih.arguments s.look (by rw [s.look_pass]; omega)).bind fun r s₁ h₁ => ?_
    exact hmore s₁ _ (h₁.of_look.consumes hparen)
  · have hpass := consumes_pass (s := s) (by
      intro hend
      simp [hend] at hstep)
    refine returns_advance (.pure ?_)
    rw [s.look_pass]
    exact hpass.prolongs base _

theorem finishes_arguments (ih : FinishesAt fuel) (s : ParserState)
    (h : 8 * weight s.pass.rest + 7 ≤ fuel + 1) :
    Returns arguments (Parse.arguments (fuel + 1)) s fun _ => Advances s := by
  rw [arguments, Call.answer, Parse.arguments]
  refine returns_advance ((ih.listUntil s.pass _ _ _ (by simp) (by omega)).bind fun r s₁ h₁ => ?_)
  exact .pure (s.advances_pass.trans h₁.suffix)

theorem finishes_listUntil (ih : FinishesAt fuel) (s : ParserState) (closing : TokenKind)
    (code : Code) (message : Bytes) (hclosing : closing ≠ .endOfScript)
    (h : 8 * weight s.rest + 6 ≤ fuel + 1) :
    Returns (listUntil closing code message) (Parse.listUntil (fuel + 1) closing code message) s
      fun _ => Advances s := by
  rw [listUntil, Call.answer, Parse.listUntil]
  refine (ih.items s closing #[] (by omega)).bind fun xs s₁ h₁ => returns_get ?_
  obtain ⟨hsuffix, hsame, hadvances⟩ := h₁
  refine returns_expect fun stop s₂ h₂ hfound => .pure ?_
  by_cases hat : s.front.kind = closing
  · -- nothing was read, and the closing token is consumed
    have hfront : s.front.kind ≠ .endOfScript := hat ▸ hclosing
    have hrest := hsame hat
    have hfront₁ := front_congr hrest hfront
    have heq : s₂.rest = s.pass.rest := by
      rw [hfound (by rw [hfront₁, hat]), pass_rest, pass_rest, hfront₁, hrest]
    exact s.advances_pass.trans (heq ▸ List.suffix_refl _)
  · exact (hadvances hat).trans h₂

theorem finishes_items (ih : FinishesAt fuel) (s : ParserState) (closing : TokenKind)
    (acc : Array Expr) (h : 8 * weight s.rest + 5 ≤ fuel + 1) :
    Returns (items closing acc) (Parse.items (fuel + 1) closing acc) s fun _ s' =>
      s'.rest <:+ s.rest ∧ (s.front.kind = closing → s'.rest = s.rest) ∧
        (s.front.kind ≠ closing → Advances s s') := by
  rw [items, Call.answer, Parse.items]
  refine returns_peek (.ite (fun hstop => ?_) fun hstop => ?_)
  · simp only [Bool.or_eq_true, decide_eq_true_eq] at hstop
    refine .pure ⟨by simp, fun _ => by simp, fun hne => ?_⟩
    exact ⟨by simp, .inl (hstop.resolve_left hne)⟩
  · simp only [Bool.or_eq_true, decide_eq_true_eq, not_or] at hstop
    have hread {s' : ParserState} (h' : Consumes s s') : s'.rest <:+ s.rest ∧
        (s.front.kind = closing → s'.rest = s.rest) ∧ (s.front.kind ≠ closing → Advances s s') :=
      ⟨h'.suffix, fun heq => absurd heq hstop.1, fun _ => h'.advances⟩
    refine (ih.binary s.look 0 (by rw [s.look_rest]; omega)).bind fun x s₁ h₁ => ?_
    have h₁ := h₁.of_look.consumes hstop.2
    cases x with
    | none => exact .pure (hread h₁)
    | some x =>
      refine returns_at? (.ite (fun hcomma => returns_advance ?_) fun _ => .pure (hread ?_))
      · have h₂ := h₁.trans s₁.pass_suffix
        have := h₂.weight_lt
        rw [s₁.look_pass]
        refine (ih.items s₁.pass closing _ (by omega)).imp fun ys s₂ h₃ => hread (h₂.trans h₃.1)
      · exact h₁.trans (by simp)

/-- An operand of a single token. -/
theorem finishes_leaf (s : ParserState) (x : Option Expr) :
    Returns (liftM Parse.advance >>= fun _ => pure x) (Parse.advance >>= fun _ => pure x) s.look
      fun _ => Advances s :=
  returns_advance (.pure (s.look_pass ▸ s.advances_pass))

/-- A token that no operand starts with. -/
theorem finishes_other {s : ParserState} (hs : s.front.kind ≠ .endOfScript) (message : Bytes) :
    Returns (liftM (Parse.report .unexpectedToken s.front.span message) >>= fun _ =>
        liftM Parse.advance >>= fun _ => pure (none : Option Expr))
      (Parse.report .unexpectedToken s.front.span message >>= fun _ =>
        Parse.advance >>= fun _ => pure none) s.look fun _ => Advances s := by
  refine returns_report fun s₁ h₁ => returns_advance (.pure ?_)
  have h₁ : s₁.rest = s.rest := h₁.trans s.look_rest
  have hpass := consumes_pass (s := s₁) (by rwa [front_congr h₁ hs])
  exact ⟨h₁ ▸ hpass.suffix, .inr (h₁ ▸ hpass.consumed)⟩

theorem finishes_primary (ih : FinishesAt fuel) (s : ParserState)
    (h : 8 * weight s.rest + 2 ≤ fuel + 1) :
    Returns primary (Parse.primary (fuel + 1)) s fun _ => Advances s := by
  rw [primary, Call.answer, Parse.primary]
  refine returns_peek ?_
  -- by the kind of the token in front, as in the parser
  cases hk : s.front.kind with
  | number | string | identifier => exact finishes_leaf s _
  | invalid => exact finishes_leaf s _
  | endOfScript =>
    refine returns_complain fun s₁ h₁ => .pure ⟨?_, .inl hk⟩
    -- at the end of the script only the report is made
    exact s.look_rest ▸ h₁
  | template =>
    have := s.front_length_le (by simp [hk])
    refine returns_advance ((ih.template _ s.front (by omega)).bind fun x s₁ h₁ => .pure ?_)
    rw [s.look_pass] at h₁
    exact s.advances_pass.trans (h₁ ▸ List.suffix_refl _)
  | keyword k =>
    cases k
    case «true» | «false» | null | undefined => exact finishes_leaf s _
    case new =>
      have := (consumes_pass (s := s) (by simp [hk])).weight_lt
      exact (ih.construct s.look (by rw [s.look_pass]; omega)).imp fun x s₁ h₁ => h₁.of_look
    all_goals exact finishes_other (by simp [hk]) _
  | symbol y =>
    have hpass := consumes_pass (s := s) (by simp [hk])
    have := hpass.weight_lt
    cases y
    case leftParen =>
      refine returns_advance ?_
      rw [s.look_pass]
      refine (ih.binary s.pass 0 (by omega)).bind fun inner s₁ h₁ => ?_
      refine returns_expect fun closing s₂ h₂ _ => ?_
      have h₂ := (hpass.advances.trans h₁.suffix).trans h₂
      cases inner with
      | none => exact .pure h₂
      | some inner => exact .pure h₂
    case leftBracket =>
      refine returns_advance ?_
      rw [s.look_pass]
      refine (ih.listUntil s.pass _ _ _ (by simp) (by omega)).bind fun r s₁ h₁ => .pure ?_
      exact hpass.advances.trans h₁.suffix
    all_goals exact finishes_other (by simp [hk]) _

theorem finishes_construct (ih : FinishesAt fuel) (s : ParserState)
    (h : 8 * weight s.pass.rest + 8 ≤ fuel + 1) :
    Returns construct (Parse.construct (fuel + 1)) s fun _ => Advances s := by
  rw [construct, Call.answer, Parse.construct]
  refine returns_advance (returns_at? ?_)
  have hcallee : Returns
      (if decide (s.pass.front.kind = .keyword .new) = true then construct else primary)
      (if decide (s.pass.front.kind = .keyword .new) = true then Parse.construct fuel
        else Parse.primary fuel) s.pass.look fun _ => Advances s.pass := by
    refine .ite (fun hnew => ?_) fun _ => ?_
    · have := (consumes_pass (s := s.pass) (by simp [of_decide_eq_true hnew])).weight_lt
      exact (ih.construct s.pass.look (by rw [s.pass.look_pass]; omega)).imp fun _ _ => .of_look
    · exact (ih.primary s.pass.look (by rw [s.pass.look_rest]; omega)).imp fun _ _ => .of_look
  refine hcallee.join fun callee s₁ h₁ => ?_
  have h₁ := h₁.suffix
  cases callee with
  | none => exact .pure (s.advances_pass.trans h₁)
  | some first =>
    have := weight_le_of_suffix h₁
    refine (ih.properties s₁ first (by omega)).bind fun callee s₂ h₂ => ?_
    have h₂ := h₂.suffix.trans h₁
    refine returns_at? (.ite (fun hparen => ?_) fun _ => .pure ?_)
    · have := weight_le_of_suffix h₂
      have := (consumes_pass (s := s₂) (by simp [of_decide_eq_true hparen])).weight_lt
      refine (ih.arguments s₂.look (by rw [s₂.look_pass]; omega)).bind fun r s₃ h₃ => .pure ?_
      exact s.advances_pass.trans (h₃.of_look.suffix.trans h₂)
    · exact s.advances_pass.trans (s₂.look_rest.symm ▸ h₂)

theorem finishes_properties (ih : FinishesAt fuel) (s : ParserState) (base : Expr)
    (h : 8 * weight s.rest + 1 ≤ fuel + 1) :
    Returns (properties base) (Parse.properties (fuel + 1) base) s (Prolongs s base) := by
  rw [properties, Call.answer, Parse.properties]
  refine returns_at? (.ite (fun hdot => returns_advance ?_) fun _ => .pure ?_)
  · have hpass := consumes_pass (s := s) (by
      intro hend
      simp [hend] at hdot)
    have := hpass.weight_lt
    rw [s.look_pass]
    refine returns_expectName fun name s₁ h₁ => ?_
    have h₁ := hpass.trans h₁
    cases name with
    | none => exact .pure (h₁.prolongs base base)
    | some name =>
      have := h₁.weight_lt
      exact (ih.properties s₁ _ (by omega)).imp fun x s₂ h₂ => (h₁.trans h₂.suffix).prolongs base x
  · exact ⟨by simp, .inl ⟨by simp, rfl⟩⟩

theorem finishes_template (ih : FinishesAt fuel) (s : ParserState) (t : Token)
    (h : 8 * t.text.length + 1 ≤ fuel + 1) :
    Returns (template t) (Parse.template (fuel + 1) t) s fun _ s' => s'.rest = s.rest := by
  have hfits : Fits fuel (templateOf t.span.start t.text).parts := by
    intro p hp
    have := templateOf_inside _ _ p hp
    have := List.length_pos_of_mem hp
    omega
  rw [template, Call.answer, Parse.template]
  refine (ih.substitutions s _ #[] hfits).bind fun parts s₁ h₁ => ?_
  cases (templateOf t.span.start t.text).unclosed with
  | none => exact .pure h₁
  | some pos => exact returns_get (returns_report fun s₂ h₂ => .pure (h₂.trans h₁))

theorem finishes_substitutions (ih : FinishesAt fuel) (s : ParserState) (ps : List TemplatePart)
    (acc : Array (Bytes × Expr)) (h : Fits (fuel + 1) ps) :
    Returns (substitutions ps acc) (Parse.substitutions (fuel + 1) ps acc) s
      fun _ s' => s'.rest = s.rest := by
  cases ps with
  | nil =>
    rw [substitutions, Call.answer, Parse.substitutions]
    exact .pure rfl
  | cons p ps =>
    have hp := h p List.mem_cons_self
    rw [List.length_cons] at hp
    have hps : Fits fuel ps := by
      intro q hq
      have := h q (List.mem_cons_of_mem _ hq)
      rw [List.length_cons] at this
      omega
    rw [substitutions, Call.answer, Parse.substitutions]
    refine (ih.substitution s p.start p.stop (by omega)).bind fun x s₁ h₁ => ?_
    exact (ih.substitutions s₁ ps _ hps).imp fun _ s₂ h₂ => h₂.trans h₁

theorem finishes_substitution (ih : FinishesAt fuel) (s : ParserState) (start stop : Nat)
    (h : 8 * (stop - start + 1) + 5 ≤ fuel + 1) :
    Returns (substitution start stop) (Parse.substitution (fuel + 1) start stop) s
      fun _ s' => s'.rest = s.rest := by
  have hweight := weight_lexemesIn s.source s.file start stop
  rw [substitution, Call.answer, Parse.substitution]
  have hset : Returns (set (s.inside start stop)) (set (s.inside start stop)) s
      fun _ s' => s' = s.inside start stop := ⟨rfl, rfl⟩
  refine returns_get (hset.bind ?_)
  rintro - s₁ rfl
  refine (ih.binary (s.inside start stop) 0 ?_).bind fun x s₂ _ => returns_peek ?_
  · show 8 * weight (lexemesIn s.source s.file start stop) + 4 ≤ fuel
    omega
  · -- whatever was read, the tokens around it are put back
    exact .ite (fun _ => ⟨rfl, rfl⟩) fun _ => returns_report fun _ _ => ⟨rfl, rfl⟩

theorem finishesAt (fuel : Nat) : FinishesAt fuel := by
  induction fuel with
  | zero => exact finishesAt_zero
  | succ fuel ih =>
    exact {
      binary := finishes_binary ih
      climb := finishes_climb ih
      ternary := finishes_ternary ih
      unary := finishes_unary ih
      chain := finishes_chain ih
      arguments := finishes_arguments ih
      listUntil := finishes_listUntil ih
      items := finishes_items ih
      primary := finishes_primary ih
      construct := finishes_construct ih
      properties := finishes_properties ih
      template := finishes_template ih
      substitutions := finishes_substitutions ih
      substitution := finishes_substitution ih }

/-! ## Statements -/

/-- One round consumes a token. -/
theorem finishes_round (s : ParserState) (acc : Array Expr) (hs : s.front.kind ≠ .endOfScript)
    (h : 8 * weight s.rest + 4 ≤ fuel) :
    Returns (round acc) (Parse.round fuel acc) s fun _ => Consumes s := by
  have ih := finishesAt fuel
  rw [round, Call.answer, Parse.round]
  refine returns_peek (.ite (fun _ => returns_advance (.pure ?_)) fun _ => ?_)
  · rw [s.look_pass]
    exact consumes_pass hs
  · refine (ih.binary s.look 0 (by rw [s.look_rest]; omega)).bind fun x s₁ h₁ => ?_
    have h₁ := h₁.of_look.consumes hs
    cases x with
    | none => exact .pure h₁
    | some x =>
      refine returns_peek (.ite (fun _ => .pure (h₁.trans ?_)) fun _ =>
        .ite (fun _ => ?_) fun _ => ?_)
      · simp
      · exact returns_advance (.pure (h₁.trans (by simpa using s₁.pass_suffix)))
      · refine returns_report fun s₂ h₂ => returns_advance (.pure (h₁.trans ?_))
        simpa [h₂] using s₂.pass_suffix

theorem finishes_statements (s : ParserState) (acc : Array Expr)
    (h : 8 * weight s.rest + 5 ≤ fuel) :
    Returns (statements acc) (Parse.statements fuel acc) s
      fun _ s' => s'.front.kind = .endOfScript := by
  induction fuel generalizing s acc with
  | zero => omega
  | succ fuel ih =>
    rw [statements, Call.answer, Parse.statements_succ]
    refine returns_peek (.ite (fun hend => .pure (by simpa using hend)) fun hs => ?_)
    have hfuel : 8 * weight s.look.rest + 4 ≤ fuel := by rw [s.look_rest]; omega
    have hround := finishes_round s.look acc (by simpa using hs) hfuel
    refine hround.bind fun acc s₁ h₁ => ih s₁ acc ?_
    have := h₁.weight_lt
    rw [s.look_rest] at this
    omega

/-- From `s` every function ends.  What reads an operand, a list or a conditional consumes a token
or stands at the end; what extends an operand that was read consumes a token or gives the operand
back; what reads the inside of a template keeps the tokens behind the template. -/
structure EndsFrom (s : ParserState) : Prop where
  binary : ∀ floor, Ends (binary floor) s fun _ => Advances s
  ternary : ∀ cond, Ends (ternary cond) s fun _ => Advances s
  unary : Ends unary s fun _ => Advances s
  primary : Ends primary s fun _ => Advances s
  construct : Ends construct s fun _ => Advances s
  arguments : Ends arguments s fun _ => Advances s
  listUntil : ∀ closing code message, closing ≠ .endOfScript →
    Ends (listUntil closing code message) s fun _ => Advances s
  items : ∀ closing acc, Ends (items closing acc) s fun _ s' => s'.rest <:+ s.rest
  climb : ∀ floor left, Ends (climb floor left) s (Prolongs s left)
  chain : ∀ base, Ends (chain base) s (Prolongs s base)
  properties : ∀ base, Ends (properties base) s (Prolongs s base)
  template : ∀ t, Ends (template t) s fun _ s' => s'.rest = s.rest
  substitution : ∀ start stop, Ends (substitution start stop) s fun _ s' => s'.rest = s.rest

theorem endsFrom (s : ParserState) : EndsFrom s where
  binary _ := ((finishesAt _).binary s _ (Nat.le_refl _)).ends
  ternary _ := ((finishesAt _).ternary s _ (Nat.le_refl _)).ends
  unary := ((finishesAt _).unary s (Nat.le_refl _)).ends
  primary := ((finishesAt _).primary s (Nat.le_refl _)).ends
  construct := ((finishesAt _).construct s (Nat.le_refl _)).ends
  arguments := ((finishesAt _).arguments s (Nat.le_refl _)).ends
  listUntil _ _ _ hclosing := ((finishesAt _).listUntil s _ _ _ hclosing (Nat.le_refl _)).ends
  items _ _ := (((finishesAt _).items s _ _ (Nat.le_refl _)).imp fun _ _ h => h.1).ends
  climb _ _ := ((finishesAt _).climb s _ _ (Nat.le_refl _)).ends
  chain _ := ((finishesAt _).chain s _ (Nat.le_refl _)).ends
  properties _ := ((finishesAt _).properties s _ (Nat.le_refl _)).ends
  template _ := ((finishesAt _).template s _ (Nat.le_refl _)).ends
  substitution _ _ := ((finishesAt _).substitution s _ _ (Nat.le_refl _)).ends

end Unbounded

/-- Every text, well formed or not, is parsed to its end: without fuel, and so with any fuel that is
no less than what a text of its length is given.  Every round over the statements consumes a token,
every function ends from every state (`EndsFrom`), and a substitution lies in its template and is
shorter than it. -/
theorem parse_terminates (text : Bytes) (file : FileId) (maxErrors : Nat) :
    Unbounded.parse text file maxErrors = some (parse text file maxErrors)
      ∧ (∀ fuel, parseFuel text.length ≤ fuel →
        Unbounded.statements #[] (.atStart text file maxErrors)
          = some (Parse.statements fuel #[] (.atStart text file maxErrors)))
      ∧ (∀ s acc, s.front.kind ≠ .endOfScript →
        Unbounded.Ends (Unbounded.round acc) s fun _ => s.Consumes)
      ∧ (∀ s, Unbounded.EndsFrom s)
      ∧ (∀ t : Token, ∀ p ∈ (templateOf t.span.start t.text).parts, t.span.start < p.start
        ∧ p.start ≤ p.stop ∧ p.stop ≤ t.span.start + t.text.length
        ∧ p.stop - p.start < t.text.length)
      ∧ LoopsEnd := by
  have hstart : 8 * weight (ParserState.atStart text file maxErrors).rest + 5
      ≤ parseFuel text.length := by
    have := weight_lexemes file 0 text
    simp only [ParserState.atStart, parseFuel]
    omega
  have hall (fuel : Nat) (h : parseFuel text.length ≤ fuel) :=
    (Unbounded.finishes_statements (.atStart text file maxErrors) #[] (Nat.le_trans hstart h)).1
  refine ⟨?_, hall, ?_, Unbounded.endsFrom, ?_, loopsEnd⟩
  · rw [Unbounded.parse, hall _ (Nat.le_refl _)]
    rfl
  · intro s acc hs
    exact (Unbounded.finishes_round s acc hs (Nat.le_refl _)).ends
  · intro t p hp
    have := templateOf_inside _ _ p hp
    omega

/-- A list that is not closed around a template in a template, with an operand missing in it: what
can be read is kept, everything else is reported, and twice the fuel changes nothing. -/
theorem parse_terminates_unclosed :
    let text : Bytes := "[`a$\x7bf(`b$\x7b1 +\x7dc`)\x7d`, ) 2"
    let start := ParserState.atStart text 0 0
    Unbounded.parse text 0 0 = some (parse text 0 0)
      ∧ Unbounded.statements #[] start
          = some (Parse.statements (2 * parseFuel text.length) #[] start)
      ∧ Unbounded.Ends (Unbounded.round #[]) start (fun _ => start.Consumes)
      ∧ (parse text 0 0).script.length = 1 ∧ (parse text 0 0).diagnostics.length = 5 := by
  intro text start
  have h := parse_terminates text 0 0
  refine ⟨h.1, h.2.1 _ (by omega), h.2.2.1 start #[] ?_, ?_, ?_⟩
  all_goals decide +kernel

end Storyline.Script
