import Mathlib.Data.List.Basic
import Storyline.Proofs.Script.Grammar
import Storyline.Proofs.Script.Places
import Storyline.Proofs.Script.Reading

/-!
# What is a script, the parser accepts

Tokens that spell trees which respect the precedence table are read back to these trees, and
nothing is reported.  The proof is by recursion on the tree.  A tree grows to the left while the
parser reads from the left, so the statements about operators and about properties speak of the
loop that is under way: reading the tokens of a tree leads the loop to the point where the tree is
its left operand.

As in the other direction there has to be enough fuel, eight calls for every byte of a token.
-/

namespace Storyline.Script

open ParserState (Follows)

/-! ## Tokens to come -/

/-- The kind of the next token. -/
def nextKind : List Lexeme → TokenKind
  | [] => .endOfScript
  | l :: _ => l.token.kind

@[simp] theorem nextKind_cons (l : Lexeme) (ls : List Lexeme) : nextKind (l :: ls) = l.token.kind :=
  rfl

theorem ParserState.front_kind (s : ParserState) : s.front.kind = nextKind s.rest := by
  unfold front nextKind
  split <;> simp_all

theorem ParserState.front_cons {s : ParserState} {l : Lexeme} {ls : List Lexeme}
    (h : s.rest = l :: ls) : s.front = l.token := by
  simp [front, h]

/-- Whether a token extends an operand: by a property, an index, arguments or an operator after
it. -/
def TokenKind.extendsOperand (k : TokenKind) : Bool :=
  k = .symbol .dot || k = .symbol .leftBracket || k = .symbol .leftParen
    || k = .symbol .plusPlus || k = .symbol .minusMinus

theorem extendsNew_of_extendsOperand {k : TokenKind} (h : k.extendsOperand = false) :
    k.extendsNew = false := by
  simp only [TokenKind.extendsOperand, Bool.or_eq_false_iff] at h
  simp [TokenKind.extendsNew, h.1.1.1.1, h.1.1.2]

theorem extendsOperand_of_binding {k : TokenKind} {b : Binding} (h : k.binding? = some b) :
    k.extendsOperand = false := by
  cases k with
  | symbol s => cases s <;> first | rfl | cases h
  | _ => rfl

/-- A state whose tokens come without reports; its templates stand where they say. -/
def Silent (s : ParserState) : Prop :=
  ∀ l ∈ s.rest, l.notices = []
    ∧ (l.token.kind = .template → l.token.text <+: s.source.toList.drop l.token.span.start)

/-- A run that reported nothing and left the tokens `rest`. -/
structure Reaches (s s' : ParserState) (rest : List Lexeme) : Prop where
  rest : s'.rest = rest
  log : s'.log = s.log
  source : s'.source = s.source
  silent : Silent s'

namespace Reaches

variable {s t u : ParserState} {ts us : List Lexeme}

theorem trans (h : Reaches s t ts) (k : Reaches t u us) : Reaches s u us :=
  ⟨k.rest, k.log.trans h.log, k.source.trans h.source, k.silent⟩

theorem front_kind (h : Reaches s t ts) : t.front.kind = nextKind ts := by
  rw [t.front_kind, h.rest]

theorem look (hs : Silent s) : Reaches s s.look s.rest := by
  have hsource := s.follows_look.source
  refine ⟨s.look_rest, ?_, hsource, ?_⟩
  · unfold ParserState.look
    split
    · rfl
    · rename_i l ls hrest
      split
      · rfl
      · simp [(hs l (by simp [hrest])).1]
  · unfold Silent
    rw [s.look_rest, hsource]
    exact hs

theorem pass (hs : Silent s) {l : Lexeme} {ls : List Lexeme} (hrest : s.rest = l :: ls)
    (hk : l.token.kind ≠ .endOfScript) : Reaches s s.pass ls := by
  have hfront := ParserState.front_cons hrest
  have hlook := look hs
  have hpass : s.pass.rest = ls ∧ s.pass.log = s.look.log ∧ s.pass.source = s.look.source := by
    simp [ParserState.pass, hfront, hk, hrest]
  refine ⟨hpass.1, hpass.2.1.trans hlook.log, hpass.2.2.trans hlook.source, ?_⟩
  intro m hm
  rw [hpass.1] at hm
  rw [hpass.2.2, hlook.source]
  exact hs m (by simp [hrest, hm])

theorem weight_eq (h : Reaches s t ts) : weight t.rest = weight ts := by
  rw [h.rest]

end Reaches

/-! ## Taking tokens apart -/

theorem formsIn_eq_append {ts : List Lexeme} {us vs : List Form} (h : formsIn ts = us ++ vs) :
    ∃ as bs, ts = as ++ bs ∧ formsIn as = us ∧ formsIn bs = vs := by
  obtain ⟨as, bs, rfl, has, hbs⟩ := List.map_eq_append_iff.mp h
  exact ⟨as, bs, rfl, has, hbs⟩

theorem formsIn_eq_cons {ts : List Lexeme} {f : Form} {vs : List Form}
    (h : formsIn ts = f :: vs) :
    ∃ l bs, ts = l :: bs ∧ l.token.kind = f.kind ∧ l.token.text = f.text ∧ formsIn bs = vs := by
  obtain ⟨l, bs, rfl, hl, hbs⟩ := List.map_eq_cons_iff.mp h
  exact ⟨l, bs, rfl, congrArg Form.kind hl, congrArg Form.text hl, hbs⟩

theorem Form.word_isPropertyName (n : Bytes) : (Form.word n).kind.isPropertyName = true := by
  unfold Form.word
  cases Keyword.ofBytes? n <;> rfl

/-- Whether an expression can start with a token. -/
def TokenKind.startsTree : TokenKind → Bool
  | .number | .string | .template | .identifier => true
  | .keyword .true | .keyword .false | .keyword .null | .keyword .undefined | .keyword .new => true
  | .symbol .leftParen | .symbol .leftBracket => true
  | k => k.isPrefixOperator

namespace Expr

/-- How the tokens of a tree start; an operand does not start with an operator. -/
-- Induction down the left side of the tree, where its first form is found.  What binds tighter than
-- any operator has nothing before its operand, and only these cases need the last part.
theorem first_of_spells : ∀ (e : Expr) {ts : List Form}, Spells ts e → e.Respects →
    ∃ f us, ts = f :: us ∧ f.kind.startsTree = true
      ∧ (e.strength = tightest → f.kind.isPrefixOperator = false)
  | .literal _ .number _ _, _, rfl, _ | .literal _ .string _ _, _, rfl, _
  | .identifier _ _, _, rfl, _ => ⟨_, _, rfl, rfl, fun _ => rfl⟩
  | .literal _ .bool raw _, _, rfl, ⟨h, _⟩ => by
    rcases h with rfl | rfl <;> exact ⟨_, _, rfl, by decide, fun _ => by decide⟩
  | .literal _ .null raw _, _, rfl, ⟨h, _⟩ | .literal _ .undefined raw _, _, rfl, ⟨h, _⟩ => by
    subst h
    exact ⟨_, _, rfl, by decide, fun _ => by decide⟩
  | .member _ b _ _, _, ⟨us, rfl, hus⟩, ⟨hb, _, hr⟩ => by
    obtain ⟨f, vs, rfl, hf, hop⟩ := first_of_spells b hus hr
    exact ⟨f, _, rfl, hf, fun _ => hop hb⟩
  | .index _ b _, _, ⟨us, _, rfl, hus, _⟩, ⟨hb, hr, _⟩ => by
    obtain ⟨f, vs, rfl, hf, hop⟩ := first_of_spells b hus hr
    exact ⟨f, _, rfl, hf, fun _ => hop hb⟩
  | .call _ c _, _, ⟨us, _, rfl, hus, _⟩, ⟨hb, _, hr, _⟩ => by
    obtain ⟨f, vs, rfl, hf, hop⟩ := first_of_spells c hus hr
    exact ⟨f, _, rfl, hf, fun _ => hop hb⟩
  | .array _ _, _, ⟨_, rfl, _⟩, _ | .group _ _, _, ⟨_, rfl, _⟩, _
  | .construct _ _ _ _, _, ⟨_, _, rfl, _⟩, _ | .template _ _ _, _, ⟨_, rfl, _⟩, _ =>
    ⟨_, _, rfl, rfl, fun _ => rfl⟩
  -- a binary operator binds less than the tightest, so nothing is asked of its first form
  | .binary _ op l _, _, ⟨us, _, rfl, hus, _⟩, ⟨⟨b, hb, _⟩, hr, _⟩ => by
    obtain ⟨f, vs, rfl, hf, _⟩ := first_of_spells l hus hr
    refine ⟨f, _, rfl, hf, fun hs => ?_⟩
    have := (TokenKind.strength_lt hb).2
    simp only [strength, hb, Option.map_some, Option.getD_some] at hs
    unfold prefixStrength tightest at *
    omega
  | .ternary _ c _ _, _, ⟨us, _, _, rfl, hus, _⟩, ⟨_, hr, _⟩ => by
    obtain ⟨f, vs, rfl, hf, _⟩ := first_of_spells c hus hr
    exact ⟨f, _, rfl, hf, fun hs => by simp [strength, assignmentStrength, tightest] at hs⟩
  | .trailing _ _ x, _, ⟨us, rfl, hus⟩, ⟨_, _, hr⟩ => by
    obtain ⟨f, vs, rfl, hf, _⟩ := first_of_spells x hus hr
    exact ⟨f, _, rfl, hf, fun hs => by simp [strength, trailingStrength, tightest] at hs⟩
  | .unary _ op _, _, ⟨us, rfl, _⟩, ⟨hop, _⟩ => by
    refine ⟨_, us, rfl, ?_, fun hs => by simp [strength, prefixStrength, tightest] at hs⟩
    rw [Form.of_kind]
    unfold TokenKind.startsTree
    split <;> first | rfl | exact hop
  | .missing, _, h, _ => h.elim

end Expr

/-! ## Statements about trees -/

namespace Parse

/-- Reads what the word `new` constructs. -/
def callee (fuel : Nat) (s : ParserState) : Option Expr × ParserState :=
  if s.front.kind = .keyword .new then construct fuel s.look else primary fuel s.look

/-- The run of a parser returned a tree, up to the places of its nodes, and left `rest`. -/
def Returns (r : Option Expr × ParserState) (s : ParserState) (e : Expr) (rest : List Lexeme) :
    Prop :=
  ∃ e' s', r = (some e', s') ∧ e'.erase = e.erase ∧ Reaches s s' rest

/-- What stands before a state: tokens that spell a tree, and more. -/
structure Faces (s : ParserState) (ts rest : List Lexeme) (e : Expr) : Prop where
  silent : Silent s
  rest : s.rest = ts ++ rest
  spells : Spells (formsIn ts) e
  respects : e.Respects

/-- Something in brackets, a word, a literal or a construction is read as an operand. -/
def CompleteOperand (e : Expr) : Prop :=
  ∀ {s : ParserState} {ts rest : List Lexeme} {fuel : Nat}, Faces s ts rest e →
    (e.isOpenNew = true → (nextKind rest).extendsNew = false) → 8 * weight s.rest + 2 ≤ fuel →
    Returns (primary fuel s) s e rest ∧ Returns (callee fuel s) s e rest

/-- The loop over properties arrives at the tree. -/
def CompleteCallee (e : Expr) : Prop :=
  ∀ {s : ParserState} {ts rest : List Lexeme} {fuel : Nat}, e.isCallee = true → Faces s ts rest e →
    (e.isOpenNew = true → (nextKind rest).extendsNew = false) → 8 * weight s.rest + 2 ≤ fuel →
    ∃ x t e' s' fuel', callee fuel s = (some x, t) ∧ properties fuel x t = properties fuel' e' s'
      ∧ e'.erase = e.erase ∧ Reaches s s' rest ∧ 8 * weight rest + 1 ≤ fuel'

/-- The loop over what follows an operand arrives at the tree. -/
def CompleteChain (e : Expr) : Prop :=
  ∀ {s : ParserState} {ts rest : List Lexeme} {fuel : Nat}, e.strength = Expr.tightest →
    Faces s ts rest e → (e.isOpenNew = true → (nextKind rest).extendsNew = false) →
    8 * weight s.rest + 2 ≤ fuel →
    ∃ x t e' s' fuel', primary fuel s = (some x, t) ∧ chain fuel x t = chain fuel' e' s'
      ∧ e'.erase = e.erase ∧ Reaches s s' rest ∧ 8 * weight rest + 2 ≤ fuel'

/-- The tree is read as an operand of an operator between operands. -/
def CompleteUnary (e : Expr) : Prop :=
  ∀ {s : ParserState} {ts rest : List Lexeme} {fuel : Nat}, Expr.prefixStrength ≤ e.strength →
    Faces s ts rest e → (nextKind rest).extendsOperand = false → 8 * weight s.rest + 3 ≤ fuel →
    Returns (unary fuel s) s e rest

/-- The loop over operators between operands arrives at the tree. -/
def CompleteClimb (e : Expr) : Prop :=
  ∀ {s : ParserState} {ts rest : List Lexeme} {fuel floor : Nat}, floor < e.strength →
    floor < Expr.prefixStrength → Faces s ts rest e → (nextKind rest).extendsOperand = false →
    (nextKind rest).pull ≤ e.rightFloor → 8 * weight s.rest + 3 ≤ fuel →
    ∃ x t e' s' fuel', unary fuel s = (some x, t)
      ∧ climb fuel floor x t = climb fuel' floor e' s' ∧ e'.erase = e.erase ∧ Reaches s s' rest
      ∧ 8 * weight rest + 2 ≤ fuel'

/-- The tree is read back, wherever it stands. -/
structure Complete (e : Expr) : Prop where
  callee : CompleteCallee e
  chain : CompleteChain e
  unary : CompleteUnary e
  climb : CompleteClimb e

theorem Faces.weight_lt {s : ParserState} {ts rest : List Lexeme} {e : Expr}
    (h : Faces s ts rest e) : weight rest < weight s.rest := by
  have hne : ts ≠ [] := by
    rintro rfl
    exact h.spells.ne_nil rfl
  have := weight_pos hne
  rw [h.rest, weight_append]
  omega

/-! ## Where the loops stop -/

theorem climb_stops {fuel floor : Nat} {left : Expr} {s : ParserState}
    (h : s.front.kind.pull ≤ floor) : climb (fuel + 1) floor left s = (left, s.look) := by
  rw [climb]
  simp only [bind_run, peek_run]
  by_cases hquestion : s.front.kind = .symbol .question
  · have hle : assignmentStrength ≤ floor := by
      rw [hquestion] at h
      exact h
    simp only [hquestion, if_true, hle, pure_run]
  · simp only [hquestion, if_false]
    cases hb : s.front.kind.binding? with
    | none => rfl
    | some b =>
      rw [TokenKind.pull_of_binding hb] at h
      simp only [h, if_true, pure_run]

theorem chain_stops {fuel : Nat} {base : Expr} {s : ParserState}
    (h : s.front.kind.extendsOperand = false) : chain (fuel + 1) base s = (base, s.look) := by
  simp only [TokenKind.extendsOperand, Bool.or_eq_false_iff, decide_eq_false_iff_not] at h
  obtain ⟨⟨⟨⟨hdot, hbracket⟩, hparen⟩, hplus⟩, hminus⟩ := h
  rw [chain]
  simp only [bind_run, peek_run, hdot, hbracket, hparen, hplus, hminus, decide_false,
    Bool.or_false, Bool.false_eq_true, if_false, pure_run]

theorem properties_stops {fuel : Nat} {base : Expr} {s : ParserState}
    (h : s.front.kind ≠ .symbol .dot) : properties (fuel + 1) base s = (base, s.look) := by
  rw [properties]
  simp only [bind_run, at?_run, h, decide_false, Bool.false_eq_true, if_false, pure_run]

/-- The whole of an expression is read if the operator after it does not bind more tightly than
`floor`. -/
theorem Complete.binary {e : Expr} (h : Complete e) (fuel floor : Nat) {s : ParserState}
    {ts rest : List Lexeme} (hstrong : floor < e.strength) (hfloor : floor < Expr.prefixStrength)
    (hs : Faces s ts rest e) (hnext : (nextKind rest).extendsOperand = false)
    (hpull : (nextKind rest).pull ≤ floor) (hfuel : 8 * weight s.rest + 4 ≤ fuel) :
    Returns (binary fuel floor s) s e rest := by
  obtain ⟨fuel, rfl⟩ : ∃ n, fuel = n + 1 := ⟨fuel - 1, by omega⟩
  have hright := Expr.strength_le_rightFloor hs.respects
  obtain ⟨x, t, e', s', fuel', hunary, hclimb, herase, hreach, hfuel'⟩ :=
    h.climb hstrong hfloor hs hnext (by omega) (by omega : _ ≤ fuel)
  obtain ⟨fuel', rfl⟩ : ∃ n, fuel' = n + 1 := ⟨fuel' - 1, by omega⟩
  rw [climb_stops (by rw [hreach.front_kind]; exact hpull)] at hclimb
  have hlook := Reaches.look hreach.silent
  rw [hreach.rest] at hlook
  refine ⟨e', s'.look, ?_, herase, hreach.trans hlook⟩
  rw [Parse.binary]
  simp only [bind_run, hunary, hclimb, pure_run]

theorem completeUnary_of_chain {e : Expr} (h : CompleteChain e)
    (hstrong : e.strength = Expr.tightest) : CompleteUnary e := by
  intro s ts rest fuel _ hs hnext hfuel
  obtain ⟨fuel, rfl⟩ : ∃ n, fuel = n + 1 := ⟨fuel - 1, by omega⟩
  obtain ⟨f, us, hts, _, hop⟩ := e.first_of_spells hs.spells hs.respects
  obtain ⟨l, bs, rfl, hkind, _, _⟩ := formsIn_eq_cons hts
  have hfront : s.front = l.token := ParserState.front_cons hs.rest
  have hlook := Reaches.look hs.silent
  have hfaces : Faces s.look (l :: bs) rest e :=
    ⟨hlook.silent, by rw [s.look_rest, hs.rest], hs.spells, hs.respects⟩
  obtain ⟨x, t, e', s', fuel', hprimary, hchain, herase, hreach, hfuel'⟩ :=
    h hstrong hfaces (fun _ => extendsNew_of_extendsOperand hnext)
      (by rw [s.look_rest]; omega : _ ≤ fuel)
  obtain ⟨fuel', rfl⟩ : ∃ n, fuel' = n + 1 := ⟨fuel' - 1, by omega⟩
  rw [chain_stops (by rw [hreach.front_kind]; exact hnext)] at hchain
  have hlook' := Reaches.look hreach.silent
  rw [hreach.rest] at hlook'
  refine ⟨e', s'.look, ?_, herase, (hlook.trans hreach).trans hlook'⟩
  rw [Parse.unary]
  simp only [bind_run, peek_run, hfront, hkind, hop hstrong, Bool.false_eq_true, if_false, hprimary,
    hchain, pure_run]

theorem completeClimb_of_unary {e : Expr} (h : CompleteUnary e)
    (hstrong : Expr.prefixStrength ≤ e.strength) : CompleteClimb e := by
  intro s ts rest fuel floor _ _ hs hnext _ hfuel
  obtain ⟨e', s', hrun, herase, hreach⟩ := h hstrong hs hnext hfuel
  have hw := hs.weight_lt
  exact ⟨e', s', e', s', fuel, hrun, rfl, herase, hreach, by omega⟩

/-- An operand is read back in every place. -/
theorem complete_of_chain {e : Expr} (hcallee : CompleteCallee e) (hchain : CompleteChain e)
    (hstrong : e.strength = Expr.tightest) : Complete e := by
  have hunary : CompleteUnary e := completeUnary_of_chain hchain hstrong
  refine ⟨hcallee, hchain, hunary, completeClimb_of_unary hunary ?_⟩
  rw [hstrong]
  decide

theorem complete_of_operand {e : Expr} (h : CompleteOperand e)
    (hstrong : e.strength = Expr.tightest) : Complete e := by
  refine complete_of_chain ?_ ?_ hstrong
  · intro s ts rest fuel _ hs hnew hfuel
    obtain ⟨_, e', s', hrun, herase, hreach⟩ := h hs hnew hfuel
    have hw := hs.weight_lt
    exact ⟨e', s', e', s', fuel, hrun, rfl, herase, hreach, by omega⟩
  · intro s ts rest fuel _ hs hnew hfuel
    obtain ⟨⟨e', s', hrun, herase, hreach⟩, _⟩ := h hs hnew hfuel
    have hw := hs.weight_lt
    exact ⟨e', s', e', s', fuel, hrun, rfl, herase, hreach, by omega⟩

/-- What the word `new` constructs is read like any operand, unless it is a construction. -/
theorem completeOperand_of_primary {e : Expr}
    (h : ∀ {s : ParserState} {ts rest : List Lexeme} {fuel : Nat}, Faces s ts rest e →
      8 * weight s.rest + 2 ≤ fuel → s.front.kind ≠ .keyword .new
        ∧ Returns (primary fuel s) s e rest) : CompleteOperand e := by
  intro s ts rest fuel hs _ hfuel
  obtain ⟨hkind, hprimary⟩ := h hs hfuel
  refine ⟨hprimary, ?_⟩
  obtain ⟨fuel, rfl⟩ : ∃ n, fuel = n + 1 := ⟨fuel - 1, by omega⟩
  rwa [callee, if_neg hkind, primary_look]

/-! ## Operands -/

theorem completeOperand_of_leaf {e : Expr}
    (h : ∀ ts, Spells ts e → e.Respects → ∃ f, ts = [f] ∧ f.kind ≠ .keyword .new
      ∧ f.kind ≠ .endOfScript ∧ ∀ t : Token, t.kind = f.kind → t.text = f.text →
        (leaf? t).map Expr.erase = some e.erase) : CompleteOperand e := by
  refine completeOperand_of_primary fun {s ts rest fuel} hs hfuel => ?_
  obtain ⟨fuel, rfl⟩ : ∃ n, fuel = n + 1 := ⟨fuel - 1, by omega⟩
  obtain ⟨f, hts, hnew, hend, hleaf⟩ := h _ hs.spells hs.respects
  obtain ⟨l, bs, rfl, hkind, htext, hbs⟩ := formsIn_eq_cons hts
  obtain rfl : bs = [] := formsIn_eq_nil.mp hbs
  have hfront : s.front = l.token := ParserState.front_cons hs.rest
  obtain ⟨e', he', herase⟩ := Option.map_eq_some_iff.mp (hleaf l.token hkind htext)
  refine ⟨by rwa [hfront, hkind], e', s.pass, ?_, herase, ?_⟩
  · exact primary_leaf fuel (by rw [hfront, he'])
  · exact Reaches.pass hs.silent hs.rest (by rwa [hkind])

theorem complete_literal (span : Span) (k : LiteralKind) (raw value : Bytes) :
    Complete (.literal span k raw value) := by
  refine complete_of_operand (completeOperand_of_leaf fun ts hts hfits => ?_) rfl
  cases k with
  | number =>
    refine ⟨_, hts, by simp, by simp, fun t hkind htext => ?_⟩
    obtain rfl : value = numberValue raw := hfits
    simp [leaf?, hkind, htext, Expr.erase]
  | string =>
    refine ⟨_, hts, by simp, by simp, fun t hkind htext => ?_⟩
    obtain rfl : value = stringValue raw := hfits
    simp [leaf?, hkind, htext, Expr.erase]
  | bool =>
    -- two words mean a truth value, and each has a kind of its own
    obtain ⟨hraw, rfl⟩ := hfits
    rcases hraw with rfl | rfl
    all_goals
      refine ⟨_, hts, by decide, by decide, fun t hkind htext => ?_⟩
    · have hkind' : t.kind = .keyword .true := hkind
      simp [leaf?, hkind', htext, Expr.erase, Form.word]
    · have hkind' : t.kind = .keyword .false := hkind
      simp [leaf?, hkind', htext, Expr.erase, Form.word]
  | null =>
    obtain ⟨rfl, rfl⟩ := hfits
    refine ⟨_, hts, by decide, by decide, fun t hkind htext => ?_⟩
    have hkind' : t.kind = .keyword .null := hkind
    simp [leaf?, hkind', htext, Expr.erase, Form.word]
  | undefined =>
    obtain ⟨rfl, rfl⟩ := hfits
    refine ⟨_, hts, by decide, by decide, fun t hkind htext => ?_⟩
    have hkind' : t.kind = .keyword .undefined := hkind
    simp [leaf?, hkind', htext, Expr.erase, Form.word]

theorem complete_identifier (span : Span) (n : Bytes) : Complete (.identifier span n) := by
  refine complete_of_operand (completeOperand_of_leaf fun ts hts _ => ?_) rfl
  refine ⟨_, hts, by simp, by simp, fun t hkind htext => ?_⟩
  simp [leaf?, hkind, htext, Expr.erase]

theorem expect_found {k : TokenKind} {code : Code} {message : Bytes} {s : ParserState}
    (h : s.front.kind = k) : expect k code message s = (some s.front, s.pass) := by
  rw [expect_run, if_pos h]

theorem complete_group {span : Span} {x : Expr} (h : Complete x) : Complete (.group span x) := by
  refine complete_of_operand (completeOperand_of_primary fun {s ts rest fuel} hs hfuel => ?_) rfl
  obtain ⟨fuel, rfl⟩ : ∃ n, fuel = n + 1 := ⟨fuel - 1, by omega⟩
  obtain ⟨us, hts, hus⟩ := hs.spells
  obtain ⟨l, bs, rfl, hl, _, hbs⟩ := formsIn_eq_cons hts
  obtain ⟨inner, ms, rfl, hinner, hms⟩ := formsIn_eq_append hbs
  obtain ⟨m, ns, rfl, hm, _, hns⟩ := formsIn_eq_cons hms
  obtain rfl : ns = [] := formsIn_eq_nil.mp hns
  rw [Form.symbol_kind] at hl hm
  have hrest : s.rest = l :: (inner ++ m :: rest) := by simp [hs.rest]
  have hfront : s.front.kind = .symbol .leftParen := by rw [ParserState.front_cons hrest, hl]
  have hpass := Reaches.pass hs.silent hrest (by simp [hl])
  have hw : weight s.rest = max 1 l.token.text.length + weight s.pass.rest := by
    rw [hrest, weight_cons, hpass.rest]
  obtain ⟨e', s1, hbinary, herase, hreach⟩ := h.binary fuel 0
    (Nat.lt_of_lt_of_le (by decide) (Expr.assignmentStrength_le hs.respects)) (by decide)
    ⟨hpass.silent, hpass.rest, by rwa [hinner], hs.respects⟩ (by simp [hm, TokenKind.extendsOperand])
    (by simp [hm, TokenKind.pull, TokenKind.binding?, Symbol.binding?]) (by omega)
  have hclosing : s1.front.kind = .symbol .rightParen := by rw [hreach.front_kind, nextKind_cons, hm]
  have hpass1 := Reaches.pass hreach.silent hreach.rest (by simp [hm])
  refine ⟨by simp [hfront], .group (s.front.span.cover s1.front.span) e', s1.pass, ?_,
    by simp [Expr.erase, herase], (hpass.trans hreach).trans hpass1⟩
  rw [primary_group fuel hfront]
  simp only [hbinary, expect_found hclosing, Option.map_some, Option.getD_some]

/-! ## Lists -/

theorem items_complete {xs : List Expr} (hxs : ∀ x ∈ xs, Complete x) {s : ParserState}
    {ts rest : List Lexeme} {closing : Symbol} (acc : Array Expr) (fuel : Nat) (hs : Silent s)
    (hrest : s.rest = ts ++ rest) (hspells : SpellsList (formsIn ts) xs)
    (hrespects : Expr.RespectsAll xs)
    (hclosing : closing = .rightParen ∨ closing = .rightBracket)
    (hnext : nextKind rest = .symbol closing) (hfuel : 8 * weight s.rest + 5 ≤ fuel) :
    ∃ xs' s', items fuel (.symbol closing) acc s = (acc.toList ++ xs', s')
      ∧ Expr.eraseAll xs' = Expr.eraseAll xs ∧ Reaches s s' rest := by
  -- By induction on the elements, for every accumulator; the fuel is compared with what is left to
  -- read, which shrinks with each element and its comma.
  induction xs generalizing s ts acc fuel with
  | nil =>
    -- the list is closed at once
    obtain ⟨fuel, rfl⟩ : ∃ n, fuel = n + 1 := ⟨fuel - 1, by omega⟩
    obtain rfl : ts = [] := formsIn_eq_nil.mp hspells
    have hlook := Reaches.look hs
    rw [hrest, List.nil_append] at hlook
    have hfront : s.front.kind = .symbol closing := by rw [s.front_kind, hrest]; exact hnext
    refine ⟨[], s.look, ?_, rfl, hlook⟩
    rw [Parse.items]
    simp [bind_run, peek_run, hfront, pure_run]
  | cons x xs ih =>
    obtain ⟨fuel, rfl⟩ : ∃ n, fuel = n + 1 := ⟨fuel - 1, by omega⟩
    obtain ⟨us, hus, hmore⟩ := hspells
    have hx := hrespects.1
    have hlook := Reaches.look hs
    have hstrong : 0 < x.strength :=
      Nat.lt_of_lt_of_le (by decide) (Expr.assignmentStrength_le hx)
    obtain ⟨f, fs, hfs, hstart, _⟩ := x.first_of_spells hus hx
    -- The first token of an item does not close the list.
    have hgo : ∀ l ls, s.rest = l :: ls → l.token.kind = f.kind →
        (s.front.kind = .symbol closing || s.front.kind = .endOfScript) = false := by
      intro l ls hl hkind
      rw [ParserState.front_cons hl, hkind]
      have hne : f.kind ≠ .symbol closing := by
        intro h
        rw [h] at hstart
        rcases hclosing with rfl | rfl <;> cases hstart
      have hend : f.kind ≠ .endOfScript := by
        intro h
        rw [h] at hstart
        cases hstart
      simp [hne, hend]
    rcases hmore with ⟨rfl, hts⟩ | ⟨vs, hts, hvs⟩
    -- the last element: what stands behind it is the closing bracket
    · have hfaces : Faces s.look ts rest x :=
        ⟨hlook.silent, by rw [s.look_rest, hrest], by rwa [hts], hx⟩
      obtain ⟨e', s1, hbinary, herase, hreach⟩ := (hxs x (by simp)).binary fuel 0 hstrong (by decide)
        hfaces
        (by rw [hnext]; rcases hclosing with rfl | rfl <;> rfl)
        (by rw [hnext]; rcases hclosing with rfl | rfl <;> decide)
        (by rw [s.look_rest]; omega)
      obtain ⟨l, bs, rfl, hkind, _⟩ := formsIn_eq_cons (hts.trans hfs)
      have hlook1 := Reaches.look hreach.silent
      rw [hreach.rest] at hlook1
      have hcomma : s1.front.kind ≠ .symbol .comma := by
        rw [hreach.front_kind, hnext]
        rcases hclosing with rfl | rfl <;> simp
      refine ⟨[e'], s1.look, ?_, by simp [Expr.eraseAll, herase],
        (hlook.trans hreach).trans hlook1⟩
      rw [Parse.items]
      simp only [bind_run, peek_run, hgo l _ hrest hkind, Bool.false_eq_true, if_false, hbinary,
        at?_run, hcomma, decide_false, pure_run, Array.toList_push]
    -- an element and a comma, and then what the induction says of the others
    · obtain ⟨as, bs, rfl, has, hbs⟩ := formsIn_eq_append hts
      obtain ⟨m, ms, rfl, hm, _, hms⟩ := formsIn_eq_cons hbs
      rw [Form.symbol_kind] at hm
      have hfaces : Faces s.look as (m :: ms ++ rest) x :=
        ⟨hlook.silent, by rw [s.look_rest, hrest, List.append_assoc], by rwa [has], hx⟩
      have hw := hfaces.weight_lt
      rw [s.look_rest] at hw
      obtain ⟨e', s1, hbinary, herase, hreach⟩ := (hxs x (by simp)).binary fuel 0 hstrong (by decide)
        hfaces (by simp [hm, TokenKind.extendsOperand])
        (by simp [hm, TokenKind.pull, TokenKind.binding?, Symbol.binding?])
        (by rw [s.look_rest]; omega)
      have hcomma : s1.front.kind = .symbol .comma := by
        rw [hreach.front_kind, List.cons_append, nextKind_cons, hm]
      have hpass : Reaches s1 s1.pass (ms ++ rest) :=
        Reaches.pass hreach.silent hreach.rest (by simp [hm])
      have hw1 : weight s1.pass.rest < weight s.rest := by
        rw [hpass.rest]
        rw [List.cons_append, weight_cons] at hw
        omega
      obtain ⟨xs', s2, hitems, herase', hreach'⟩ := ih (fun y hy => hxs y (by simp [hy]))
        (acc.push e') fuel hpass.silent hpass.rest (by rwa [hms]) hrespects.2 (by omega)
      obtain ⟨l, ls, rfl, hkind, _⟩ := formsIn_eq_cons (has.trans hfs)
      refine ⟨e' :: xs', s2, ?_, by simp [Expr.eraseAll, herase, herase'],
        ((hlook.trans hreach).trans hpass).trans hreach'⟩
      rw [Parse.items]
      simp only [bind_run, peek_run, hgo l _ (by rw [hrest]; rfl) hkind, Bool.false_eq_true,
        if_false, hbinary, at?_run, hcomma, decide_true, if_true, advance_run,
        ParserState.look_pass, hitems]
      simp

theorem listUntil_complete {xs : List Expr} (hxs : ∀ x ∈ xs, Complete x) {s : ParserState}
    {ts rest : List Lexeme} {us : List Form} {closing : Symbol} (code : Code) (message : Bytes)
    (fuel : Nat) (hs : Silent s) (hrest : s.rest = ts ++ rest)
    (hts : formsIn ts = us ++ [.symbol closing]) (hspells : SpellsList us xs)
    (hrespects : Expr.RespectsAll xs)
    (hclosing : closing = .rightParen ∨ closing = .rightBracket)
    (hfuel : 8 * weight s.rest + 6 ≤ fuel) :
    ∃ xs' stop s', listUntil fuel (.symbol closing) code message s = ((xs', stop), s')
      ∧ Expr.eraseAll xs' = Expr.eraseAll xs ∧ Reaches s s' rest := by
  obtain ⟨fuel, rfl⟩ : ∃ n, fuel = n + 1 := ⟨fuel - 1, by omega⟩
  obtain ⟨as, bs, rfl, rfl, hbs⟩ := formsIn_eq_append hts
  obtain ⟨m, ms, rfl, hm, _, hms⟩ := formsIn_eq_cons hbs
  obtain rfl : ms = [] := formsIn_eq_nil.mp hms
  rw [Form.symbol_kind] at hm
  obtain ⟨xs', s1, hitems, herase, hreach⟩ := items_complete hxs #[] fuel hs
    (by rw [hrest, List.append_assoc]) hspells hrespects hclosing (by simp [hm]) (by omega)
  have hfront : s1.front.kind = .symbol closing := by
    rw [hreach.front_kind, List.cons_append, nextKind_cons, hm]
  have hpass := Reaches.pass hreach.silent hreach.rest (by simp [hm])
  refine ⟨xs', s1.front.span, s1.pass, ?_, herase, hreach.trans hpass⟩
  rw [Parse.listUntil]
  simp only [bind_run, get_run, hitems, expect_found hfront, pure_run, Option.map_some,
    Option.getD_some, List.nil_append]

theorem arguments_complete {xs : List Expr} (hxs : ∀ x ∈ xs, Complete x) {s : ParserState}
    {ts rest : List Lexeme} {us : List Form} (fuel : Nat) (hs : Silent s)
    (hrest : s.rest = ts ++ rest)
    (hts : formsIn ts = .symbol .leftParen :: us ++ [.symbol .rightParen])
    (hspells : SpellsList us xs) (hrespects : Expr.RespectsAll xs)
    (hfuel : 8 * weight s.rest + 1 ≤ fuel) :
    ∃ xs' stop s', arguments fuel s = ((xs', stop), s')
      ∧ Expr.eraseAll xs' = Expr.eraseAll xs ∧ Reaches s s' rest := by
  obtain ⟨fuel, rfl⟩ : ∃ n, fuel = n + 1 := ⟨fuel - 1, by omega⟩
  obtain ⟨l, bs, rfl, hl, _, hbs⟩ := formsIn_eq_cons hts
  rw [Form.symbol_kind] at hl
  have hpass : Reaches s s.pass (bs ++ rest) := Reaches.pass hs hrest (by simp [hl])
  have hw : weight s.rest = max 1 l.token.text.length + weight s.pass.rest := by
    rw [hrest, List.cons_append, weight_cons, hpass.rest]
  obtain ⟨xs', stop, s1, hlist, herase, hreach⟩ := listUntil_complete hxs .unclosedParen
    "expected ')'" fuel hpass.silent hpass.rest hbs hspells hrespects (.inl rfl) (by omega)
  refine ⟨xs', if stop.isEmpty then s.front.span else stop, s1, ?_, herase, hpass.trans hreach⟩
  rw [Parse.arguments]
  simp only [bind_run, advance_run, hlist, pure_run]

theorem complete_array {span : Span} {xs : List Expr} (hxs : ∀ x ∈ xs, Complete x) :
    Complete (.array span xs) := by
  refine complete_of_operand (completeOperand_of_primary fun {s ts rest fuel} hs hfuel => ?_) rfl
  obtain ⟨fuel, rfl⟩ : ∃ n, fuel = n + 1 := ⟨fuel - 1, by omega⟩
  obtain ⟨us, hts, hus⟩ := hs.spells
  obtain ⟨l, bs, rfl, hl, _, hbs⟩ := formsIn_eq_cons hts
  rw [Form.symbol_kind] at hl
  have hrest : s.rest = l :: (bs ++ rest) := hs.rest
  have hfront : s.front.kind = .symbol .leftBracket := by rw [ParserState.front_cons hrest, hl]
  have hpass := Reaches.pass hs.silent hrest (by simp [hl])
  have hw : weight s.rest = max 1 l.token.text.length + weight s.pass.rest := by
    rw [hrest, weight_cons, hpass.rest]
  obtain ⟨xs', stop, s1, hlist, herase, hreach⟩ := listUntil_complete hxs .unclosedBracket
    "expected ']'" fuel hpass.silent hpass.rest hbs hus hs.respects (.inr rfl) (by omega)
  refine ⟨by simp [hfront], .array (s.front.span.cover stop) xs', s1, ?_,
    by simp [Expr.erase, herase], hpass.trans hreach⟩
  rw [primary_array fuel hfront]
  simp only [hlist]

/-! ## Constructions -/

theorem construct_complete {span : Span} {c : Expr} {args : List Expr} {hasArgs : Bool}
    (hc : Complete c) (hargs : ∀ x ∈ args, Complete x) {s : ParserState} {ts rest : List Lexeme}
    (fuel : Nat) (hs : Faces s ts rest (.construct span c args hasArgs))
    (hnew : hasArgs = false → (nextKind rest).extendsNew = false)
    (hfuel : 8 * weight s.rest + 1 ≤ fuel) :
    s.front.kind = .keyword .new
      ∧ Returns (construct fuel s) s (.construct span c args hasArgs) rest := by
  obtain ⟨fuel, rfl⟩ : ∃ n, fuel = n + 1 := ⟨fuel - 1, by omega⟩
  obtain ⟨us, vs, hts, hus, hvs⟩ := hs.spells
  obtain ⟨hcallee, hopen, hnone, hrc, hra⟩ := hs.respects
  obtain ⟨l, ls, rfl, hl, _, hls⟩ := formsIn_eq_cons hts
  obtain ⟨as, bs, rfl, has, hbs⟩ := formsIn_eq_append hls
  rw [Form.of_kind] at hl
  have hrest : s.rest = l :: (as ++ (bs ++ rest)) := by simp [hs.rest]
  have hfront : s.front.kind = .keyword .new := by rw [ParserState.front_cons hrest, hl]
  have hpass := Reaches.pass hs.silent hrest (by simp [hl])
  have hw : weight s.rest = max 1 l.token.text.length + weight s.pass.rest := by
    rw [hrest, weight_cons, hpass.rest]
  have hfaces : Faces s.pass as (bs ++ rest) c :=
    ⟨hpass.silent, hpass.rest, by rwa [has], hrc⟩
  have hw' := hfaces.weight_lt
  refine ⟨hfront, ?_⟩
  -- without arguments nothing behind the callee may be read as part of the construction
  cases hasArgs with
  | false =>
    obtain rfl : bs = [] := formsIn_eq_nil.mp (hbs.trans hvs)
    have hnext := hnew rfl
    obtain ⟨x, t, c', s1, fuel', hrun, hprops, herase, hreach, hfuel'⟩ :=
      hc.callee hcallee hfaces (fun _ => hnext) (by omega : _ ≤ fuel)
    obtain ⟨fuel', rfl⟩ : ∃ n, fuel' = n + 1 := ⟨fuel' - 1, by omega⟩
    simp only [TokenKind.extendsNew, Bool.or_eq_false_iff, decide_eq_false_iff_not] at hnext
    have hdot : s1.front.kind ≠ .symbol .dot := by
      rw [hreach.front_kind]
      exact hnext.1
    have hparen : s1.look.front.kind ≠ .symbol .leftParen := by
      rw [s1.look_front, hreach.front_kind]
      exact hnext.2
    rw [properties_stops hdot] at hprops
    have hlook := Reaches.look hreach.silent
    rw [hreach.rest] at hlook
    refine ⟨.construct (s.front.span.cover c'.span) c' [] false, s1.look, ?_,
      by simp [Expr.erase, herase, hnone rfl, Expr.eraseAll], (hpass.trans hreach).trans hlook⟩
    rw [construct_run]
    change (match callee fuel s.pass with | (none, s1) => _ | (some first, s1) => _) = _
    simp only [hrun, hprops, hparen, if_false, s1.look_look]
  | true =>
    -- behind the callee stands a parenthesis, so its properties end there
    obtain ⟨ws, rfl, hws⟩ := hvs
    obtain ⟨m, ms, rfl, hm, _, _⟩ := formsIn_eq_cons hbs
    rw [Form.symbol_kind] at hm
    obtain ⟨x, t, c', s1, fuel', hrun, hprops, herase, hreach, hfuel'⟩ :=
      hc.callee hcallee hfaces (fun h => by simp [hopen rfl] at h) (by omega : _ ≤ fuel)
    obtain ⟨fuel', rfl⟩ : ∃ n, fuel' = n + 1 := ⟨fuel' - 1, by omega⟩
    have hparen : s1.front.kind = .symbol .leftParen := by
      rw [hreach.front_kind, List.cons_append, nextKind_cons, hm]
    rw [properties_stops (by simp [hparen])] at hprops
    have hlook := Reaches.look hreach.silent
    rw [hreach.rest] at hlook
    obtain ⟨args', stop, s2, hrun', herase', hreach'⟩ := arguments_complete hargs fuel
      hlook.silent hlook.rest hbs hws hra (by rw [hlook.rest]; omega)
    refine ⟨.construct (s.front.span.cover stop) c' args' true, s2, ?_,
      by simp [Expr.erase, herase, herase'],
      ((hpass.trans hreach).trans hlook).trans hreach'⟩
    rw [construct_run]
    change (match callee fuel s.pass with | (none, s1) => _ | (some first, s1) => _) = _
    simp only [hrun, hprops, s1.look_front, hparen, if_true, s1.look_look, hrun']

theorem complete_construct {span : Span} {c : Expr} {args : List Expr} {hasArgs : Bool}
    (hc : Complete c) (hargs : ∀ x ∈ args, Complete x) :
    Complete (.construct span c args hasArgs) := by
  refine complete_of_operand (fun {s ts rest fuel} hs hnew hfuel => ?_) rfl
  have hlook := Reaches.look hs.silent
  have hfaces : Faces s.look ts rest (.construct span c args hasArgs) :=
    ⟨hlook.silent, by rw [s.look_rest, hs.rest], hs.spells, hs.respects⟩
  have hnext : hasArgs = false → (nextKind rest).extendsNew = false := by
    rintro rfl
    exact hnew rfl
  obtain ⟨fuel, rfl⟩ : ∃ n, fuel = n + 1 := ⟨fuel - 1, by omega⟩
  obtain ⟨hfront, e', s', hrun, herase, hreach⟩ := construct_complete hc hargs fuel hfaces hnext
    (by rw [s.look_rest]; omega)
  obtain ⟨_, e'', s'', hrun', herase', hreach'⟩ := construct_complete hc hargs (fuel + 1) hfaces
    hnext (by rw [s.look_rest]; omega)
  rw [s.look_front] at hfront
  refine ⟨⟨e', s', ?_, herase, hlook.trans hreach⟩, e'', s'', ?_, herase', hlook.trans hreach'⟩
  · rw [primary_new fuel hfront, hrun]
  · rw [callee, if_pos hfront, hrun']

/-! ## What follows an operand -/

theorem expectName_found {s : ParserState} (h : s.front.kind.isPropertyName = true) :
    expectName s = (some s.front, s.pass) := by
  rw [expectName_run, if_pos h]

theorem complete_member {span nameSpan : Span} {b : Expr} {n : Bytes} (hb : Complete b) :
    Complete (.member span b n nameSpan) := by
  -- What both loops do at a point and a name.
  have name : ∀ {s s1 : ParserState} {bs rest : List Lexeme}, Reaches s s1 (bs ++ rest) →
      formsIn bs = [.symbol .dot, .word n] → s1.front.kind = .symbol .dot
        ∧ expectName s1.pass = (some s1.pass.front, s1.pass.pass)
        ∧ s1.pass.front.text = n ∧ Reaches s s1.pass.pass rest
        ∧ 2 + weight rest ≤ weight (bs ++ rest) := by
    intro s s1 bs rest hreach hbs
    obtain ⟨l, ls, rfl, hl, _, hls⟩ := formsIn_eq_cons hbs
    obtain ⟨m, ms, rfl, hm, htext, hms⟩ := formsIn_eq_cons hls
    obtain rfl : ms = [] := formsIn_eq_nil.mp hms
    rw [Form.symbol_kind] at hl
    have hpass : Reaches s1 s1.pass (m :: rest) :=
      Reaches.pass hreach.silent hreach.rest (by simp [hl])
    have hproperty : s1.pass.front.kind.isPropertyName = true := by
      rw [hpass.front_kind, nextKind_cons, hm]
      exact Form.word_isPropertyName n
    have hpass' : Reaches s1.pass s1.pass.pass rest := by
      refine Reaches.pass hpass.silent hpass.rest fun hend => ?_
      rw [hpass.front_kind, nextKind_cons, hend] at hproperty
      cases hproperty
    refine ⟨by rw [hreach.front_kind]; exact hl, expectName_found hproperty, ?_,
      (hreach.trans hpass).trans hpass', ?_⟩
    · rw [ParserState.front_cons hpass.rest]
      exact htext
    · simp only [List.cons_append, weight_cons, List.nil_append]
      omega
  refine complete_of_chain ?_ ?_ rfl
  · intro s ts rest fuel hcallee hs _ hfuel
    obtain ⟨us, hts, hus⟩ := hs.spells
    obtain ⟨as, bs, rfl, has, hbs⟩ := formsIn_eq_append hts
    obtain ⟨hstrong, hopen, hrb⟩ := hs.respects
    -- the object itself is faced first, with the point and the name behind it
    have hfaces : Faces s as (bs ++ rest) b :=
      ⟨hs.silent, by rw [hs.rest, List.append_assoc], by rwa [has], hrb⟩
    obtain ⟨x, t, b', s1, fuel', hrun, hprops, herase, hreach, hfuel'⟩ :=
      hb.callee hcallee hfaces (fun h => by simp [hopen] at h) hfuel
    obtain ⟨hdot, hname, htext, hreach', hw⟩ := name hreach hbs
    obtain ⟨fuel', rfl⟩ : ∃ n, fuel' = n + 1 := ⟨fuel' - 1, by omega⟩
    refine ⟨x, t, .member (b'.span.cover s1.pass.front.span) b' n s1.pass.front.span,
      s1.pass.pass, fuel', hrun, ?_, by simp [Expr.erase, herase], hreach', by omega⟩
    -- one round of `properties` takes the point and the name
    rw [hprops, Parse.properties]
    simp only [bind_run, at?_run, hdot, decide_true, if_true, advance_run, ParserState.look_pass,
      hname, htext]
  · intro s ts rest fuel _ hs _ hfuel
    obtain ⟨us, hts, hus⟩ := hs.spells
    obtain ⟨as, bs, rfl, has, hbs⟩ := formsIn_eq_append hts
    obtain ⟨hstrong, hopen, hrb⟩ := hs.respects
    have hfaces : Faces s as (bs ++ rest) b :=
      ⟨hs.silent, by rw [hs.rest, List.append_assoc], by rwa [has], hrb⟩
    obtain ⟨x, t, b', s1, fuel', hrun, hchain, herase, hreach, hfuel'⟩ :=
      hb.chain hstrong hfaces (fun h => by simp [hopen] at h) hfuel
    obtain ⟨hdot, hname, htext, hreach', hw⟩ := name hreach hbs
    obtain ⟨fuel', rfl⟩ : ∃ n, fuel' = n + 1 := ⟨fuel' - 1, by omega⟩
    refine ⟨x, t, .member (b'.span.cover s1.pass.front.span) b' n s1.pass.front.span,
      s1.pass.pass, fuel', hrun, ?_, by simp [Expr.erase, herase], hreach', by omega⟩
    -- and so does one round of `chain`
    rw [hchain, Parse.chain]
    simp only [bind_run, peek_run, hdot, if_true, advance_run, ParserState.look_pass, hname, htext]

theorem complete_index {span : Span} {b i : Expr} (hb : Complete b) (hi : Complete i) :
    Complete (.index span b i) := by
  refine complete_of_chain (fun h => by simp [Expr.isCallee] at h) ?_ rfl
  intro s ts rest fuel _ hs _ hfuel
  obtain ⟨us, vs, hts, hus, hvs⟩ := hs.spells
  rw [List.append_assoc] at hts
  obtain ⟨as, ls, rfl, has, hls⟩ := formsIn_eq_append hts
  obtain ⟨l, ls, rfl, hl, _, hls⟩ := formsIn_eq_cons hls
  obtain ⟨is, ms, rfl, his, hms⟩ := formsIn_eq_append hls
  obtain ⟨m, ms, rfl, hm, _, hms⟩ := formsIn_eq_cons hms
  obtain rfl : ms = [] := formsIn_eq_nil.mp hms
  rw [Form.symbol_kind] at hl hm
  obtain ⟨hstrong, hrb, hri⟩ := hs.respects
  have hfaces : Faces s as (l :: (is ++ m :: rest)) b :=
    ⟨hs.silent, by simp [hs.rest], by rwa [has], hrb⟩
  obtain ⟨x, t, b', s1, fuel', hrun, hchain, herase, hreach, hfuel'⟩ :=
    hb.chain hstrong hfaces (fun _ => by simp [hl, TokenKind.extendsNew]) hfuel
  obtain ⟨fuel', rfl⟩ : ∃ n, fuel' = n + 1 := ⟨fuel' - 1, by omega⟩
  have hbracket : s1.front.kind = .symbol .leftBracket := by rw [hreach.front_kind]; exact hl
  have hpass := Reaches.pass hreach.silent hreach.rest (by simp [hl])
  rw [weight_cons] at hfuel'
  have hfaces' : Faces s1.pass is (m :: rest) i :=
    ⟨hpass.silent, hpass.rest, by rwa [his], hri⟩
  have hw := hfaces'.weight_lt
  -- inside the brackets reading starts again with nothing on the left, and the closing bracket
  -- pulls on nothing
  obtain ⟨i', s2, hbinary, herase', hreach'⟩ := hi.binary fuel' 0
    (Nat.lt_of_lt_of_le (by decide) (Expr.assignmentStrength_le hri)) (by decide) hfaces'
    (by simp [hm, TokenKind.extendsOperand])
    (by simp [hm, TokenKind.pull, TokenKind.binding?, Symbol.binding?])
    (by rw [hpass.rest]; omega)
  have hclosing : s2.front.kind = .symbol .rightBracket := by
    rw [hreach'.front_kind, nextKind_cons, hm]
  have hpass' := Reaches.pass hreach'.silent hreach'.rest (by simp [hm])
  rw [hpass.rest, weight_cons] at hw
  refine ⟨x, t, .index (b'.span.cover s2.front.span) b' i', s2.pass, fuel', hrun, ?_,
    by simp [Expr.erase, herase, herase'], ((hreach.trans hpass).trans hreach').trans hpass',
    by omega⟩
  rw [hchain, Parse.chain]
  simp [bind_run, peek_run, hbracket, advance_run, hbinary, expect_found hclosing]

theorem complete_call {span : Span} {c : Expr} {args : List Expr} (hc : Complete c)
    (hargs : ∀ x ∈ args, Complete x) : Complete (.call span c args) := by
  refine complete_of_chain (fun h => by simp [Expr.isCallee] at h) ?_ rfl
  intro s ts rest fuel _ hs _ hfuel
  obtain ⟨us, vs, hts, hus, hvs⟩ := hs.spells
  rw [List.append_assoc] at hts
  obtain ⟨as, bs, rfl, has, hbs⟩ := formsIn_eq_append hts
  obtain ⟨l, ls, rfl, hl, _, _⟩ := formsIn_eq_cons hbs
  rw [Form.symbol_kind] at hl
  obtain ⟨hstrong, hopen, hrc, hra⟩ := hs.respects
  have hfaces : Faces s as (l :: ls ++ rest) c :=
    ⟨hs.silent, by simp [hs.rest], by rwa [has], hrc⟩
  obtain ⟨x, t, c', s1, fuel', hrun, hchain, herase, hreach, hfuel'⟩ :=
    hc.chain hstrong hfaces (fun h => by simp [hopen] at h) hfuel
  obtain ⟨fuel', rfl⟩ : ∃ n, fuel' = n + 1 := ⟨fuel' - 1, by omega⟩
  have hparen : s1.front.kind = .symbol .leftParen := by rw [hreach.front_kind]; exact hl
  have hlook := Reaches.look hreach.silent
  rw [hreach.rest] at hlook
  obtain ⟨args', stop, s2, hrun', herase', hreach'⟩ := arguments_complete hargs fuel' hlook.silent
    hlook.rest hbs hvs hra (by rw [hlook.rest]; omega)
  rw [List.cons_append, weight_cons, weight_append] at hfuel'
  refine ⟨x, t, .call (c'.span.cover stop) c' args', s2, fuel', hrun, ?_,
    by simp [Expr.erase, herase, herase'], (hreach.trans hlook).trans hreach', by omega⟩
  rw [hchain, Parse.chain]
  simp [bind_run, peek_run, hparen, hrun']

/-! ## Operators -/

theorem complete_of_unary {e : Expr} (h : CompleteUnary e) (hle : Expr.prefixStrength ≤ e.strength)
    (hlt : e.strength < Expr.tightest) : Complete e := by
  refine ⟨fun hcallee => ?_, fun hstrong => ?_, h, completeClimb_of_unary h hle⟩
  · have := Expr.strength_of_isCallee hcallee
    omega
  · omega

theorem complete_unary {span : Span} {op : TokenKind} {x : Expr} (hx : Complete x) :
    Complete (.unary span op x) := by
  refine complete_of_unary ?_ (Nat.le_refl Expr.prefixStrength)
    (by decide : Expr.prefixStrength < Expr.tightest)
  intro s ts rest fuel _ hs hnext hfuel
  obtain ⟨fuel, rfl⟩ : ∃ n, fuel = n + 1 := ⟨fuel - 1, by omega⟩
  obtain ⟨us, hts, hus⟩ := hs.spells
  obtain ⟨l, ls, rfl, hl, _, hls⟩ := formsIn_eq_cons hts
  rw [Form.of_kind] at hl
  obtain ⟨hop, hstrong, hrx⟩ := hs.respects
  have hrest : s.rest = l :: (ls ++ rest) := hs.rest
  have hfront : s.front.kind = op := by rw [ParserState.front_cons hrest, hl]
  have hpass := Reaches.pass hs.silent hrest (by
    rw [hl]
    rintro rfl
    cases hop)
  have hw : weight s.rest = max 1 l.token.text.length + weight s.pass.rest := by
    rw [hrest, weight_cons, hpass.rest]
  obtain ⟨x', s1, hrun, herase, hreach⟩ := hx.unary hstrong
    ⟨hpass.silent, hpass.rest, by rwa [hls], hrx⟩ hnext (by omega : _ ≤ fuel)
  refine ⟨.unary (s.front.span.cover x'.span) op x', s1, ?_, by simp [Expr.erase, herase],
    hpass.trans hreach⟩
  rw [Parse.unary]
  simp only [bind_run, peek_run, hfront, hop, if_true, advance_run, ParserState.look_pass, hrun,
    pure_run]

theorem complete_trailing {span : Span} {op : TokenKind} {x : Expr} (hx : Complete x) :
    Complete (.trailing span op x) := by
  refine complete_of_unary ?_ (by decide : Expr.prefixStrength ≤ Expr.trailingStrength)
    (by decide : Expr.trailingStrength < Expr.tightest)
  intro s ts rest fuel _ hs hnext hfuel
  obtain ⟨fuel, rfl⟩ : ∃ n, fuel = n + 1 := ⟨fuel - 1, by omega⟩
  obtain ⟨us, hts, hus⟩ := hs.spells
  obtain ⟨as, bs, rfl, has, hbs⟩ := formsIn_eq_append hts
  obtain ⟨l, ls, rfl, hl, _, hls⟩ := formsIn_eq_cons hbs
  obtain rfl : ls = [] := formsIn_eq_nil.mp hls
  rw [Form.of_kind] at hl
  obtain ⟨hop, hstrong, hrx⟩ := hs.respects
  have hlook := Reaches.look hs.silent
  have hfaces : Faces s.look as (l :: rest) x :=
    ⟨hlook.silent, by simp [hs.rest], by rwa [has], hrx⟩
  obtain ⟨x₀, t, x', s1, fuel', hrun, hchain, herase, hreach, hfuel'⟩ :=
    hx.chain hstrong hfaces (fun _ => by rcases hop with rfl | rfl <;> simp [hl, TokenKind.extendsNew])
      (by rw [s.look_rest]; omega : _ ≤ fuel)
  obtain ⟨fuel', rfl⟩ : ∃ n, fuel' = n + 1 := ⟨fuel' - 1, by omega⟩
  have hfront : s1.front.kind = op := by rw [hreach.front_kind, nextKind_cons, hl]
  have hpass := Reaches.pass hreach.silent hreach.rest (by rcases hop with rfl | rfl <;> simp [hl])
  obtain ⟨f, fs, hfs, _, hfirst⟩ := x.first_of_spells hus hrx
  obtain ⟨m, ms, rfl, hm, _⟩ := formsIn_eq_cons (has.trans hfs)
  -- no operator stands in front, so it is the chain that reads the operand
  have hbefore : s.front.kind.isPrefixOperator = false := by
    have hm' : s.rest = m :: (ms ++ [l] ++ rest) := by simp [hs.rest]
    rw [ParserState.front_cons hm', hm]
    exact hfirst hstrong
  refine ⟨.trailing (x'.span.cover s1.front.span) op x', s1.pass, ?_,
    by simp [Expr.erase, herase], (hlook.trans hreach).trans hpass⟩
  have hlast : chain (fuel' + 1) x' s1
      = (.trailing (x'.span.cover s1.front.span) op x', s1.pass) := by
    rw [Parse.chain]
    rcases hop with rfl | rfl
    all_goals
      simp only [bind_run, peek_run, hfront, TokenKind.symbol.injEq, reduceCtorEq, if_false,
        decide_true, decide_false, Bool.true_or, Bool.false_or, if_true, advance_run,
        ParserState.look_pass, ParserState.look_front, pure_run]
  rw [Parse.unary]
  simp only [bind_run, peek_run, hbefore, Bool.false_eq_true, if_false, hrun, hchain, hlast,
    pure_run]

theorem complete_binary {span : Span} {op : TokenKind} {l r : Expr} (hl : Complete l)
    (hr : Complete r) : Complete (.binary span op l r) := by
  -- it binds less than a prefix operator, which rules out the two positions of an operand
  have weak : ∀ {s ts rest}, Faces s ts rest (.binary span op l r) →
      (Expr.binary span op l r).strength < Expr.prefixStrength := by
    intro s ts rest hs
    obtain ⟨⟨b, hb, _⟩, _⟩ := hs.respects
    simpa [Expr.strength, hb] using (TokenKind.strength_lt hb).2
  refine ⟨fun h => by simp [Expr.isCallee] at h, fun hstrong hs => ?_, fun hstrong hs => ?_, ?_⟩
  · have := weak hs
    rw [hstrong] at this
    exact absurd this (by decide)
  · have := weak hs
    omega
  intro s ts rest fuel floor hstrong hfloor hs hnext hpull hfuel
  obtain ⟨us, vs, hts, hus, hvs⟩ := hs.spells
  obtain ⟨as, bs, rfl, has, hbs⟩ := formsIn_eq_append hts
  obtain ⟨o, bs, rfl, ho, _, hbs⟩ := formsIn_eq_cons hbs
  rw [Form.of_kind] at ho
  obtain ⟨⟨b, hb, hadmits⟩, hrl, hrr⟩ := hs.respects
  have hstrength := TokenKind.strength_lt hb
  simp only [Expr.strength, Expr.rightFloor, hb, Option.map_some, Option.getD_some] at hstrong hpull
  generalize hfloor' : (if b.toTheRight = true then b.strength - 1 else b.strength) = floor'
    at hpull
  -- the two sides of an operator: as strong on the left, stronger on the right than what is left
  -- for it
  have hleft : b.strength ≤ l.strength ∧ floor' < r.strength ∧ floor' < Expr.prefixStrength := by
    unfold Binding.Admits at hadmits
    unfold assignmentStrength at hstrength
    by_cases hside : b.toTheRight = true
    · simp only [hside, if_true] at hadmits hfloor'
      omega
    · simp only [hside, Bool.false_eq_true, if_false] at hadmits hfloor'
      omega
  have hquestion : op ≠ .symbol .question := by
    rintro rfl
    cases hb
  have hend : op ≠ .endOfScript := by
    rintro rfl
    cases hb
  have hfaces : Faces s as (o :: bs ++ rest) l :=
    ⟨hs.silent, by rw [hs.rest, List.append_assoc], by rwa [has], hrl⟩
  -- the left side is read with the operator behind it, and pulled no further than it admits
  obtain ⟨x, t, l', s1, fuel', hrun, hclimb, herase, hreach, hfuel'⟩ :=
    hl.climb (by omega : floor < l.strength) hfloor hfaces
      (by rw [List.cons_append, nextKind_cons, ho]; exact extendsOperand_of_binding hb)
      (by
        rw [List.cons_append, nextKind_cons, ho, TokenKind.pull_of_binding hb]
        exact le_rightFloor_of_admits hb hadmits hrl) hfuel
  obtain ⟨fuel', rfl⟩ : ∃ n, fuel' = n + 1 := ⟨fuel' - 1, by omega⟩
  have hfront : s1.front.kind = op := by rw [hreach.front_kind]; exact ho
  have hpass : Reaches s1 s1.pass (bs ++ rest) :=
    Reaches.pass hreach.silent hreach.rest (by rwa [ho])
  rw [List.cons_append, weight_cons] at hfuel'
  have hfaces' : Faces s1.pass bs rest r := ⟨hpass.silent, hpass.rest, by rwa [hbs], hrr⟩
  have hw := hfaces'.weight_lt
  rw [hpass.rest] at hw
  obtain ⟨r', s2, hbinary, herase', hreach'⟩ := hr.binary fuel' floor' hleft.2.1 hleft.2.2 hfaces'
    hnext hpull (by rw [hpass.rest]; omega)
  refine ⟨x, t, .binary (l'.span.cover r'.span) op l' r', s2, fuel', hrun, ?_,
    by simp [Expr.erase, herase, herase'], (hreach.trans hpass).trans hreach', by omega⟩
  -- one round of `climb`: the operator binds tighter than the floor, and its right side was read
  rw [hclimb, Parse.climb]
  simp only [bind_run, peek_run, hfront, hquestion, if_false, hb, Nat.not_le.mpr hstrong,
    advance_run, ParserState.look_pass, hfloor', hbinary]

theorem complete_ternary {span : Span} {c a b : Expr} (hc : Complete c) (ha : Complete a)
    (hb : Complete b) : Complete (.ternary span c a b) := by
  refine ⟨fun h => by simp [Expr.isCallee] at h, fun h => ?_, fun h => ?_, ?_⟩
  -- a conditional is as weak as an assignment, so it is no operand
  · simp [Expr.strength, assignmentStrength, Expr.tightest] at h
  · simp [Expr.strength, assignmentStrength, Expr.prefixStrength] at h
  intro s ts rest fuel floor hstrong hfloor hs hnext hpull hfuel
  obtain ⟨us, vs, ws, hts, hus, hvs, hws⟩ := hs.spells
  rw [List.append_assoc] at hts
  obtain ⟨as, ps, rfl, has, hps⟩ := formsIn_eq_append hts
  obtain ⟨q, qs, rfl, hq, _, hqs⟩ := formsIn_eq_cons hps
  obtain ⟨bs, ds, rfl, hbs, hds⟩ := formsIn_eq_append hqs
  obtain ⟨d, cs, rfl, hd, _, hcs⟩ := formsIn_eq_cons hds
  rw [Form.symbol_kind] at hq hd
  obtain ⟨hcond, hrc, hra, hrb⟩ := hs.respects
  have hweak : floor < assignmentStrength := hstrong
  have hright := Expr.strength_le_rightFloor hrc
  have hfaces : Faces s as (q :: (bs ++ (d :: (cs ++ rest)))) c :=
    ⟨hs.silent, by simp [hs.rest], by rwa [has], hrc⟩
  obtain ⟨x, t, c', s1, fuel', hrun, hclimb, herase, hreach, hfuel'⟩ :=
    hc.climb (by omega : floor < c.strength) hfloor hfaces
      (by simp [hq, TokenKind.extendsOperand])
      (by
        rw [nextKind_cons, hq]
        exact (by omega : assignmentStrength ≤ c.rightFloor)) hfuel
  obtain ⟨fuel', rfl⟩ : ∃ n, fuel' = n + 1 + 1 := ⟨fuel' - 2, by
    rw [weight_cons] at hfuel'
    omega⟩
  rw [weight_cons] at hfuel'
  have hfront : s1.front.kind = .symbol .question := by rw [hreach.front_kind]; exact hq
  have hlook := Reaches.look hreach.silent
  have hpass := Reaches.pass hreach.silent hreach.rest (by simp [hq])
  have hfaces' : Faces s1.pass bs (d :: (cs ++ rest)) a :=
    ⟨hpass.silent, hpass.rest, by rwa [hbs], hra⟩
  have hw := hfaces'.weight_lt
  rw [hpass.rest] at hw
  have hle := Expr.assignmentStrength_le hra
  have hle' := Expr.assignmentStrength_le hrb
  obtain ⟨a', s2, hyes, herase', hreach'⟩ := ha.binary fuel' (assignmentStrength - 1)
    (Nat.lt_of_lt_of_le (by decide) hle) (by decide) hfaces' (by simp [hd, TokenKind.extendsOperand])
    (by simp [hd, TokenKind.pull, TokenKind.binding?, Symbol.binding?])
    (by rw [hpass.rest]; omega)
  have hcolon : s2.front.kind = .symbol .colon := by rw [hreach'.front_kind, nextKind_cons, hd]
  have hpass' := Reaches.pass hreach'.silent hreach'.rest (by simp [hd])
  rw [weight_cons] at hw
  have hfaces'' : Faces s2.pass cs rest b := ⟨hpass'.silent, hpass'.rest, by rwa [hcs], hrb⟩
  have hw' := hfaces''.weight_lt
  rw [hpass'.rest] at hw'
  obtain ⟨b', s3, hno, herase'', hreach''⟩ := hb.binary fuel' (assignmentStrength - 1)
    (Nat.lt_of_lt_of_le (by decide) hle') (by decide) hfaces'' hnext hpull
    (by rw [hpass'.rest]; omega)
  -- the two arms are each read with the floor of an assignment
  have hternary : ternary (fuel' + 1) c' s1.look
      = (.ternary (c'.span.cover b'.span) c' a' b', s3) := by
    rw [Parse.ternary]
    simp only [bind_run, advance_run, ParserState.look_pass, hyes, expect_found hcolon, hno,
      pure_run]
  refine ⟨x, t, .ternary (c'.span.cover b'.span) c' a' b', s3, fuel' + 1, hrun, ?_,
    by simp [Expr.erase, herase, herase', herase''],
    (((hreach.trans hpass).trans hreach').trans hpass').trans hreach'', by omega⟩
  rw [hclimb, Parse.climb]
  simp only [bind_run, peek_run, hfront, if_true, Nat.not_le.mpr hweak, if_false, hternary]

/-! ## Templates -/

theorem substitution_complete {x : Expr} (hx : Complete x) {s : ParserState} {start stop : Nat}
    (fuel : Nat) (hs : Silent s) (hfaultless : Faultless (s.source.slice start stop))
    (hspells : Spells (formsOf (s.source.slice start stop)) x) (hrespects : x.Respects)
    (hfuel : 8 * (stop - start + 1) + 5 ≤ fuel) :
    ∃ x' s', substitution fuel start stop s = (x', s') ∧ x'.erase = x.erase
      ∧ Reaches s s' s.rest := by
  obtain ⟨fuel, rfl⟩ : ∃ n, fuel = n + 1 := ⟨fuel - 1, by omega⟩
  obtain ⟨ls, last, hls, hforms, _⟩ := lexemes_eq s.file start (s.source.slice start stop)
  have hslice : s.source.slice start stop <+: s.source.toList.drop start := by
    rw [slice_eq]
    exact List.take_prefix _ _
  -- the tokens inside are those of the text between the braces, which has no faults
  have hsilent : Silent (s.inside start stop) := fun l hl =>
    ⟨(faultless_iff s.file start _).mpr hfaultless l hl,
      (genuine_lexemes s.file hslice l hl).template⟩
  have hw : weight (s.inside start stop).rest ≤ stop - start + 1 := by
    have hweight := weight_lexemes s.file start (s.source.slice start stop)
    have hlen : (s.source.slice start stop).length ≤ stop - start := by
      rw [slice_eq]
      exact List.length_take_le _ _
    simp only [ParserState.inside, lexemesIn]
    omega
  obtain ⟨x', s1, hbinary, herase, hreach⟩ := hx.binary fuel 0
    (Nat.lt_of_lt_of_le (by decide) (Expr.assignmentStrength_le hrespects)) (by decide)
    ⟨hsilent, hls, by rwa [hforms], hrespects⟩ rfl (Nat.le_refl 0) (by omega)
  have hend : s1.front.kind = .endOfScript := by rw [hreach.front_kind]; rfl
  have hlook := Reaches.look hreach.silent
  refine ⟨x', s1.look.outside s, ?_, herase, rfl, hlook.log.trans hreach.log,
    hlook.source.trans hreach.source, ?_⟩
  · rw [substitution_run]
    simp only [hbinary, substitutionEnd, hend, if_true, Option.getD_some]
  -- what was put aside is taken up again, in the same source
  · have hsource : s1.look.source = s.source := hlook.source.trans hreach.source
    intro l hl
    have := hs l hl
    simpa [ParserState.outside, hsource] using this

theorem substitutions_complete {parts : List (Bytes × Expr)}
    (hparts : ∀ p ∈ parts, Complete p.2) {s : ParserState} {ps : List TemplatePart}
    (acc : Array (Bytes × Expr)) (fuel : Nat) (hs : Silent s)
    (hspells : SpellsParts (ps.map fun p => (p.text, s.source.slice p.start p.stop)) parts)
    (hrespects : Expr.RespectsParts parts)
    (hfuel : ∀ p ∈ ps, 8 * (p.stop - p.start + 1) + 5 + ps.length ≤ fuel) :
    ∃ parts' s', substitutions fuel ps acc s = (acc.toList ++ parts', s')
      ∧ Expr.eraseParts parts' = Expr.eraseParts parts ∧ Reaches s s' s.rest := by
  -- By induction on the substitutions, the fuel being enough for each and for those behind it.
  induction parts generalizing s ps acc fuel with
  | nil =>
    obtain rfl : ps = [] := List.map_eq_nil_iff.mp hspells
    refine ⟨[], s, ?_, rfl, rfl, rfl, rfl, hs⟩
    cases fuel <;> simp [Parse.substitutions, pure_run]
  | cons p parts ih =>
    obtain ⟨text, x⟩ := p
    obtain ⟨source, more, hpieces, hfaultless, hx, hmore⟩ := hspells
    obtain ⟨q, qs, rfl, hq, rfl⟩ := List.map_eq_cons_iff.mp hpieces
    obtain ⟨rfl, rfl⟩ := Prod.mk.inj hq
    have hfuelq := hfuel q (by simp)
    rw [List.length_cons] at hfuelq
    obtain ⟨fuel, rfl⟩ : ∃ n, fuel = n + 1 := ⟨fuel - 1, by omega⟩
    obtain ⟨x', s1, hrun, herase, hreach⟩ := substitution_complete (hparts (q.text, x) (by simp)) fuel hs
      hfaultless hx hrespects.1 (by omega)
    obtain ⟨parts', s2, hrun', herase', hreach'⟩ := ih (fun p hp => hparts p (by simp [hp]))
      (acc.push (q.text, x')) fuel hreach.silent (by rwa [hreach.source]) hrespects.2 (by
        intro p hp
        have := hfuel p (by simp [hp])
        rw [List.length_cons] at this
        omega)
    rw [hreach.rest] at hreach'
    refine ⟨(q.text, x') :: parts', s2, ?_, by simp [Expr.eraseParts, herase, herase'],
      hreach.trans hreach'⟩
    rw [Parse.substitutions]
    simp only [bind_run, hrun, hrun']
    simp

theorem complete_template {span : Span} {parts : List (Bytes × Expr)} {tail : Bytes}
    (hparts : ∀ p ∈ parts, Complete p.2) : Complete (.template span parts tail) := by
  refine complete_of_operand (completeOperand_of_primary fun {s ts rest fuel} hs hfuel => ?_) rfl
  obtain ⟨raw, hts, hclosed, htail, hspells⟩ := hs.spells
  obtain ⟨l, ls, rfl, hl, htext, hls⟩ := formsIn_eq_cons hts
  obtain rfl : ls = [] := formsIn_eq_nil.mp hls
  have hrest : s.rest = l :: rest := hs.rest
  have hfront := ParserState.front_cons hrest
  have hpass := Reaches.pass hs.silent hrest (by simp [hl])
  have hplace := (hs.silent l (by simp [hrest])).2 hl
  obtain ⟨hshift, htail', hclosed'⟩ := templateOf_shift l.token.span.start l.token.text
  dsimp only at htext
  rw [hrest, weight_cons] at hfuel
  obtain ⟨fuel, rfl⟩ : ∃ n, fuel = n + 1 + 1 := ⟨fuel - 2, by omega⟩
  -- The substitutions, found in the source.
  have hpieces : SpellsParts ((templateOf l.token.span.start l.token.text).parts.map
      fun p => (p.text, s.pass.source.slice p.start p.stop)) parts := by
    rw [hshift, List.map_map]
    have hmap : ∀ p ∈ (templateOf 0 l.token.text).parts,
        ((fun p : TemplatePart => (p.text, s.pass.source.slice p.start p.stop))
          ∘ TemplatePart.shift l.token.span.start) p
        = (p.text, (l.token.text.drop p.start).take (p.stop - p.start)) := by
      intro p hp
      have hbounds := templateOf_bounds l.token.text p hp
      simp only [Function.comp_apply, TemplatePart.shift, hpass.source]
      rw [slice_inside hplace hbounds.2.1]
    rw [List.map_congr_left hmap, htext]
    exact hspells
  obtain ⟨parts', s1, hrun, herase, hreach⟩ := substitutions_complete hparts #[] fuel hpass.silent
    hpieces hs.respects (by
      intro p hp
      rw [hshift] at hp ⊢
      obtain ⟨q, hq, rfl⟩ := List.mem_map.mp hp
      have := templateOf_bounds l.token.text q hq
      have hpos := List.length_pos_of_mem hq
      rw [List.length_map]
      simp only [TemplatePart.shift, Nat.add_sub_add_left]
      omega)
  rw [hpass.rest] at hreach
  -- a template that is closed in its token is closed in the source
  have hopen : (templateOf l.token.span.start l.token.text).unclosed = none :=
    hclosed'.mpr (by rwa [htext])
  have hafter : (templateOf l.token.span.start l.token.text).tail = tail := by
    rw [htail', htext, htail]
  refine ⟨by simp [hfront, hl], .template l.token.span parts' tail, s1, ?_,
    by simp [Expr.erase, herase], hpass.trans hreach⟩
  rw [primary_template _ (by rw [hfront, hl]), hfront, Parse.template]
  simp only [bind_run, hrun, hopen, pure_run, hafter, List.nil_append]

/-! ## All trees -/

mutual

/-- Every tree is read back. -/
theorem complete : (e : Expr) → Complete e
  | .literal span k raw v => complete_literal span k raw v
  | .identifier span n => complete_identifier span n
  | .binary _ _ l r => complete_binary (complete l) (complete r)
  | .unary _ _ x => complete_unary (complete x)
  | .trailing _ _ x => complete_trailing (complete x)
  | .member _ b _ _ => complete_member (complete b)
  | .index _ b i => complete_index (complete b) (complete i)
  | .call _ c args => complete_call (complete c) (completeAll args)
  | .array _ xs => complete_array (completeAll xs)
  | .construct _ c args _ => complete_construct (complete c) (completeAll args)
  | .ternary _ c a b => complete_ternary (complete c) (complete a) (complete b)
  | .template _ parts _ => complete_template (completeParts parts)
  | .group _ x => complete_group (complete x)
  | .missing =>
    ⟨fun _ hs => hs.respects.elim, fun _ hs => hs.respects.elim, fun _ hs => hs.respects.elim,
      fun _ _ hs => hs.respects.elim⟩

theorem completeAll : (xs : List Expr) → ∀ x ∈ xs, Complete x
  | [] => nofun
  | x :: xs => List.forall_mem_cons.mpr ⟨complete x, completeAll xs⟩

theorem completeParts : (parts : List (Bytes × Expr)) → ∀ p ∈ parts, Complete p.2
  | [] => nofun
  | (_, x) :: parts => List.forall_mem_cons.mpr ⟨complete x, completeParts parts⟩

end

/-! ## Statements -/

/-- Tokens that spell statements are read back, and nothing is reported. -/
theorem statements_complete {ts : List Form} {es : Statements} (h : SpellsScript ts es)
    (hrespects : ∀ e ∈ es, e.Respects) {s : ParserState} {ls rest : List Lexeme}
    (acc : Array Expr) (fuel : Nat) (hs : Silent s) (hrest : s.rest = ls ++ rest)
    (hls : formsIn ls = ts) (hend : nextKind rest = .endOfScript)
    (hfuel : 8 * weight s.rest + 5 ≤ fuel) :
    ∃ es' s', statements fuel acc s = (acc.toList ++ es', s')
      ∧ es'.map Expr.erase = es.map Expr.erase ∧ s'.log = s.log := by
  induction h generalizing s ls acc fuel with
  | nil =>
    obtain ⟨fuel, rfl⟩ : ∃ n, fuel = n + 1 := ⟨fuel - 1, by omega⟩
    obtain rfl : ls = [] := formsIn_eq_nil.mp hls
    -- the script is at its end
    have hfront : s.front.kind = .endOfScript := by rw [s.front_kind, hrest]; exact hend
    refine ⟨[], s.look, ?_, rfl, (Reaches.look hs).log⟩
    rw [statements]
    simp [bind_run, peek_run, hfront, pure_run]
  | skip h ih =>
    obtain ⟨fuel, rfl⟩ : ∃ n, fuel = n + 1 := ⟨fuel - 1, by omega⟩
    obtain ⟨l, bs, rfl, hl, _, hbs⟩ := formsIn_eq_cons hls
    rw [Form.symbol_kind] at hl
    -- a semicolon of its own is passed
    have hfront : s.front.kind = .symbol .semicolon := by
      rw [ParserState.front_cons hrest, hl]
    have hpass : Reaches s s.pass (bs ++ rest) := Reaches.pass hs hrest (by simp [hl])
    rw [hrest, List.cons_append, weight_cons] at hfuel
    obtain ⟨es', s', hrun, herase, hlog⟩ := ih hrespects acc fuel hpass.silent hpass.rest hbs
      (by rw [hpass.rest]; omega)
    refine ⟨es', s', ?_, herase, hlog.trans hpass.log⟩
    rw [statements]
    simp only [bind_run, peek_run, hfront, reduceCtorEq, if_false, if_true, advance_run,
      ParserState.look_pass, hrun]
  | @cons ts us e es he hes hsep ih =>
    obtain ⟨fuel, rfl⟩ : ∃ n, fuel = n + 1 := ⟨fuel - 1, by omega⟩
    obtain ⟨as, bs, rfl, has, hbs⟩ := formsIn_eq_append hls
    have hre := hrespects e (by simp)
    have hlook := Reaches.look hs
    -- After a statement stands a semicolon or the end of the script.
    have hnext : nextKind (bs ++ rest) = .symbol .semicolon ∨ nextKind (bs ++ rest) = .endOfScript := by
      rcases hsep with rfl | ⟨vs, rfl⟩
      · obtain rfl : bs = [] := formsIn_eq_nil.mp hbs
        exact .inr hend
      · obtain ⟨m, ms, rfl, hm, _⟩ := formsIn_eq_cons hbs
        exact .inl hm
    have hfaces : Faces s.look as (bs ++ rest) e :=
      ⟨hlook.silent, by simp [hrest], by rwa [has], hre⟩
    have hw := hfaces.weight_lt
    rw [s.look_rest] at hw
    obtain ⟨e', s1, hbinary, herase, hreach⟩ := (complete e).binary fuel 0
      (Nat.lt_of_lt_of_le (by decide) (Expr.assignmentStrength_le hre)) (by decide) hfaces
      (by rcases hnext with h | h <;> rw [h] <;> rfl)
      (by rcases hnext with h | h <;> rw [h] <;> decide)
      (by rw [s.look_rest]; omega)
    have hlook1 := Reaches.look hreach.silent
    rw [hreach.rest] at hlook1
    obtain ⟨es', s', hrun, herase', hlog⟩ := ih (fun x hx => hrespects x (by simp [hx]))
      (acc.push e') fuel hlook1.silent hlook1.rest hbs (by rw [hlook1.rest]; omega)
    refine ⟨e' :: es', s', ?_, by simp [herase, herase'],
      hlog.trans ((hlook.trans hreach).trans hlook1).log⟩
    obtain ⟨f, fs, hfs, hstart, _⟩ := e.first_of_spells he hre
    obtain ⟨l, ls, rfl, hl, _⟩ := formsIn_eq_cons (has.trans hfs)
    have hfront : s.front.kind = f.kind := by
      rw [s.front_kind, hrest]
      exact hl
    have hnot : s.front.kind ≠ .endOfScript ∧ s.front.kind ≠ .symbol .semicolon := by
      rw [hfront]
      constructor <;> intro h <;> rw [h] at hstart <;> cases hstart
    have hafter : (s1.front.kind = .symbol .semicolon || s1.front.kind = .endOfScript) = true := by
      rw [hreach.front_kind]
      simpa using hnext
    rw [statements]
    simp only [bind_run, peek_run, hnot.1, hnot.2, if_false, hbinary, hafter, if_true, hrun]
    simp

end Parse

end Storyline.Script
