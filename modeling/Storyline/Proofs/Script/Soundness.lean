import Mathlib.Data.List.Basic
import Storyline.Proofs.Script.Grammar
import Storyline.Proofs.Script.Places
import Storyline.Proofs.Script.Reading

/-!
# What the parser accepts is a script

If a run of the parser reports nothing, then the tokens it consumed spell the trees it returns, and
these trees respect the precedence table.  The proof goes through the mutually recursive functions
by induction on the fuel.  Each function has its own statement: which tokens it consumed, what they
add to the tree it started from, and how tightly the next token binds.

The statements ask for enough fuel, eight calls for every byte of a token, and for tokens as a
lexer delivers them (`Lexeme.Genuine`).
-/

namespace Storyline.Script

/-! ## Quiet steps -/

open ParserState (Follows)

/-- A state from which nothing that was reported is forgotten: there is no limit on errors, the
tokens to come are genuine, and the next one, if it was looked at, had nothing to report. -/
structure Ready (s : ParserState) : Prop where
  unlimited : s.maxErrors = 0
  genuine : ∀ l ∈ s.rest, l.Genuine s.source
  heard : ∀ l ∈ s.rest.head?, s.seen = true → l.notices = []

namespace Ready

variable {s : ParserState}

theorem look (h : Ready s) (hlog : s.look.log.size = s.log.size) : Ready s.look := by
  have hf := s.follows_look
  refine ⟨hf.maxErrors.trans h.unlimited, ?_, ?_⟩
  · rw [ParserState.look_rest, hf.source]
    exact h.genuine
  · intro l hl _
    rw [ParserState.look_rest] at hl
    by_cases hs : s.seen = true
    · exact h.heard l hl hs
    · obtain ⟨ls, hrest⟩ := List.head?_eq_some_iff.mp hl
      simp only [ParserState.look, hrest, hs, Bool.false_eq_true, if_false,
        ParserState.size_append_list] at hlog
      exact List.length_eq_zero_iff.mp (by omega)

/-- A look that reports nothing never finds an unreadable token. -/
theorem front_ne_invalid (h : Ready s) (hlog : s.look.log.size = s.log.size) :
    s.front.kind ≠ .invalid := by
  unfold ParserState.front
  rcases hrest : s.rest with _ | ⟨l, ls⟩
  · simp
  · intro hk
    have hl : l ∈ s.look.rest.head? := by simp [hrest]
    have hnil := (h.look hlog).heard l hl (ParserState.look_seen hrest)
    exact (h.genuine l (by simp [hrest])).invalid hk hnil

end Ready

/-! ## Runs that report nothing -/

/-- The run between two states consumed tokens about which there was nothing to report. -/
structure Reads (s s' : ParserState) (ts : List Lexeme) : Prop where
  rest : s.rest = ts ++ s'.rest
  clean : ∀ l ∈ ts, l.notices = [] ∧ l.token.kind ≠ .endOfScript
  ready : Ready s'

namespace Reads

variable {s t u : ParserState} {ts us : List Lexeme}

theorem look (h : Ready s) (hlog : s.look.log.size = s.log.size) : Reads s s.look [] :=
  ⟨by simp, by simp, h.look hlog⟩

theorem trans (h : Reads s t ts) (k : Reads t u us) : Reads s u (ts ++ us) := by
  refine ⟨by rw [h.rest, k.rest, List.append_assoc], fun l hl => ?_, k.ready⟩
  rcases List.mem_append.mp hl with hl | hl
  · exact h.clean l hl
  · exact k.clean l hl

/-- Consuming a token that is not the end of the script. -/
theorem pass (h : Ready s) (hk : s.front.kind ≠ .endOfScript)
    (hlog : s.pass.log.size = s.log.size) :
    ∃ l, Reads s s.pass [l] ∧ l.token = s.front ∧ l.Genuine s.source := by
  -- a token that is left is the front itself, only the end of the script is made up
  rcases hrest : s.rest with _ | ⟨l, ls⟩
  · simp [ParserState.front, hrest] at hk
  · have hf := s.follows_pass
    have hpass : s.pass.rest = ls := by
      simp [ParserState.pass, hk, hrest]
    have hfront : l.token = s.front := by simp [ParserState.front, hrest]
    have hlook : s.look.log.size = s.log.size := by
      simpa [ParserState.pass, hk] using hlog
    have hl : l ∈ s.look.rest.head? := by simp [hrest]
    refine ⟨l, ⟨?_, ?_, hf.maxErrors.trans h.unlimited, ?_, ?_⟩, hfront,
      h.genuine l (by simp [hrest])⟩
    · rw [hpass, hrest, List.singleton_append]
    · rw [List.forall_mem_singleton, hfront]
      exact ⟨(h.look hlook).heard l hl (ParserState.look_seen hrest), hk⟩
    · rw [hpass, hf.source]
      exact fun m hm => h.genuine m (by simp [hrest, hm])
    · intro m _ hs
      simp [ParserState.pass, hk] at hs

theorem weight_eq (h : Reads s t ts) : weight s.rest = weight ts + weight t.rest := by
  rw [h.rest, weight_append]

end Reads

/-- The tokens that were consumed spell a tree. -/
structure ReadsTree (s s' : ParserState) (ts : List Lexeme) (e : Expr) : Prop
    extends Reads s s' ts where
  spells : Spells (formsIn ts) e
  respects : e.Respects

/-- The tokens that were consumed spell what makes a tree out of a part of it. -/
structure Extends (s s' : ParserState) (ts : List Lexeme) (part e : Expr) : Prop
    extends Reads s s' ts where
  spells : ∀ us, Spells us part → Spells (us ++ formsIn ts) e
  respects : e.Respects

/-- The tokens that were consumed spell trees with commas between them. -/
structure ReadsList (s s' : ParserState) (ts : List Lexeme) (xs : List Expr) : Prop
    extends Reads s s' ts where
  spells : SpellsList (formsIn ts) xs
  respects : Expr.RespectsAll xs

/-- Reading a tree consumes a token. -/
theorem ReadsTree.weight_lt {s s' : ParserState} {ts : List Lexeme} {e : Expr}
    (h : ReadsTree s s' ts e) : weight s'.rest < weight s.rest := by
  have hne : ts ≠ [] := by
    rintro rfl
    exact h.spells.ne_nil rfl
  have := weight_pos hne
  have := h.weight_eq
  omega

theorem Extends.refl {s s' : ParserState} {e : Expr} (h : Reads s s' []) (he : e.Respects) :
    Extends s s' [] e e :=
  ⟨h, fun us hus => by simpa using hus, he⟩

theorem Extends.trans {s t u : ParserState} {ts us : List Lexeme} {a b c : Expr}
    (h : Extends s t ts a b) (k : Extends t u us b c) : Extends s u (ts ++ us) a c :=
  ⟨h.toReads.trans k.toReads, fun vs hvs => by
    rw [formsIn_append, ← List.append_assoc]
    exact k.spells _ (h.spells vs hvs), k.respects⟩

theorem ReadsTree.extend {s t u : ParserState} {ts us : List Lexeme} {a b : Expr}
    (h : ReadsTree s t ts a) (k : Extends t u us a b) : ReadsTree s u (ts ++ us) b :=
  ⟨h.toReads.trans k.toReads, by
    rw [formsIn_append]
    exact k.spells _ h.spells, k.respects⟩

/-! ## Statements about the functions of the parser -/

namespace Parse

open Script.Expr (strength_of_isCallee)

/-- The run of `binary` from `s` reads a tree whose operators bind more tightly than `floor`, and
the next one does not. -/
def BinarySound (fuel : Nat) : Prop :=
  ∀ {s s' : ParserState} {r : Option Expr} {floor : Nat}, Ready s → floor < Expr.prefixStrength →
    8 * weight s.rest + 4 ≤ fuel → binary fuel floor s = (r, s') → s'.log.size = s.log.size →
    ∃ e ts, r = some e ∧ ReadsTree s s' ts e ∧ floor < e.strength ∧ s'.front.kind.pull ≤ floor

def ClimbSound (fuel : Nat) : Prop :=
  ∀ {s s' : ParserState} {left e : Expr} {floor : Nat}, Ready s → floor < Expr.prefixStrength →
    left.Respects → floor < left.strength → s.front.kind.pull ≤ left.rightFloor →
    8 * weight s.rest + 2 ≤ fuel → climb fuel floor left s = (e, s') →
    s'.log.size = s.log.size →
    ∃ ts, Extends s s' ts left e ∧ floor < e.strength ∧ s'.front.kind.pull ≤ floor

def TernarySound (fuel : Nat) : Prop :=
  ∀ {s s' : ParserState} {cond e : Expr}, Ready s → s.front.kind = .symbol .question →
    cond.Respects → assignmentStrength < cond.strength → 8 * weight s.rest + 1 ≤ fuel →
    ternary fuel cond s = (e, s') → s'.log.size = s.log.size →
    ∃ span yes no ts, e = .ternary span cond yes no ∧ Extends s s' ts cond e ∧ ts ≠ []
      ∧ s'.front.kind.pull ≤ assignmentStrength - 1

def UnarySound (fuel : Nat) : Prop :=
  ∀ {s s' : ParserState} {r : Option Expr}, Ready s → 8 * weight s.rest + 3 ≤ fuel →
    unary fuel s = (r, s') → s'.log.size = s.log.size →
    ∃ e ts, r = some e ∧ ReadsTree s s' ts e ∧ Expr.prefixStrength ≤ e.strength

def ChainSound (fuel : Nat) : Prop :=
  ∀ {s s' : ParserState} {base e : Expr}, Ready s → base.Respects →
    base.strength = Expr.tightest → (base.isOpenNew = true → s.front.kind.extendsNew = false) →
    8 * weight s.rest + 2 ≤ fuel → chain fuel base s = (e, s') → s'.log.size = s.log.size →
    ∃ ts, Extends s s' ts base e ∧ Expr.trailingStrength ≤ e.strength

def ArgumentsSound (fuel : Nat) : Prop :=
  ∀ {s s' : ParserState} {args : List Expr} {stop : Span}, Ready s →
    s.front.kind = .symbol .leftParen → 8 * weight s.rest + 1 ≤ fuel →
    arguments fuel s = ((args, stop), s') → s'.log.size = s.log.size →
    ∃ ts us, Reads s s' ts ∧ formsIn ts = .symbol .leftParen :: us ++ [.symbol .rightParen]
      ∧ SpellsList us args ∧ Expr.RespectsAll args

def ListUntilSound (fuel : Nat) : Prop :=
  ∀ {s s' : ParserState} {closing : Symbol} {code : Code} {message : Bytes} {xs : List Expr}
    {stop : Span}, Ready s → 8 * weight s.rest + 6 ≤ fuel →
    listUntil fuel (.symbol closing) code message s = ((xs, stop), s') →
    s'.log.size = s.log.size →
    ∃ ts us, Reads s s' ts ∧ formsIn ts = us ++ [.symbol closing] ∧ SpellsList us xs
      ∧ Expr.RespectsAll xs

def ItemsSound (fuel : Nat) : Prop :=
  ∀ {s s' : ParserState} {closing : Symbol} {acc : Array Expr} {r : List Expr}, Ready s →
    8 * weight s.rest + 5 ≤ fuel → items fuel (.symbol closing) acc s = (r, s') →
    s'.log.size = s.log.size →
    ∃ xs ts, r = acc.toList ++ xs ∧ ReadsList s s' ts xs

def PrimarySound (fuel : Nat) : Prop :=
  ∀ {s s' : ParserState} {r : Option Expr}, Ready s → 8 * weight s.rest + 2 ≤ fuel →
    primary fuel s = (r, s') → s'.log.size = s.log.size →
    ∃ e ts, r = some e ∧ ReadsTree s s' ts e ∧ e.isCallee = true
      ∧ (e.isOpenNew = true → s'.front.kind.extendsNew = false)

def ConstructSound (fuel : Nat) : Prop :=
  ∀ {s s' : ParserState} {r : Option Expr}, Ready s → s.front.kind = .keyword .new →
    8 * weight s.rest + 1 ≤ fuel → construct fuel s = (r, s') → s'.log.size = s.log.size →
    ∃ e ts, r = some e ∧ ReadsTree s s' ts e ∧ e.isCallee = true
      ∧ (e.isOpenNew = true → s'.front.kind.extendsNew = false)

def PropertiesSound (fuel : Nat) : Prop :=
  ∀ {s s' : ParserState} {base e : Expr}, Ready s → base.Respects → base.isCallee = true →
    (base.isOpenNew = true → s.front.kind.extendsNew = false) → 8 * weight s.rest + 1 ≤ fuel →
    properties fuel base s = (e, s') → s'.log.size = s.log.size →
    ∃ ts, Extends s s' ts base e ∧ e.isCallee = true ∧ s'.front.kind ≠ .symbol .dot
      ∧ (e.isOpenNew = true → s'.front.kind.extendsNew = false)

def TemplateSound (fuel : Nat) : Prop :=
  ∀ {s s' : ParserState} {t : Token} {e : Expr}, Ready s →
    t.text <+: s.source.toList.drop t.span.start → 8 * t.text.length + 1 ≤ fuel →
    template fuel t s = (e, s') → s'.log.size = s.log.size →
    Reads s s' [] ∧ Spells [⟨.template, t.text⟩] e ∧ e.Respects ∧ e.isCallee = true
      ∧ e.isOpenNew = false

def SubstitutionsSound (fuel : Nat) : Prop :=
  ∀ {s s' : ParserState} {ps : List TemplatePart} {acc : Array (Bytes × Expr)}
    {r : List (Bytes × Expr)}, Ready s →
    (∀ p ∈ ps, 8 * (p.stop - p.start + 1) + 5 + ps.length ≤ fuel) →
    substitutions fuel ps acc s = (r, s') → s'.log.size = s.log.size →
    ∃ parts, r = acc.toList ++ parts ∧ Reads s s' [] ∧ Expr.RespectsParts parts
      ∧ SpellsParts (ps.map fun p => (p.text, s.source.slice p.start p.stop)) parts

def SubstitutionSound (fuel : Nat) : Prop :=
  ∀ {s s' : ParserState} {start stop : Nat} {e : Expr}, Ready s →
    8 * (stop - start + 1) + 5 ≤ fuel → substitution fuel start stop s = (e, s') →
    s'.log.size = s.log.size →
    Reads s s' [] ∧ Faultless (s.source.slice start stop)
      ∧ Spells (formsOf (s.source.slice start stop)) e ∧ e.Respects

/-- What every function of the parser promises at one fuel. -/
structure SoundAt (fuel : Nat) : Prop where
  binary : BinarySound fuel
  climb : ClimbSound fuel
  ternary : TernarySound fuel
  unary : UnarySound fuel
  chain : ChainSound fuel
  arguments : ArgumentsSound fuel
  listUntil : ListUntilSound fuel
  items : ItemsSound fuel
  primary : PrimarySound fuel
  construct : ConstructSound fuel
  properties : PropertiesSound fuel
  template : TemplateSound fuel
  substitutions : SubstitutionsSound fuel
  substitution : SubstitutionSound fuel

/-! ## Operators -/

theorem sound_unary {fuel : Nat} (ih : SoundAt fuel) : UnarySound (fuel + 1) := by
  intro s s' r hs hfuel hrun hlog
  rw [Parse.unary] at hrun
  simp only [bind_run, peek_run] at hrun
  have hlook := s.follows_look.log
  -- An operator that may stand in front, or an operand with what follows it.  Wherever the function
  -- complains, the log has grown, against `hlog`.
  by_cases hbefore : s.front.kind.isPrefixOperator = true
  · simp only [hbefore, if_true, bind_run, advance_run, ParserState.look_pass] at hrun
    rcases hx : Parse.unary fuel s.pass with ⟨x, s1⟩
    have hpass := s.follows_pass
    have hf := (steadyAt fuel).unary.follows hx
    have hflog := hf.log
    have hplog := hpass.log
    rw [hx] at hrun
    cases x with
    | none =>
      simp only [bind_run, pure_run] at hrun
      obtain ⟨rfl, rfl⟩ := hrun
      have hmax : s1.maxErrors = 0 := by rw [hf.maxErrors, hpass.maxErrors, hs.unlimited]
      have :=
        complain_log .expectExpression ("expected operand after '" ++ s.front.text ++ "'") hmax
      -- the operand is missing, and that is reported
      omega
    | some x =>
      simp only [pure_run] at hrun
      obtain ⟨rfl, rfl⟩ := hrun
      have hend : s.front.kind ≠ .endOfScript := by
        intro h
        simp [h, TokenKind.isPrefixOperator] at hbefore
      obtain ⟨l, hl, htoken, hgenuine⟩ := Reads.pass hs hend (by omega)
      have hw := hl.weight_eq
      rw [weight_cons] at hw
      obtain ⟨e, ts, he, htree, hstrength⟩ := ih.unary hl.ready (by omega) hx (by omega)
      cases he
      refine ⟨_, l :: ts, rfl, ⟨hl.trans htree.toReads, ?_, ?_⟩, Nat.le_refl _⟩
      · refine ⟨formsIn ts, ?_, htree.spells⟩
        rw [formsIn_cons, hgenuine.form_prefixOperator (by rw [htoken, hbefore]), htoken]
      · exact ⟨hbefore, hstrength, htree.respects⟩
  · simp only [hbefore, Bool.false_eq_true, if_false, bind_run] at hrun
    rcases hx : Parse.primary fuel s.look with ⟨x, s1⟩
    have hf := (steadyAt fuel).primary.follows hx
    have hflog := hf.log
    rw [hx] at hrun
    cases x with
    | none =>
      simp only [pure_run] at hrun
      obtain ⟨rfl, rfl⟩ := hrun
      -- without an operand something was reported, but nothing was
      obtain ⟨_, _, h, _⟩ :=
        ih.primary (hs.look (by omega)) (by simpa using (by omega)) hx (by omega)
      cases h
    | some x =>
      simp only [bind_run, pure_run] at hrun
      rcases hc : Parse.chain fuel x s1 with ⟨e, s2⟩
      have hg := ((steadyAt fuel).chain x).follows hc
      have hglog := hg.log
      rw [hc] at hrun
      dsimp only at hrun
      obtain ⟨rfl, rfl⟩ := hrun
      obtain ⟨e', ts, he, htree, hcallee, hnew⟩ :=
        ih.primary (hs.look (by omega)) (by simpa using (by omega)) hx (by omega)
      cases he
      have hw := htree.weight_lt
      rw [ParserState.look_rest] at hw
      -- an operand and its chain bind tighter than any prefix operator
      obtain ⟨us, hext, hstrength⟩ := ih.chain htree.ready htree.respects
        (strength_of_isCallee hcallee) hnew (by omega) hc (by omega)
      have hread := (Reads.look hs (by omega)).trans (htree.toReads.trans hext.toReads)
      refine ⟨e, ts ++ us, rfl, ⟨hread, (htree.extend hext).spells, hext.respects⟩, ?_⟩
      unfold Expr.trailingStrength at hstrength
      unfold Expr.prefixStrength
      omega

theorem sound_binary {fuel : Nat} (ih : SoundAt fuel) : BinarySound (fuel + 1) := by
  intro s s' r floor hs hfloor hfuel hrun hlog
  rw [Parse.binary] at hrun
  simp only [bind_run] at hrun
  rcases hx : Parse.unary fuel s with ⟨x, s1⟩
  have hf := (steadyAt fuel).unary.follows hx
  have hflog := hf.log
  rw [hx] at hrun
  -- without an operand a report would have been written, against `hlog`
  cases x with
  | none =>
    simp only [pure_run] at hrun
    obtain ⟨rfl, rfl⟩ := hrun
    obtain ⟨_, _, h, _⟩ := ih.unary hs (by omega) hx hlog
    cases h
  | some x =>
    simp only [bind_run, pure_run] at hrun
    rcases hc : Parse.climb fuel floor x s1 with ⟨e, s2⟩
    have hg := ((steadyAt fuel).climb floor x).follows hc
    have hglog := hg.log
    rw [hc] at hrun
    dsimp only at hrun
    obtain ⟨rfl, rfl⟩ := hrun
    obtain ⟨_, ts, he, htree, hstrength⟩ := ih.unary hs (by omega) hx (by omega)
    cases he
    have hw := htree.weight_lt
    obtain ⟨us, hext, hlt, hpull⟩ := ih.climb htree.ready hfloor htree.respects (by omega)
      (pull_le_rightFloor _ hstrength) (by omega) hc (by omega)
    -- the operand and what the climb read behind it stand side by side
    exact ⟨e, ts ++ us, rfl, htree.extend hext, hlt, hpull⟩

theorem sound_ternary {fuel : Nat} (ih : SoundAt fuel) : TernarySound (fuel + 1) := by
  intro s s' cond e hs hfront hcond hstrong hfuel hrun hlog
  rw [Parse.ternary] at hrun
  simp only [bind_run, advance_run] at hrun
  have hpass := s.follows_pass
  have hplog := hpass.log
  rcases hyes : Parse.binary fuel (assignmentStrength - 1) s.pass with ⟨yes, s1⟩
  have hf := ((steadyAt fuel).binary _).follows hyes
  have hflog := hf.log
  have hmax1 : s1.maxErrors = 0 := by rw [hf.maxErrors, hpass.maxErrors, hs.unlimited]
  rw [hyes] at hrun
  cases yes with
  | none =>
    simp only [bind_run, pure_run] at hrun
    obtain ⟨rfl, rfl⟩ := hrun
    have := complain_log .expectExpression "expected expression after '?'" hmax1
    -- nothing behind the question mark: a report
    omega
  | some yes =>
    simp only [bind_run, expect_run] at hrun
    by_cases hcolon : s1.front.kind = .symbol .colon
    · have hpass1 := s1.follows_pass
      have hplog1 := hpass1.log
      rcases hno : Parse.binary fuel (assignmentStrength - 1) s1.pass with ⟨no, s2⟩
      have hg := ((steadyAt fuel).binary _).follows hno
      have hglog := hg.log
      simp only [hcolon, if_true, bind_run, hno] at hrun
      cases no with
      | none =>
        simp only [bind_run, pure_run] at hrun
        obtain ⟨rfl, rfl⟩ := hrun
        have hmax2 : s2.maxErrors = 0 := by rw [hg.maxErrors, hpass1.maxErrors, hmax1]
        have := complain_log .expectExpression "expected expression after ':'" hmax2
        -- nothing behind the colon: a report
        omega
      | some no =>
        simp only [pure_run] at hrun
        obtain ⟨rfl, rfl⟩ := hrun
        obtain ⟨l, hl, htoken, hgenuine⟩ := Reads.pass hs (by simp [hfront]) (by omega)
        have hw := hl.weight_eq
        rw [weight_cons] at hw
        obtain ⟨_, ts, hsome, htree, _, _⟩ := ih.binary hl.ready (by decide) (by omega) hyes
          (by omega)
        cases hsome
        have hw1 := htree.weight_lt
        obtain ⟨m, hm, htoken', hgenuine'⟩ :=
          Reads.pass htree.ready (by simp [hcolon]) (by omega)
        have hw2 := hm.weight_eq
        rw [weight_cons] at hw2
        obtain ⟨_, us, hsome, htree', _, hpull⟩ := ih.binary hm.ready (by decide) (by omega) hno
          (by omega)
        cases hsome
        have hl' := hgenuine.form_symbol (htoken ▸ hfront)
        have hm' := hgenuine'.form_symbol (htoken' ▸ hcolon)
        refine ⟨_, yes, no, l :: ts ++ m :: us, rfl, ⟨?_, ?_, ?_⟩, by simp, hpull⟩
        -- the tokens stand one behind the other: question mark, arm, colon, arm
        · have := ((hl.trans htree.toReads).trans hm).trans htree'.toReads
          simpa using this
        · intro vs hvs
          refine ⟨vs, formsIn ts, formsIn us, ?_, hvs, htree.spells, htree'.spells⟩
          simp [hl', hm']
        · exact ⟨hstrong, hcond, htree.respects, htree'.respects⟩
    · simp only [hcolon, if_false, pure_run] at hrun
      obtain ⟨rfl, rfl⟩ := hrun
      have hlook := s1.follows_look
      have hllog := hlook.log
      have hmax2 : s1.look.maxErrors = 0 := by rw [hlook.maxErrors, hmax1]
      have := complain_log .unexpectedToken "expected ':' in conditional expression" hmax2
      -- no colon: a report
      omega

section Climb

variable {fuel floor : Nat} (ih : SoundAt fuel) {s s' : ParserState} {left e : Expr} (hs : Ready s)
  (hfloor : floor < Expr.prefixStrength) (hleft : left.Respects)
  (hpull : s.front.kind.pull ≤ left.rightFloor) (hfuel : 8 * weight s.rest + 2 ≤ fuel + 1)
  (hlog : s'.log.size = s.log.size)

include ih hs hfloor hleft hpull hfuel hlog

/-- A question mark that binds more tightly than the floor is followed by the branches of a
conditional expression, and more operators. -/
theorem sound_climb_ternary (hquestion : s.front.kind = .symbol .question)
    (hlt : floor < assignmentStrength)
    (hrun : (Parse.ternary fuel left >>= Parse.climb fuel floor) s.look = (e, s')) :
    ∃ ts, Extends s s' ts left e ∧ floor < e.strength ∧ s'.front.kind.pull ≤ floor := by
  have hllog := s.follows_look.log
  have hpull' : s.front.kind.pull = assignmentStrength := by rw [hquestion]; rfl
  simp only [bind_run] at hrun
  rcases ht : Parse.ternary fuel left s.look with ⟨t, s1⟩
  have hf := ((steadyAt fuel).ternary left).follows ht
  have hflog := hf.log
  rw [ht] at hrun
  dsimp only at hrun
  have hg := ((steadyAt fuel).climb floor t).follows hrun
  have hglog := hg.log
  have hread := Reads.look hs (by omega)
  rw [hpull'] at hpull
  obtain ⟨span, yes, no, ts, rfl, hext, hne, hpull1⟩ := ih.ternary hread.ready
    (by simpa using hquestion) hleft (condition_left hpull hleft)
    (by simpa using (by omega)) ht (by omega)
  have hw := hext.weight_eq
  have hpos := weight_pos hne
  rw [ParserState.look_rest] at hw
  -- `? :` pulls as weakly as an assignment, so that what stands behind it climbs on from there
  obtain ⟨us, hext', hlt', hpull2⟩ := ih.climb hext.ready hfloor hext.respects (by
    simpa only [Expr.strength] using hlt) hpull1 (by omega) hrun (by omega)
  have hall := hext.trans hext'
  exact ⟨ts ++ us, ⟨hread.trans hall.toReads, hall.spells, hall.respects⟩, hlt', hpull2⟩

/-- An operator that binds more tightly than the floor is followed by its right operand, and more
operators. -/
theorem sound_climb_binary {b : Binding} (hb : s.front.kind.binding? = some b)
    (hlt : floor < b.strength)
    (hrun : (Parse.binary fuel (if b.toTheRight then b.strength - 1 else b.strength) >>= fun right =>
      match right with
      | none => do
        Parse.complain .expectExpression ("expected expression after '" ++ s.front.text ++ "'")
        return left
      | some right =>
        Parse.climb fuel floor (.binary (left.span.cover right.span) s.front.kind left right))
      s.pass = (e, s')) :
    ∃ ts, Extends s s' ts left e ∧ floor < e.strength ∧ s'.front.kind.pull ≤ floor := by
  -- the floor that the right side is read with is named once, for both ways to associate
  generalize hfloor' : (if b.toTheRight = true then b.strength - 1 else b.strength) = floor' at hrun
  have hstrength := TokenKind.strength_lt hb
  have hlt' : floor' < Expr.prefixStrength := by
    rw [← hfloor']
    split <;> omega
  have hpass := s.follows_pass
  have hplog := hpass.log
  simp only [bind_run] at hrun
  rcases hr : Parse.binary fuel floor' s.pass with ⟨right, s1⟩
  have hf := ((steadyAt fuel).binary floor').follows hr
  have hflog := hf.log
  rw [hr] at hrun
  cases right with
  | none =>
    simp only [bind_run, pure_run] at hrun
    obtain ⟨rfl, rfl⟩ := hrun
    have hmax : s1.maxErrors = 0 := by rw [hf.maxErrors, hpass.maxErrors, hs.unlimited]
    have := complain_log .expectExpression
      ("expected expression after '" ++ s.front.text ++ "'") hmax
    -- no right side: a report
    omega
  | some right =>
    dsimp only at hrun
    have hg := ((steadyAt fuel).climb floor _).follows hrun
    have hglog := hg.log
    have hend : s.front.kind ≠ .endOfScript := by
      intro h
      simp [h, TokenKind.binding?] at hb
    obtain ⟨l, hl, htoken, hgenuine⟩ := Reads.pass hs hend (by omega)
    have hw := hl.weight_eq
    rw [weight_cons] at hw
    obtain ⟨_, ts, hsome, htree, hright, hpull1⟩ := ih.binary hl.ready hlt' (by omega) hr
      (by omega)
    cases hsome
    have hw1 := htree.weight_lt
    -- what was read on the right is as strong as the operator admits on that side
    have hadmits : b.Admits left.strength right.strength := by
      have hadm := admits_left hb hpull hleft
      unfold Binding.Admits
      by_cases hside : b.toTheRight = true
      · simp only [hside, if_true] at hadm hfloor' ⊢
        omega
      · simp only [hside, Bool.false_eq_true, if_false] at hadm hfloor' ⊢
        omega
    have hform := hgenuine.form_operator (by rw [htoken, hb]; rfl)
    -- one round of `climb` puts the operator and its right side behind the left side
    have hnode : Extends s s1 (l :: ts) left
        (.binary (left.span.cover right.span) s.front.kind left right) := by
      refine ⟨hl.trans htree.toReads, fun us hus => ?_, ⟨b, hb, hadmits⟩, hleft, htree.respects⟩
      exact ⟨us, formsIn ts, by rw [formsIn_cons, hform, htoken], hus, htree.spells⟩
    -- the rounds that follow start from the node that was built
    obtain ⟨us, hext, hlt2, hpull2⟩ := ih.climb htree.ready hfloor hnode.respects (by
      simpa only [Expr.strength, hb, Option.map_some, Option.getD_some] using hlt) (by
      simp only [Expr.rightFloor, hb, Option.map_some, Option.getD_some, hfloor']
      exact hpull1) (by omega) hrun (by omega)
    exact ⟨l :: ts ++ us, hnode.trans hext, hlt2, hpull2⟩

end Climb

theorem sound_climb {fuel : Nat} (ih : SoundAt fuel) : ClimbSound (fuel + 1) := by
  intro s s' left e floor hs hfloor hleft hstrong hpull hfuel hrun hlog
  rw [Parse.climb] at hrun
  simp only [bind_run, peek_run] at hrun
  -- where the operator binds too loosely, or there is none, the tree is the left operand
  have hstop (hr : (left, s.look) = (e, s')) (hle : s.front.kind.pull ≤ floor) :
      ∃ ts, Extends s s' ts left e ∧ floor < e.strength ∧ s'.front.kind.pull ≤ floor := by
    obtain ⟨rfl, rfl⟩ := hr
    exact ⟨[], .refl (Reads.look hs hlog) hleft, hstrong, by rwa [ParserState.look_front]⟩
  by_cases hquestion : s.front.kind = .symbol .question
  · simp only [hquestion, if_true] at hrun
    by_cases hle : assignmentStrength ≤ floor
    · simp only [hle, if_true, pure_run] at hrun
      exact hstop hrun (by rw [hquestion]; exact hle)
    · simp only [hle, if_false] at hrun
      exact sound_climb_ternary ih hs hfloor hleft hpull hfuel hlog hquestion (by omega) hrun
  · simp only [hquestion, if_false] at hrun
    cases hb : s.front.kind.binding? with
    | none =>
      simp only [hb, pure_run] at hrun
      refine hstop hrun ?_
      unfold TokenKind.pull
      split
      · rename_i hq
        exact absurd hq hquestion
      · simp [hb]
    | some b =>
      simp only [hb] at hrun
      by_cases hle : b.strength ≤ floor
      · simp only [hle, if_true, pure_run] at hrun
        exact hstop hrun (by rwa [TokenKind.pull_of_binding hb])
      · simp only [hle, if_false, bind_run, advance_run, ParserState.look_pass] at hrun
        refine sound_climb_binary ih hs hfloor hleft hpull hfuel hlog hb (by omega) ?_
        rw [bind_run]
        exact hrun

/-! ## Lists -/

theorem sound_items {fuel : Nat} (ih : SoundAt fuel) : ItemsSound (fuel + 1) := by
  intro s s' closing acc r hs hfuel hrun hlog
  rw [Parse.items] at hrun
  simp only [bind_run, peek_run] at hrun
  have hllog := s.follows_look.log
  -- The list ends here, or it goes on with an element, behind which a comma may stand.
  by_cases hstop : (s.front.kind = .symbol closing || s.front.kind = .endOfScript) = true
  · simp only [hstop, if_true, pure_run] at hrun
    obtain ⟨rfl, rfl⟩ := hrun
    exact ⟨[], [], by simp, Reads.look hs hlog, rfl, trivial⟩
  · simp only [hstop, Bool.false_eq_true, if_false, bind_run] at hrun
    rcases hx : Parse.binary fuel 0 s.look with ⟨x, s1⟩
    have hflog := (((steadyAt fuel).binary 0).follows hx).log
    rw [hx] at hrun
    cases x with
    | none =>
      simp only [pure_run] at hrun
      obtain ⟨rfl, rfl⟩ := hrun
      obtain ⟨_, _, h, _⟩ := ih.binary (hs.look (by omega)) (by decide) (by simpa using (by omega))
        hx (by omega)
      -- an element that is missing was reported
      cases h
    | some x =>
      simp only [bind_run, at?_run, decide_eq_true_eq] at hrun
      have hllog1 := s1.follows_look.log
      by_cases hcomma : s1.front.kind = .symbol .comma
      · simp only [hcomma, if_true, bind_run, advance_run, ParserState.look_pass] at hrun
        have hplog := s1.follows_pass.log
        have hglog := (((steadyAt fuel).items _ _).follows hrun).log
        have hread := Reads.look hs (by omega)
        obtain ⟨_, ts, hsome, htree, _⟩ := ih.binary hread.ready (by decide)
          (by simpa using (by omega)) hx (by omega)
        cases hsome
        have hw := htree.weight_lt
        rw [ParserState.look_rest] at hw
        obtain ⟨l, hl, htoken, hgenuine⟩ := Reads.pass htree.ready (by simp [hcomma]) (by omega)
        have hw1 := hl.weight_eq
        rw [weight_cons] at hw1
        obtain ⟨xs, us, rfl, hlist⟩ := ih.items hl.ready (by omega) hrun (by omega)
        have hform := hgenuine.form_symbol (htoken ▸ hcomma)
        refine ⟨x :: xs, ts ++ l :: us, by simp, ?_, ?_, htree.respects, hlist.respects⟩
        · have := ((hread.trans htree.toReads).trans hl).trans hlist.toReads
          simpa using this
        · refine ⟨formsIn ts, htree.spells, .inr ⟨formsIn us, ?_, hlist.spells⟩⟩
          rw [formsIn_append, formsIn_cons, hform]
      · simp only [hcomma, if_false, pure_run] at hrun
        obtain ⟨rfl, rfl⟩ := hrun
        have hread := Reads.look hs (by omega)
        obtain ⟨_, ts, hsome, htree, _⟩ := ih.binary hread.ready (by decide)
          (by simpa using (by omega)) hx (by omega)
        cases hsome
        have hread' := (hread.trans htree.toReads).trans (Reads.look htree.ready (by omega))
        refine ⟨[x], ts, by simp, by simpa using hread', ?_, htree.respects, trivial⟩
        exact ⟨formsIn ts, htree.spells, .inl ⟨rfl, rfl⟩⟩

theorem sound_listUntil {fuel : Nat} (ih : SoundAt fuel) : ListUntilSound (fuel + 1) := by
  intro s s' closing code message xs stop hs hfuel hrun hlog
  rw [Parse.listUntil] at hrun
  simp only [bind_run, get_run, expect_run, pure_run] at hrun
  rcases hx : Parse.items fuel (.symbol closing) #[] s with ⟨ys, s1⟩
  have hf := ((steadyAt fuel).items _ _).follows hx
  have hflog := hf.log
  rw [hx] at hrun
  dsimp only at hrun
  by_cases hclosing : s1.front.kind = .symbol closing
  · simp only [hclosing, if_true] at hrun
    obtain ⟨⟨rfl, rfl⟩, rfl⟩ := hrun
    have hplog := s1.follows_pass.log
    obtain ⟨zs, ts, rfl, hlist⟩ := ih.items hs (by omega) hx (by omega)
    obtain ⟨l, hl, htoken, hgenuine⟩ := Reads.pass hlist.ready (by simp [hclosing]) (by omega)
    refine ⟨ts ++ [l], formsIn ts, hlist.toReads.trans hl, ?_, by simpa using hlist.spells,
      by simpa using hlist.respects⟩
    rw [formsIn_append, formsIn_cons, hgenuine.form_symbol (htoken ▸ hclosing), formsIn_nil]
  · simp only [hclosing, if_false] at hrun
    obtain ⟨⟨rfl, rfl⟩, rfl⟩ := hrun
    -- the missing closing token is reported, which `hlog` rules out
    have hlook := s1.follows_look
    have hllog := hlook.log
    have hmax : s1.look.maxErrors = 0 := by rw [hlook.maxErrors, hf.maxErrors, hs.unlimited]
    have := complain_log code message hmax
    omega

theorem sound_arguments {fuel : Nat} (ih : SoundAt fuel) : ArgumentsSound (fuel + 1) := by
  intro s s' args stop hs hfront hfuel hrun hlog
  rw [Parse.arguments] at hrun
  simp only [bind_run, advance_run, pure_run] at hrun
  rcases hx : Parse.listUntil fuel (.symbol .rightParen) .unclosedParen "expected ')'" s.pass
    with ⟨⟨xs, last⟩, s1⟩
  have hflog := (((steadyAt fuel).listUntil _ _ _).follows hx).log
  have hplog := s.follows_pass.log
  rw [hx] at hrun
  dsimp only at hrun
  obtain ⟨⟨rfl, _⟩, rfl⟩ := hrun
  obtain ⟨l, hl, htoken, hgenuine⟩ := Reads.pass hs (by simp [hfront]) (by omega)
  have hw := hl.weight_eq
  rw [weight_cons] at hw
  obtain ⟨ts, us, hread, hforms, hspells, hrespects⟩ := ih.listUntil hl.ready (by omega) hx
    (by omega)
  refine ⟨l :: ts, us, hl.trans hread, ?_, hspells, hrespects⟩
  rw [formsIn_cons, hgenuine.form_symbol (htoken ▸ hfront), hforms, List.cons_append]

/-! ## What follows an operand -/

/-- A point and a name after a tree. -/
theorem extends_member {s : ParserState} {base : Expr} {name : Token} {s' : ParserState}
    (hs : Ready s) (hdot : s.front.kind = .symbol .dot)
    (hname : expectName s.pass = (some name, s')) (hlog : s'.log.size = s.log.size)
    (hbase : base.Respects) (hstrong : base.strength = Expr.tightest)
    (hnew : base.isOpenNew = false) (span : Span) :
    ∃ ts, Extends s s' ts base (.member span base name.text name.span) ∧ ts ≠ [] := by
  have hplog := s.follows_pass.log
  rw [expectName_run] at hname
  split at hname
  · rename_i hkind
    obtain ⟨⟨rfl⟩, rfl⟩ := hname
    have hplog1 := s.pass.follows_pass.log
    obtain ⟨l, hl, htoken, hgenuine⟩ := Reads.pass hs (by simp [hdot]) (by omega)
    have hend : s.pass.front.kind ≠ .endOfScript := by
      intro h
      -- the end of the script is no property name
      simp [h, TokenKind.isPropertyName] at hkind
    obtain ⟨m, hm, htoken', hgenuine'⟩ := Reads.pass hl.ready hend (by omega)
    have hform := hgenuine'.form_property (by rw [htoken', hkind])
    -- of the two tokens one is the dot, the other spells the name as it stands
    refine ⟨[l, m], ⟨hl.trans hm, fun us hus => ⟨us, ?_, hus⟩, hstrong, hnew, hbase⟩, by simp⟩
    rw [formsIn_cons, formsIn_cons, formsIn_nil, hgenuine.form_symbol (htoken ▸ hdot), hform,
      htoken']
  · cases hname

/-- Without a name after the point something is reported. -/
theorem expectName_some {s s' : ParserState} {name : Option Token} (hmax : s.maxErrors = 0)
    (hname : expectName s = (name, s')) (hlog : s'.log.size = s.log.size) :
    ∃ t, name = some t := by
  rw [expectName_run] at hname
  split at hname
  · obtain ⟨rfl, rfl⟩ := hname
    exact ⟨_, rfl⟩
  · obtain ⟨rfl, rfl⟩ := hname
    have hlook := s.follows_look
    have hllog := hlook.log
    have := complain_log .expectIdentifier "expected property name after '.'"
      (hlook.maxErrors.trans hmax)
    omega

theorem sound_properties {fuel : Nat} (ih : SoundAt fuel) : PropertiesSound (fuel + 1) := by
  intro s s' base e hs hbase hcallee hnew hfuel hrun hlog
  rw [Parse.properties] at hrun
  simp only [bind_run, at?_run, decide_eq_true_eq] at hrun
  have hllog := s.follows_look.log
  by_cases hdot : s.front.kind = .symbol .dot
  · simp only [hdot, if_true, bind_run, advance_run, ParserState.look_pass] at hrun
    rcases hx : expectName s.pass with ⟨name, s1⟩
    have hflog := (Steady.follows follows_expectName hx).log
    have hpass := s.follows_pass
    have hplog := hpass.log
    rw [hx] at hrun
    -- a construction without arguments takes no property behind it
    have hopen : base.isOpenNew = false := by
      by_contra h
      have := hnew (by simpa using h)
      simp [TokenKind.extendsNew, hdot] at this
    cases name with
    | none =>
      simp only [pure_run] at hrun
      obtain ⟨rfl, rfl⟩ := hrun
      obtain ⟨_, h⟩ := expectName_some (hpass.maxErrors.trans hs.unlimited) hx (by omega)
      -- a name that is missing was reported
      cases h
    | some name =>
      dsimp only at hrun
      have hglog := (((steadyAt fuel).properties _).follows hrun).log
      obtain ⟨ts, hext, hne⟩ := extends_member hs hdot hx (by omega) hbase
        (strength_of_isCallee hcallee) hopen (base.span.cover name.span)
      have hw := hext.weight_eq
      have hpos := weight_pos hne
      obtain ⟨us, hext', hrest⟩ := ih.properties hext.ready hext.respects hcallee (by
        simp [Expr.isOpenNew]) (by omega) hrun (by omega)
      exact ⟨ts ++ us, hext.trans hext', hrest⟩
  · simp only [hdot, if_false, pure_run] at hrun
    obtain ⟨rfl, rfl⟩ := hrun
    refine ⟨[], .refl (Reads.look hs hlog) hbase, hcallee, ?_⟩
    rw [ParserState.look_front]
    exact ⟨hdot, hnew⟩

section Chain

variable {fuel : Nat} (ih : SoundAt fuel) {s s' : ParserState} {base e : Expr} (hs : Ready s)
  (hbase : base.Respects) (hstrong : base.strength = Expr.tightest)
  (hfuel : 8 * weight s.rest + 2 ≤ fuel + 1) (hrun : Parse.chain (fuel + 1) base s = (e, s'))
  (hlog : s'.log.size = s.log.size)

include ih hs hbase hstrong hfuel hrun hlog

/-- A point is followed by the name of a property, and the rest of the chain. -/
theorem sound_chain_member (hdot : s.front.kind = .symbol .dot) (hnew : base.isOpenNew = false) :
    ∃ ts, Extends s s' ts base e ∧ Expr.trailingStrength ≤ e.strength := by
  rw [Parse.chain] at hrun
  simp only [bind_run, peek_run, hdot, if_true, advance_run, ParserState.look_pass] at hrun
  have hpass := s.follows_pass
  have hplog := hpass.log
  rcases hx : expectName s.pass with ⟨name, s1⟩
  have hflog := (Steady.follows follows_expectName hx).log
  rw [hx] at hrun
  cases name with
  | none =>
    simp only [pure_run] at hrun
    obtain ⟨rfl, rfl⟩ := hrun
    -- as above: a name that is missing has been reported
    obtain ⟨_, h⟩ := expectName_some (hpass.maxErrors.trans hs.unlimited) hx (by omega)
    cases h
  | some name =>
    dsimp only at hrun
    have hglog := (((steadyAt fuel).chain _).follows hrun).log
    obtain ⟨ts, hext, hne⟩ := extends_member hs hdot hx (by omega) hbase hstrong hnew
      (base.span.cover name.span)
    have hw := hext.weight_eq
    have hpos := weight_pos hne
    obtain ⟨us, hext', hrest⟩ := ih.chain hext.ready hext.respects rfl (by
      simp [Expr.isOpenNew]) (by omega) hrun (by omega)
    exact ⟨ts ++ us, hext.trans hext', hrest⟩

/-- A bracket is followed by an index, the closing bracket, and the rest of the chain. -/
theorem sound_chain_index (hbracket : s.front.kind = .symbol .leftBracket) :
    ∃ ts, Extends s s' ts base e ∧ Expr.trailingStrength ≤ e.strength := by
  rw [Parse.chain] at hrun
  simp only [bind_run, peek_run, hbracket, TokenKind.symbol.injEq, reduceCtorEq, if_false, if_true,
    advance_run, ParserState.look_pass, expect_run] at hrun
  have hpass := s.follows_pass
  have hplog := hpass.log
  have hmax : s.pass.maxErrors = 0 := hpass.maxErrors.trans hs.unlimited
  rcases hx : Parse.binary fuel 0 s.pass with ⟨i, s1⟩
  have hf := ((steadyAt fuel).binary 0).follows hx
  have hflog := hf.log
  rw [hx] at hrun
  by_cases hclosing : s1.front.kind = .symbol .rightBracket
  · simp only [hclosing, if_true] at hrun
    have hpass1 := s1.follows_pass
    have hplog1 := hpass1.log
    cases i with
    | none =>
      simp only [bind_run, pure_run] at hrun
      obtain ⟨rfl, rfl⟩ := hrun
      have := complain_log .expectExpression "expected index expression"
        (hpass1.maxErrors.trans (hf.maxErrors.trans hmax))
      -- an index that is missing was reported
      omega
    | some i =>
      dsimp only at hrun
      have hglog := (((steadyAt fuel).chain _).follows hrun).log
      obtain ⟨l, hl, htoken, hgenuine⟩ := Reads.pass hs (by simp [hbracket]) (by omega)
      have hw := hl.weight_eq
      rw [weight_cons] at hw
      obtain ⟨_, ts, hsome, htree, _⟩ := ih.binary hl.ready (by decide) (by omega) hx (by omega)
      cases hsome
      have hw1 := htree.weight_lt
      obtain ⟨m, hm, htoken', hgenuine'⟩ := Reads.pass htree.ready (by simp [hclosing]) (by omega)
      have hw2 := hm.weight_eq
      rw [weight_cons] at hw2
      have hnode : ∀ span, Extends s s1.pass (l :: ts ++ [m]) base (.index span base i) := by
        intro span
        refine ⟨(hl.trans htree.toReads).trans hm, fun us hus => ?_, hstrong, hbase,
          htree.respects⟩
        refine ⟨us, formsIn ts, ?_, hus, htree.spells⟩
        simp [hgenuine.form_symbol (htoken ▸ hbracket),
          hgenuine'.form_symbol (htoken' ▸ hclosing)]
      obtain ⟨us, hext, hrest⟩ := ih.chain hm.ready (hnode _).respects rfl (by
        simp [Expr.isOpenNew]) (by omega) hrun (by omega)
      exact ⟨_, (hnode _).trans hext, hrest⟩
  -- a bracket that is missing is reported, whatever was read as the index
  · simp only [hclosing, if_false] at hrun
    have hlook1 := s1.follows_look
    have hllog1 := hlook1.log
    have hmax1 : s1.look.maxErrors = 0 := by rw [hlook1.maxErrors, hf.maxErrors, hmax]
    have hlost := complain_log .unclosedBracket "expected ']'" hmax1
    cases i with
    | none =>
      simp only [bind_run, pure_run] at hrun
      obtain ⟨rfl, rfl⟩ := hrun
      have hmore := (follows_complain .expectExpression "expected index expression"
        (complain .unclosedBracket "expected ']'" s1.look).2).log
      omega
    | some i =>
      dsimp only at hrun
      have hglog := (((steadyAt fuel).chain _).follows hrun).log
      omega

/-- A parenthesis is followed by arguments and the rest of the chain. -/
theorem sound_chain_call (hparen : s.front.kind = .symbol .leftParen)
    (hnew : base.isOpenNew = false) :
    ∃ ts, Extends s s' ts base e ∧ Expr.trailingStrength ≤ e.strength := by
  rw [Parse.chain] at hrun
  simp only [bind_run, peek_run, hparen, TokenKind.symbol.injEq, reduceCtorEq, if_false,
    if_true] at hrun
  have hllog := s.follows_look.log
  rcases hx : Parse.arguments fuel s.look with ⟨⟨args, stop⟩, s1⟩
  have hflog := ((steadyAt fuel).arguments.follows hx).log
  rw [hx] at hrun
  dsimp only at hrun
  have hglog := (((steadyAt fuel).chain _).follows hrun).log
  have hread := Reads.look hs (by omega)
  obtain ⟨ts, vs, hread', hforms, hspells, hrespects⟩ := ih.arguments hread.ready
    (by simpa using hparen) (by simpa using (by omega)) hx (by omega)
  have hw := hread'.weight_eq
  rw [ParserState.look_rest] at hw
  -- the fuel goes down, for the parentheses at least have been read
  have hpos : 0 < weight ts := weight_pos (by
    rintro rfl
    simp at hforms)
  have hnode : ∀ span, Extends s s1 ts base (.call span base args) := by
    intro span
    refine ⟨hread.trans hread', fun us hus => ?_, hstrong, hnew, hbase, hrespects⟩
    -- in one spelling the arguments are a list of their own, behind that of the base
    exact ⟨us, vs, by simp [hforms], hus, hspells⟩
  obtain ⟨us, hext, hrest⟩ := ih.chain hread'.ready (hnode _).respects rfl (by
    simp [Expr.isOpenNew]) (by omega) hrun (by omega)
  exact ⟨_, (hnode _).trans hext, hrest⟩

omit ih hfuel in
/-- A doubled sign ends the chain. -/
theorem sound_chain_trailing
    (hop : s.front.kind = .symbol .plusPlus ∨ s.front.kind = .symbol .minusMinus) :
    ∃ ts, Extends s s' ts base e ∧ Expr.trailingStrength ≤ e.strength := by
  obtain ⟨hdot, hbracket, hparen⟩ : s.front.kind ≠ .symbol .dot
      ∧ s.front.kind ≠ .symbol .leftBracket ∧ s.front.kind ≠ .symbol .leftParen := by
    rcases hop with h | h <;> simp [h]
  have htrailing : (s.front.kind = .symbol .plusPlus || s.front.kind = .symbol .minusMinus)
      = true := by
    simpa using hop
  rw [Parse.chain] at hrun
  simp only [bind_run, peek_run, hdot, hbracket, hparen, if_false, htrailing, if_true, advance_run,
    ParserState.look_pass, ParserState.look_front, pure_run] at hrun
  obtain ⟨rfl, rfl⟩ := hrun
  have hend : s.front.kind ≠ .endOfScript := by
    rcases hop with h | h <;> simp [h]
  obtain ⟨l, hl, htoken, hgenuine⟩ := Reads.pass hs hend hlog
  have hform := hgenuine.form_prefixOperator (by rcases hop with h | h <;> rw [htoken, h] <;> rfl)
  refine ⟨[l], ⟨hl, fun us hus => ⟨us, ?_, hus⟩, hop, hstrong, hbase⟩, Nat.le_refl _⟩
  rw [formsIn_cons, hform, formsIn_nil, htoken]

end Chain

theorem sound_chain {fuel : Nat} (ih : SoundAt fuel) : ChainSound (fuel + 1) := by
  intro s s' base e hs hbase hstrong hnew hfuel hrun hlog
  have hopen : s.front.kind.extendsNew = true → base.isOpenNew = false := by
    intro h
    by_contra hb
    simp [hnew (by simpa using hb)] at h
  by_cases hdot : s.front.kind = .symbol .dot
  · exact sound_chain_member ih hs hbase hstrong hfuel hrun hlog hdot
      (hopen (by simp [TokenKind.extendsNew, hdot]))
  by_cases hbracket : s.front.kind = .symbol .leftBracket
  · exact sound_chain_index ih hs hbase hstrong hfuel hrun hlog hbracket
  by_cases hparen : s.front.kind = .symbol .leftParen
  · exact sound_chain_call ih hs hbase hstrong hfuel hrun hlog hparen
      (hopen (by simp [TokenKind.extendsNew, hparen]))
  by_cases hop : s.front.kind = .symbol .plusPlus ∨ s.front.kind = .symbol .minusMinus
  · exact sound_chain_trailing hs hbase hstrong hrun hlog hop
  -- nothing that goes on with the chain
  rw [Parse.chain] at hrun
  simp only [bind_run, peek_run, hdot, hbracket, hparen, if_false] at hrun
  rw [if_neg (by simpa using hop)] at hrun
  obtain ⟨rfl, rfl⟩ := hrun
  refine ⟨[], .refl (Reads.look hs hlog) hbase, ?_⟩
  rw [hstrong]
  decide

/-- The two ways to read what is constructed promise the same. -/
theorem sound_callee {fuel : Nat} (ih : SoundAt fuel) {s s1 : ParserState} {callee : Option Expr}
    (h : (if s.front.kind = .keyword .new then Parse.construct fuel s.look
      else Parse.primary fuel s.look) = (callee, s1)) :
    Follows s s1 ∧ (Ready s → 8 * weight s.rest + 2 ≤ fuel → s1.log.size = s.log.size →
      ∃ e ts, callee = some e ∧ ReadsTree s s1 ts e ∧ e.isCallee = true
        ∧ (e.isOpenNew = true → s1.front.kind.extendsNew = false)) := by
  have hlook := s.follows_look
  -- after `new` another `new` may stand, elsewhere a primary only
  have hllog := hlook.log
  by_cases hword : s.front.kind = .keyword .new
  · simp only [hword, if_true] at h
    have hf := (steadyAt fuel).construct.follows h
    have hflog := hf.log
    refine ⟨hlook.trans hf, fun hs hw hquiet => ?_⟩
    have hread := Reads.look hs (by omega)
    obtain ⟨e, ts, he, htree, hrest⟩ := ih.construct hread.ready (by simpa using hword)
      (by simpa using (by omega)) h (by omega)
    exact ⟨e, ts, he, ⟨hread.trans htree.toReads, htree.spells, htree.respects⟩, hrest⟩
  · simp only [hword, if_false] at h
    have hf := (steadyAt fuel).primary.follows h
    have hflog := hf.log
    refine ⟨hlook.trans hf, fun hs hw hquiet => ?_⟩
    have hread := Reads.look hs (by omega)
    obtain ⟨e, ts, he, htree, hrest⟩ := ih.primary hread.ready (by simpa using (by omega)) h
      (by omega)
    exact ⟨e, ts, he, ⟨hread.trans htree.toReads, htree.spells, htree.respects⟩, hrest⟩

theorem sound_construct {fuel : Nat} (ih : SoundAt fuel) : ConstructSound (fuel + 1) := by
  intro s s' r hs hfront hfuel hrun hlog
  rw [construct_run] at hrun
  have hplog := s.follows_pass.log
  rcases hx : (if s.pass.front.kind = .keyword .new then Parse.construct fuel s.pass.look
    else Parse.primary fuel s.pass.look) with ⟨callee, s1⟩
  obtain ⟨hf, hsound⟩ := sound_callee ih hx
  have hflog := hf.log
  rw [hx] at hrun
  cases callee with
  | none =>
    obtain ⟨rfl, rfl⟩ := hrun
    obtain ⟨l, hl, _⟩ := Reads.pass hs (by simp [hfront]) (by omega)
    have hw := hl.weight_eq
    rw [weight_cons] at hw
    -- the callee of a construction is owed
    obtain ⟨_, _, h, _⟩ := hsound hl.ready (by omega) (by omega)
    cases h
  | some first =>
    rcases hp : Parse.properties fuel first s1 with ⟨callee, s2⟩
    have hglog := (((steadyAt fuel).properties first).follows hp).log
    have hllog := s2.follows_look.log
    simp only [hp] at hrun
    -- nothing was reported up to the end of the callee
    have hs2 : s2.log.size = s.log.size := by
      by_cases hparen : s2.front.kind = .symbol .leftParen
      · simp only [hparen, if_true] at hrun
        obtain ⟨rfl, rfl⟩ := hrun
        have := ((steadyAt fuel).arguments s2.look).log
        omega
      · simp only [hparen, if_false] at hrun
        obtain ⟨rfl, rfl⟩ := hrun
        omega
    obtain ⟨l, hl, htoken, hgenuine⟩ := Reads.pass hs (by simp [hfront]) (by omega)
    have hw := hl.weight_eq
    rw [weight_cons] at hw
    obtain ⟨_, ts, hsome, htree, hcallee, hnew⟩ := hsound hl.ready (by omega) (by omega)
    cases hsome
    have hw1 := htree.weight_lt
    obtain ⟨us, hext, hcallee', hdot, hnew'⟩ := ih.properties htree.ready htree.respects hcallee
      hnew (by omega) hp (by omega)
    have hw2 := hext.weight_eq
    have hread := (hl.trans htree.toReads).trans hext.toReads
    have hspells := (htree.extend hext).spells
    have hform := hgenuine.form_keyword (htoken ▸ hfront)
    -- with arguments the construction is closed, without them nothing may extend it
    by_cases hparen : s2.front.kind = .symbol .leftParen
    · simp only [hparen, if_true] at hrun
      rcases ha : Parse.arguments fuel s2.look with ⟨⟨args, stop⟩, s3⟩
      have halog := ((steadyAt fuel).arguments.follows ha).log
      rw [ha] at hrun
      dsimp only at hrun
      obtain ⟨rfl, rfl⟩ := hrun
      have hlook := Reads.look hext.ready (by omega)
      obtain ⟨vs, ws, hread', hforms, hlist, hargs⟩ := ih.arguments hlook.ready
        (by simpa using hparen) (by simpa using (by omega)) ha (by omega)
      refine ⟨_, l :: (ts ++ us) ++ vs, rfl, ⟨?_, ?_, ?_⟩, rfl, by simp [Expr.isOpenNew]⟩
      · simpa using (hread.trans hlook).trans hread'
      · refine ⟨formsIn (ts ++ us), formsIn vs, ?_, hspells, ws, hforms, hlist⟩
        simp [hform]
      · refine ⟨hcallee', fun _ => ?_, by simp, hext.respects, hargs⟩
        by_contra h
        have := hnew' (by simpa using h)
        simp [TokenKind.extendsNew, hparen] at this
    · simp only [hparen, if_false] at hrun
      obtain ⟨rfl, rfl⟩ := hrun
      have hlook := Reads.look hext.ready (by omega)
      refine ⟨_, l :: (ts ++ us), rfl, ⟨?_, ?_, ?_⟩, rfl, fun _ => ?_⟩
      · simpa using hread.trans hlook
      · refine ⟨formsIn (ts ++ us), [], ?_, hspells, rfl⟩
        simp [hform]
      · exact ⟨hcallee', by simp, fun _ => rfl, hext.respects, trivial⟩
      · rw [ParserState.look_front]
        simp [TokenKind.extendsNew, hdot, hparen]

/-! ## Operands -/

theorem reads_leaf {s : ParserState} {e : Expr} (hs : Ready s) (hleaf : leaf? s.front = some e)
    (hlog : s.pass.log.size = s.log.size) : ∃ ts, ReadsTree s s.pass ts e ∧ e.isCallee = true
      ∧ e.isOpenNew = false := by
  have hend : s.front.kind ≠ .endOfScript := by
    intro h
    simp [leaf?, h] at hleaf
  obtain ⟨l, hl, htoken, hgenuine⟩ := Reads.pass hs hend hlog
  rw [← htoken] at hleaf
  refine ⟨[l], ?_⟩
  unfold leaf? at hleaf
  split at hleaf
  -- the kinds without a leaf drop out, the rest are words or carry their own spelling
  all_goals
    try cases hleaf
  all_goals
    rename_i hkind
  case h_1 | h_2 | h_7 =>
    exact ⟨⟨hl, by simp [Spells, Token.form, hkind], by simp [Expr.Respects, Expr.LiteralFits]⟩,
      rfl, rfl⟩
  all_goals
    refine ⟨⟨hl, ?_, ?_⟩, rfl, rfl⟩
    · simp [Spells, hgenuine.form_word hkind]
    · simp [Expr.Respects, Expr.LiteralFits, hgenuine.keyword _ hkind]

section Primary

variable {fuel : Nat} (ih : SoundAt fuel) {s s' : ParserState} {r : Option Expr} (hs : Ready s)
  (hfuel : 8 * weight s.rest + 2 ≤ fuel + 1) (hrun : primary (fuel + 1) s = (r, s'))
  (hlog : s'.log.size = s.log.size)

include ih hs hfuel hrun hlog

/-- The token of a template is read with its substitutions. -/
theorem sound_primary_template (htemplate : s.front.kind = .template) :
    ∃ e ts, r = some e ∧ ReadsTree s s' ts e ∧ e.isCallee = true ∧ e.isOpenNew = false := by
  have hpass := s.follows_pass
  have hplog := hpass.log
  rw [primary_template fuel htemplate] at hrun
  rcases ht : Parse.template fuel s.front s.pass with ⟨e, s1⟩
  have hglog := (((steadyAt fuel).template _).follows ht).log
  rw [ht] at hrun
  dsimp only at hrun
  obtain ⟨rfl, rfl⟩ := hrun
  obtain ⟨l, hl, htoken, hgenuine⟩ := Reads.pass hs (by simp [htemplate]) (by omega)
  have hw := hl.weight_eq
  rw [weight_cons, htoken] at hw
  have hplace := hgenuine.template (htoken ▸ htemplate)
  rw [htoken, ← hpass.source] at hplace
  obtain ⟨hread, hspells, hrespects, hcallee, hopen⟩ := ih.template hl.ready hplace (by omega)
    ht (by omega)
  refine ⟨e, [l], rfl, ⟨hl.trans hread, ?_, hrespects⟩, hcallee, hopen⟩
  simpa [Token.form, htoken, htemplate] using hspells

/-- An expression in parentheses; where the closing one is missed, that is reported. -/
theorem sound_primary_group (hparen : s.front.kind = .symbol .leftParen) :
    ∃ e ts, r = some e ∧ ReadsTree s s' ts e ∧ e.isCallee = true ∧ e.isOpenNew = false := by
  have hpass := s.follows_pass
  have hplog := hpass.log
  rw [primary_group fuel hparen] at hrun
  rcases hx : Parse.binary fuel 0 s.pass with ⟨inner, s1⟩
  have hf := ((steadyAt fuel).binary 0).follows hx
  have hglog := hf.log
  simp only [hx, expect_run] at hrun
  -- The group is closed, or its bracket is missing, which is reported.
  by_cases hclosing : s1.front.kind = .symbol .rightParen
  · simp only [hclosing, if_true] at hrun
    have hplog1 := s1.follows_pass.log
    have hs1 : s1.log.size = s.log.size := by
      cases inner <;> obtain ⟨rfl, rfl⟩ := hrun <;> omega
    obtain ⟨l, hl, htoken, hgenuine⟩ := Reads.pass hs (by simp [hparen]) (by omega)
    have hw := hl.weight_eq
    rw [weight_cons] at hw
    obtain ⟨e, ts, rfl, htree, _⟩ := ih.binary hl.ready (by decide) (by omega) hx (by omega)
    obtain ⟨rfl, rfl⟩ := hrun
    obtain ⟨m, hm, htoken', hgenuine'⟩ := Reads.pass htree.ready (by simp [hclosing]) (by omega)
    refine ⟨_, l :: ts ++ [m], rfl,
      ⟨(hl.trans htree.toReads).trans hm, ⟨formsIn ts, ?_, htree.spells⟩, htree.respects⟩, rfl, rfl⟩
    simp [hgenuine.form_symbol (htoken ▸ hparen), hgenuine'.form_symbol (htoken' ▸ hclosing)]
  · simp only [hclosing, if_false] at hrun
    have hlook1 := s1.follows_look
    have hllog1 := hlook1.log
    have hmax : s1.look.maxErrors = 0 := by
      rw [hlook1.maxErrors, hf.maxErrors, hpass.maxErrors, hs.unlimited]
    have hlost := complain_log .unclosedParen "expected ')'" hmax
    cases inner <;> obtain ⟨rfl, rfl⟩ := hrun <;> omega

/-- A list of expressions in brackets. -/
theorem sound_primary_array (hbracket : s.front.kind = .symbol .leftBracket) :
    ∃ e ts, r = some e ∧ ReadsTree s s' ts e ∧ e.isCallee = true ∧ e.isOpenNew = false := by
  have hplog := s.follows_pass.log
  rw [primary_array fuel hbracket] at hrun
  rcases hx : Parse.listUntil fuel (.symbol .rightBracket) .unclosedBracket
    "expected ']'" s.pass with ⟨⟨xs, stop⟩, s1⟩
  have hglog := (((steadyAt fuel).listUntil _ _ _).follows hx).log
  simp only [hx] at hrun
  obtain ⟨rfl, rfl⟩ := hrun
  obtain ⟨l, hl, htoken, hgenuine⟩ := Reads.pass hs (by simp [hbracket]) (by omega)
  have hw := hl.weight_eq
  rw [weight_cons] at hw
  obtain ⟨ts, us, hread, hforms, hspells, hrespects⟩ := ih.listUntil hl.ready (by omega) hx
    (by omega)
  refine ⟨_, l :: ts, rfl, ⟨hl.trans hread, ⟨us, ?_, hspells⟩, hrespects⟩, rfl, rfl⟩
  rw [formsIn_cons, hgenuine.form_symbol (htoken ▸ hbracket), hforms, List.cons_append]

/-- A construction is read by the function for it, from the word `new` on. -/
theorem sound_primary_new (hnew : s.front.kind = .keyword .new) :
    ∃ e ts, r = some e ∧ ReadsTree s s' ts e ∧ e.isCallee = true
      ∧ (e.isOpenNew = true → s'.front.kind.extendsNew = false) := by
  have hllog := s.follows_look.log
  rw [primary_new fuel hnew] at hrun
  have hglog := ((steadyAt fuel).construct.follows hrun).log
  have hread := Reads.look hs (by omega)
  obtain ⟨e, ts, rfl, htree, hrest⟩ := ih.construct hread.ready (by simpa using hnew)
    (by simpa using (by omega)) hrun (by omega)
  exact ⟨e, ts, rfl, ⟨hread.trans htree.toReads, htree.spells, htree.respects⟩, hrest⟩

end Primary

theorem sound_primary {fuel : Nat} (ih : SoundAt fuel) : PrimarySound (fuel + 1) := by
  intro s s' r hs hfuel hrun hlog
  -- only a construction can be open
  have closed : (∃ e ts, r = some e ∧ ReadsTree s s' ts e ∧ e.isCallee = true
      ∧ e.isOpenNew = false) → ∃ e ts, r = some e ∧ ReadsTree s s' ts e ∧ e.isCallee = true
      ∧ (e.isOpenNew = true → s'.front.kind.extendsNew = false) := by
    rintro ⟨e, ts, hr, htree, hcallee, hopen⟩
    exact ⟨e, ts, hr, htree, hcallee, by simp [hopen]⟩
  by_cases hstart : startsOperand s.front = true
  · simp only [startsOperand, Bool.or_eq_true, decide_eq_true_eq, Option.isSome_iff_exists]
      at hstart
    rcases hstart with (((⟨e, hleaf⟩ | htemplate) | hparen) | hbracket) | hnew
    · rw [primary_leaf fuel hleaf] at hrun
      obtain ⟨rfl, rfl⟩ := hrun
      obtain ⟨ts, htree, hcallee, hopen⟩ := reads_leaf hs hleaf hlog
      exact closed ⟨e, ts, rfl, htree, hcallee, hopen⟩
    · exact closed (sound_primary_template ih hs hfuel hrun hlog htemplate)
    · exact closed (sound_primary_group ih hs hfuel hrun hlog hparen)
    · exact closed (sound_primary_array ih hs hfuel hrun hlog hbracket)
    · exact sound_primary_new ih hs hfuel hrun hlog hnew
  · have hllog := s.follows_look.log
    have hflog := ((steadyAt (fuel + 1)).primary.follows ((primary_look fuel s).trans hrun)).log
    have hlost := primary_other fuel (by simpa using hstart) (hs.front_ne_invalid (by omega))
      hs.unlimited
    rw [hrun] at hlost
    dsimp only at hlost
    omega

/-! ## Templates -/

/-- A text whose tokens were read to the end. -/
theorem formsOf_of_reads {text : Bytes} {file : FileId} {pos : Nat} {s : ParserState}
    {ts : List Lexeme} (hrest : lexemes file pos text = ts ++ s.rest)
    (hclean : ∀ l ∈ ts, l.notices = [] ∧ l.token.kind ≠ .endOfScript)
    (hend : s.front.kind = .endOfScript) : formsOf text = formsIn ts ∧ Faultless text := by
  obtain ⟨ls, last, hls, hforms, hkind⟩ := lexemes_eq file pos text
  have hlex : ls ++ [lexemeEnd file last] = ts ++ s.rest := hls.symm.trans hrest
  -- The tokens that were consumed are all but the end of the script.
  have hne : s.rest ≠ [] := by
    intro hnil
    rw [hnil, List.append_nil] at hlex
    exact (hclean (lexemeEnd file last) (by simp [← hlex])).2 rfl
  obtain ⟨us, last', hus⟩ := List.eq_nil_or_concat s.rest |>.resolve_left hne
  rw [hus, List.concat_eq_append, ← List.append_assoc] at hlex
  obtain ⟨hts, hlast⟩ := List.append_inj' hlex rfl
  -- behind the end of the script there is no token
  have hnil : us = [] := by
    cases us with
    | nil => rfl
    | cons u us =>
      have hu : u.token.kind = .endOfScript := by
        simpa [ParserState.front, hus] using hend
      exact absurd hu (hkind u (by simp [hts]))
  rw [hnil, List.append_nil] at hts
  subst hts
  refine ⟨hforms.symm, ?_⟩
  rw [← faultless_iff file pos, hls]
  intro l hl
  rcases List.mem_append.mp hl with hl | hl
  · exact (hclean l hl).1
  · obtain rfl : l = lexemeEnd file last := by simpa using hl
    rfl

theorem sound_substitution {fuel : Nat} (ih : SoundAt fuel) : SubstitutionSound (fuel + 1) := by
  intro s s' start stop e hs hfuel hrun hlog
  rw [substitution_run] at hrun
  rcases hx : Parse.binary fuel 0 (s.inside start stop) with ⟨x, s1⟩
  have hf := ((steadyAt fuel).binary 0).follows hx
  have hflog := hf.log
  have hg := follows_substitutionEnd s1
  have hglog := hg.log
  have hinside : (s.inside start stop).log.size = s.log.size := rfl
  rw [hx] at hrun
  dsimp only at hrun
  obtain ⟨rfl, rfl⟩ := hrun
  have hquiet : (substitutionEnd s1).log.size = s.log.size := hlog
  have hready : Ready (s.inside start stop) :=
    ⟨hs.unlimited, genuine_lexemesIn s.source s.file start stop, by simp [ParserState.inside]⟩
  have hw : weight (s.inside start stop).rest ≤ stop - start + 1 :=
    weight_lexemesIn s.source s.file start stop
  obtain ⟨e, ts, rfl, htree, _⟩ := ih.binary hready (by decide) (by omega) hx (by omega)
  -- a token left over would have been reported
  have hend : s1.front.kind = .endOfScript := by
    by_contra hend
    have hmax : s1.look.maxErrors = 0 := by
      rw [s1.follows_look.maxErrors, htree.ready.unlimited]
    have hlost := report_log .unexpectedToken s1.front.span
      ("unexpected '" ++ s1.front.text ++ "' in template substitution") hmax
    have hllog := s1.follows_look.log
    simp only [substitutionEnd, hend, if_false] at hquiet
    omega
  -- so the tokens that were consumed are those of the text between the braces
  obtain ⟨hforms, hfaultless⟩ := formsOf_of_reads htree.rest htree.clean hend
  have hsource : (substitutionEnd s1).source = s.source := hg.source.trans hf.source
  have hout : Ready ((substitutionEnd s1).outside s) := by
    refine ⟨(hg.maxErrors.trans hf.maxErrors).trans hs.unlimited, ?_, hs.heard⟩
    simpa [ParserState.outside, hsource] using hs.genuine
  refine ⟨⟨rfl, by simp, hout⟩, hfaultless, ?_, htree.respects⟩
  rw [hforms]
  exact htree.spells

theorem sound_substitutions {fuel : Nat} (ih : SoundAt fuel) : SubstitutionsSound (fuel + 1) := by
  intro s s' ps acc r hs hfuel hrun hlog
  cases ps with
  | nil =>
    rw [Parse.substitutions] at hrun
    simp only [pure_run] at hrun
    obtain ⟨rfl, rfl⟩ := hrun
    exact ⟨[], by simp, ⟨rfl, by simp, hs⟩, trivial, rfl⟩
  | cons p ps =>
    rw [Parse.substitutions] at hrun
    simp only [bind_run] at hrun
    rcases hx : Parse.substitution fuel p.start p.stop s with ⟨x, s1⟩
    have hf := ((steadyAt fuel).substitution _ _).follows hx
    have hflog := hf.log
    rw [hx] at hrun
    dsimp only at hrun
    have hglog := (((steadyAt fuel).substitutions _ _).follows hrun).log
    have hp := hfuel p (by simp)
    rw [List.length_cons] at hp
    obtain ⟨hread, hfaultless, hspells, hrespects⟩ := ih.substitution hs (by omega) hx (by omega)
    -- each substitution is read on its own, from the tokens between its braces
    obtain ⟨parts, rfl, hread', hrespects', hspells'⟩ := ih.substitutions hread.ready (by
      intro q hq
      have := hfuel q (by simp [hq])
      rw [List.length_cons] at this
      omega) hrun (by omega)
    refine ⟨(p.text, x) :: parts, by simp, hread.trans hread', ⟨hrespects, hrespects'⟩, ?_⟩
    rw [hf.source] at hspells'
    exact ⟨_, _, rfl, hfaultless, hspells, hspells'⟩

theorem sound_template {fuel : Nat} (ih : SoundAt fuel) : TemplateSound (fuel + 1) := by
  intro s s' t e hs hplace hfuel hrun hlog
  rw [Parse.template] at hrun
  simp only [bind_run] at hrun
  obtain ⟨hparts, htail, hunclosed⟩ := templateOf_shift t.span.start t.text
  rcases hx : Parse.substitutions fuel (templateOf t.span.start t.text).parts #[] s
    with ⟨parts, s1⟩
  have hf := ((steadyAt fuel).substitutions _ _).follows hx
  have hflog := hf.log
  rw [hx] at hrun
  dsimp only at hrun
  -- An open template is reported; in a closed one each substitution was read.
  cases hopen : (templateOf t.span.start t.text).unclosed with
  | some pos =>
    simp only [hopen, bind_run, get_run, pure_run] at hrun
    obtain ⟨rfl, rfl⟩ := hrun
    have := report_log .unclosedTemplate ⟨s1.file, pos, t.span.stop⟩
      "missing closing '\x7d' in template substitution" (hf.maxErrors.trans hs.unlimited)
    omega
  | none =>
    simp only [hopen, pure_run] at hrun
    obtain ⟨rfl, rfl⟩ := hrun
    obtain ⟨ps, rfl, hread, hrespects, hspells⟩ := ih.substitutions hs (by
      intro p hp
      rw [hparts] at hp ⊢
      obtain ⟨q, hq, rfl⟩ := List.mem_map.mp hp
      have := templateOf_bounds t.text q hq
      have hpos := List.length_pos_of_mem hq
      rw [List.length_map]
      simp only [TemplatePart.shift, Nat.add_sub_add_left]
      omega) hx hlog
    refine ⟨hread, ⟨t.text, rfl, hunclosed.mp hopen, htail.symm, ?_⟩, hrespects, rfl, rfl⟩
    rw [hparts, List.map_map] at hspells
    unfold templatePieces
    -- the texts between the braces, taken from the source and from the token, are the same
    have hpieces : ∀ p ∈ (templateOf 0 t.text).parts,
        ((fun p : TemplatePart => (p.text, s.source.slice p.start p.stop))
          ∘ TemplatePart.shift t.span.start) p
        = (p.text, (t.text.drop p.start).take (p.stop - p.start)) := by
      intro p hp
      have hbounds := templateOf_bounds t.text p hp
      simp only [Function.comp_apply, TemplatePart.shift]
      rw [slice_inside hplace hbounds.2.1]
    rw [List.map_congr_left hpieces] at hspells
    simpa using hspells

/-! ## All functions together -/

-- Without fuel nothing is read at all, and `hfuel` says that there is some.
theorem soundAt_zero : SoundAt 0 where
  binary _ _ hfuel := absurd hfuel (by omega)
  climb _ _ _ _ _ hfuel := absurd hfuel (by omega)
  ternary _ _ _ _ hfuel := absurd hfuel (by omega)
  unary _ hfuel := absurd hfuel (by omega)
  chain _ _ _ _ hfuel := absurd hfuel (by omega)
  arguments _ _ hfuel := absurd hfuel (by omega)
  listUntil _ hfuel := absurd hfuel (by omega)
  items _ hfuel := absurd hfuel (by omega)
  primary _ hfuel := absurd hfuel (by omega)
  construct _ _ hfuel := absurd hfuel (by omega)
  properties _ _ _ _ hfuel := absurd hfuel (by omega)
  template _ _ hfuel := absurd hfuel (by omega)
  substitutions := by
    intro s s' ps acc r hs hfuel hrun hlog
    cases ps with
    | nil =>
      rw [Parse.substitutions] at hrun
      simp only [pure_run] at hrun
      obtain ⟨rfl, rfl⟩ := hrun
      exact ⟨[], by simp, ⟨rfl, by simp, hs⟩, trivial, rfl⟩
    | cons p ps =>
      have := hfuel p (by simp)
      omega
  substitution _ hfuel := absurd hfuel (by omega)

theorem soundAt (fuel : Nat) : SoundAt fuel := by
  induction fuel with
  | zero => exact soundAt_zero
  | succ fuel ih =>
    exact ⟨sound_binary ih, sound_climb ih, sound_ternary ih, sound_unary ih, sound_chain ih,
      sound_arguments ih, sound_listUntil ih, sound_items ih, sound_primary ih,
      sound_construct ih, sound_properties ih, sound_template ih, sound_substitutions ih,
      sound_substitution ih⟩

/-! ## Statements -/

theorem steady_statements (fuel : Nat) (acc : Array Expr) : Steady (statements fuel acc) := by
  induction fuel generalizing acc with
  | zero =>
    rw [statements]
    exact .pure _
  | succ fuel ih =>
    rw [statements]
    refine .bind steady_peek fun t => .ite (.pure _) (.ite (.bind steady_advance fun _ => ih _)
      (.bind ((steadyAt fuel).binary 0) fun x => ?_))
    cases x with
    | none => exact ih _
    | some x =>
      refine .bind steady_peek fun t => .ite (ih _) (.ite ?_ ?_)
      · exact .bind steady_advance fun _ => ih _
      · exact .bind (follows_report _ _ _) fun _ => .bind steady_advance fun _ => ih _

/-- A token after an expression that does not separate statements is reported. -/
theorem statements_reported (fuel : Nat) (acc : Array Expr) (span : Span) (message : Bytes)
    {s : ParserState} (hmax : s.maxErrors = 0) :
    s.log.size < ((report .unexpectedToken span message >>= fun _ =>
      advance >>= fun _ => statements fuel acc) s).2.log.size := by
  simp only [bind_run, advance_run]
  have hlost := report_log .unexpectedToken span message hmax
  have hpass := (ParserState.follows_pass (report .unexpectedToken span message s).2).log
  have hrest := (steady_statements fuel acc (report .unexpectedToken span message s).2.pass).log
  omega

/-- What a run that reports nothing makes of its tokens. -/
theorem statements_sound {fuel : Nat} {s s' : ParserState} {acc : Array Expr} {r : Statements}
    (hs : Ready s) (hfuel : 8 * weight s.rest + 5 ≤ fuel)
    (hrun : statements fuel acc s = (r, s')) (hlog : s'.log.size = s.log.size) :
    ∃ es ts, r = acc.toList ++ es ∧ Reads s s' ts ∧ s'.front.kind = .endOfScript
      ∧ SpellsScript (formsIn ts) es ∧ ∀ e ∈ es, e.Respects := by
  -- By induction on the fuel, which is never used up: a round that says nothing consumes a token.
  induction fuel generalizing s acc with
  | zero => omega
  | succ fuel ih =>
    rw [statements] at hrun
    simp only [bind_run, peek_run] at hrun
    have hllog := s.follows_look.log
    by_cases hend : s.front.kind = .endOfScript
    · simp only [hend, if_true, pure_run] at hrun
      obtain ⟨rfl, rfl⟩ := hrun
      exact ⟨[], [], by simp, Reads.look hs hlog, by simpa using hend, .nil, by simp⟩
    simp only [hend, if_false] at hrun
    by_cases hsemi : s.front.kind = .symbol .semicolon
    · simp only [hsemi, if_true, bind_run, advance_run, ParserState.look_pass] at hrun
      have hplog := s.follows_pass.log
      have hglog := ((steady_statements _ _).follows hrun).log
      obtain ⟨l, hl, htoken, hgenuine⟩ := Reads.pass hs hend (by omega)
      have hw := hl.weight_eq
      rw [weight_cons] at hw
      obtain ⟨es, ts, rfl, hread, hstop, hspells, hrespects⟩ := ih hl.ready (by omega) hrun
        (by omega)
      refine ⟨es, l :: ts, rfl, hl.trans hread, hstop, ?_, hrespects⟩
      rw [formsIn_cons, hgenuine.form_symbol (htoken ▸ hsemi)]
      exact .skip hspells
    simp only [hsemi, if_false, bind_run] at hrun
    rcases hx : Parse.binary fuel 0 s.look with ⟨x, s1⟩
    have hflog := (((steadyAt fuel).binary 0).follows hx).log
    rw [hx] at hrun
    dsimp only at hrun
    cases x with
    | none =>
      have hglog := ((steady_statements _ _).follows hrun).log
      obtain ⟨_, _, h, _⟩ := (soundAt fuel).binary (hs.look (by omega)) (by decide)
        (by simpa using (by omega)) hx (by omega)
      cases h
    | some x =>
      simp only [bind_run, peek_run] at hrun
      have hllog1 := s1.follows_look.log
      -- whatever the function does next, it takes no report back
      have hcont : s1.look.log.size ≤ s'.log.size := by
        have hnext := Steady.ite (c := (s1.front.kind = .symbol .semicolon
            || s1.front.kind = .endOfScript) = true) (steady_statements fuel (acc.push x))
          (.ite (c := s1.front.kind = .invalid)
            (.bind steady_advance fun _ => steady_statements fuel (acc.push x))
            (.bind (follows_report .unexpectedToken s1.front.span
              ("unexpected '" ++ s1.front.text ++ "' after expression")) fun _ =>
              .bind steady_advance fun _ => steady_statements fuel (acc.push x)))
        exact (hnext.follows hrun).log
      have hread := Reads.look hs (by omega)
      obtain ⟨_, ts, hsome, htree, _⟩ := (soundAt fuel).binary hread.ready (by decide)
        (by simpa using (by omega)) hx (by omega)
      cases hsome
      have hw := htree.weight_lt
      rw [ParserState.look_rest] at hw
      by_cases hnext : (s1.front.kind = .symbol .semicolon || s1.front.kind = .endOfScript) = true
      · simp only [hnext, if_true] at hrun
        have hlook := Reads.look htree.ready (by omega)
        obtain ⟨es, us, rfl, hread', hstop, hspells, hrespects⟩ := ih hlook.ready
          (by simpa using (by omega)) hrun (by omega)
        have hreads := ((hread.trans htree.toReads).trans hlook).trans hread'
        refine ⟨x :: es, ts ++ us, by simp, by simpa using hreads, hstop, ?_, ?_⟩
        · rw [formsIn_append]
          refine .cons htree.spells hspells ?_
          -- the next statement starts with the semicolon that ended this one
          cases us with
          | nil => exact .inl rfl
          | cons u us =>
            have hrest : s1.rest = u :: us ++ s'.rest := by simpa using hread'.rest
            have hu : u.token = s1.front := by simp [ParserState.front, hrest]
            have hkind : s1.front.kind = .symbol .semicolon := by
              have := (hread'.clean u (by simp)).2
              rw [hu] at this
              simpa [this] using hnext
            have hgenuine := htree.ready.genuine u (by simp [hrest])
            exact .inr ⟨formsIn us, by rw [formsIn_cons, hgenuine.form_symbol (hu ▸ hkind)]⟩
        · simpa using ⟨htree.respects, hrespects⟩
      -- neither a semicolon nor the end of the script: a report
      · have hinvalid := htree.ready.front_ne_invalid (by omega)
        simp only [hnext, Bool.false_eq_true, if_false, hinvalid] at hrun
        have hlost := statements_reported fuel (acc.push x) s1.front.span
          ("unexpected '" ++ s1.front.text ++ "' after expression")
          (s1.follows_look.maxErrors.trans htree.ready.unlimited)
        rw [hrun] at hlost
        dsimp only at hlost
        omega

end Parse

end Storyline.Script
