import Mathlib.Data.Option.Basic
import Storyline.Proofs.Script.Places
import Storyline.Proofs.Script.Reading

/-!
# The same script at another place

A substitution is read where it stands in its template, so its tokens and the nodes of its tree
count from the start of the whole script.  Read on its own the same text gives the same tree, whose
places are all as much earlier as the text stood further on (`Expr.later`).

The two readings differ in more than their places: in their sources, in what was reported before,
and in how deep the calls of the parser may nest.  None of this changes what is read.
`Inset.Agrees` judges two runs from states that face the same tokens, one run in either source, each
with a fuel that is enough for these tokens (`weight`); `Inset.agreesAt` proves it of every function
of the parser.
-/

namespace Storyline

/-- A span some bytes further on. -/
def Span.later (k : Nat) (s : Span) : Span := { s with start := k + s.start, stop := k + s.stop }

namespace Span

variable (k : Nat) (s t : Span)

@[simp] theorem later_cover : (s.cover t).later k = (s.later k).cover (t.later k) := by
  by_cases h : s.file = t.file
  · simp only [cover, later, h, if_true, Nat.add_min_add_left, Nat.add_max_add_left]
  · simp only [cover, later, h, if_false]

@[simp] theorem later_isEmpty : (s.later k).isEmpty = s.isEmpty := by
  simp [isEmpty, later]

end Span

namespace Script

/-- A token some bytes further on. -/
def Token.later (k : Nat) (t : Token) : Token := { t with span := t.span.later k }

@[simp] theorem Token.later_kind (k : Nat) (t : Token) : (t.later k).kind = t.kind := rfl

@[simp] theorem Token.later_text (k : Nat) (t : Token) : (t.later k).text = t.text := rfl

@[simp] theorem Token.later_span (k : Nat) (t : Token) : (t.later k).span = t.span.later k := rfl

namespace Expr

mutual

/-- An expression some bytes further on. -/
def later (k : Nat) : Expr → Expr
  | .literal s kind raw value => .literal (s.later k) kind raw value
  | .identifier s name => .identifier (s.later k) name
  | .binary s op l r => .binary (s.later k) op (l.later k) (r.later k)
  | .unary s op x => .unary (s.later k) op (x.later k)
  | .trailing s op x => .trailing (s.later k) op (x.later k)
  | .member s b name nameSpan => .member (s.later k) (b.later k) name (nameSpan.later k)
  | .index s b i => .index (s.later k) (b.later k) (i.later k)
  | .call s c args => .call (s.later k) (c.later k) (laterAll k args)
  | .array s xs => .array (s.later k) (laterAll k xs)
  | .construct s c args hasArgs => .construct (s.later k) (c.later k) (laterAll k args) hasArgs
  | .ternary s c a b => .ternary (s.later k) (c.later k) (a.later k) (b.later k)
  | .template s parts tail => .template (s.later k) (laterIn k parts) tail
  | .group s x => .group (s.later k) (x.later k)
  | .missing => .missing

/-- Expressions some bytes further on. -/
def laterAll (k : Nat) : List Expr → List Expr
  | [] => []
  | x :: xs => x.later k :: laterAll k xs

/-- The substitutions of a template some bytes further on. -/
def laterIn (k : Nat) : List (Bytes × Expr) → List (Bytes × Expr)
  | [] => []
  | (text, x) :: rest => (text, x.later k) :: laterIn k rest

end

section Later

variable (k : Nat) (s nameSpan : Span) (op : TokenKind) (x y z : Expr) (xs : List Expr)
  (name tail : Bytes) (hasArgs : Bool) (parts : List (Bytes × Expr))

@[simp] theorem laterAll_nil : laterAll k [] = [] := rfl

@[simp] theorem laterAll_cons : laterAll k (x :: xs) = x.later k :: laterAll k xs := rfl

theorem later_binary :
    (binary s op x y).later k = .binary (s.later k) op (x.later k) (y.later k) := rfl

theorem later_unary : (unary s op x).later k = .unary (s.later k) op (x.later k) := rfl

theorem later_trailing : (trailing s op x).later k = .trailing (s.later k) op (x.later k) := rfl

theorem later_member : (member s x name nameSpan).later k
    = .member (s.later k) (x.later k) name (nameSpan.later k) := rfl

theorem later_index : (index s x y).later k = .index (s.later k) (x.later k) (y.later k) := rfl

theorem later_call : (call s x xs).later k = .call (s.later k) (x.later k) (laterAll k xs) := rfl

theorem later_array : (array s xs).later k = .array (s.later k) (laterAll k xs) := rfl

theorem later_construct : (construct s x xs hasArgs).later k
    = .construct (s.later k) (x.later k) (laterAll k xs) hasArgs := rfl

theorem later_ternary : (ternary s x y z).later k
    = .ternary (s.later k) (x.later k) (y.later k) (z.later k) := rfl

theorem later_template : (template s parts tail).later k
    = .template (s.later k) (laterIn k parts) tail := rfl

theorem later_group : (group s x).later k = .group (s.later k) (x.later k) := rfl

end Later

theorem laterAll_append (k : Nat) (xs ys : List Expr) :
    laterAll k (xs ++ ys) = laterAll k xs ++ laterAll k ys := by
  induction xs with
  | nil => rfl
  | cons x xs ih => simp [ih]

theorem laterIn_append (k : Nat) (ps qs : List (Bytes × Expr)) :
    laterIn k (ps ++ qs) = laterIn k ps ++ laterIn k qs := by
  induction ps with
  | nil => rfl
  | cons p ps ih => simp [laterIn, ih]

/-- The second expression is the first one some bytes further on.  That its place is so is said
apart, since a missing expression has no place. -/
structure Moved (k : Nat) (x y : Expr) : Prop where
  eq : y = x.later k
  span : y.span = x.span.later k

theorem span_later {x : Expr} (k : Nat) (h : x.isPresent = true) :
    (x.later k).span = x.span.later k := by
  cases x with
  | missing => cases h
  | _ => rfl

theorem Moved.present {k : Nat} {x y : Expr} (h : y = x.later k) (hx : x.isPresent = true) :
    Moved k x y := ⟨h, by rw [h, span_later k hx]⟩

end Expr

/-! ## A text at two places -/

/-- The tokens of a text some bytes further on. -/
theorem lexemes_later (file : FileId) (k pos : Nat) (s : Bytes) :
    (lexemes file (k + pos) s).map (·.token)
      = (lexemes file pos s).map fun l => l.token.later k := by
  induction s using lexemes_induction generalizing pos with
  | nil => rfl
  | space b s hb ih =>
    rw [lexemes_space file pos s hb, lexemes_space file (k + pos) s hb, Nat.add_assoc]
    exact ih (pos + 1)
  | token s hs hb ih =>
    have hscan := scan_alike (k + pos) pos s
    rw [lexemes_token file pos hs hb, lexemes_token file (k + pos) hs hb, List.map_cons,
      List.map_cons, hscan.length, Nat.add_assoc, (scan_alike pos 0 s).length, ih]
    congr 1
    simp only [lexemeAt, Token.later, Span.later, hscan.kind, hscan.length, Nat.add_assoc]

/-- A source that stands in another one. -/
structure Inset where
  inner : Content
  outer : Content
  file : FileId
  /-- Where the inner source starts in the outer one. -/
  offset : Nat
  stands : inner.toList <+: outer.toList.drop offset

namespace Inset

variable {c : Inset}

theorem slice (c : Inset) (start : Nat) {stop : Nat} (h : stop ≤ c.inner.size) :
    c.outer.slice (c.offset + start) (c.offset + stop) = c.inner.slice start stop := by
  rw [slice_inside c.stands (by simpa using h), slice_eq]

/-- Two states before the same tokens, one in either source.  The tokens weigh at most `bound`. -/
structure Twins (c : Inset) (bound : Nat) (s t : ParserState) : Prop where
  inner : s.source = c.inner
  outer : t.source = c.outer
  innerFile : s.file = c.file
  outerFile : t.file = c.file
  tokens : t.rest.map (·.token) = s.rest.map fun l => l.token.later c.offset
  last : t.last = s.last.later c.offset
  genuine : ∀ l ∈ s.rest, l.Genuine c.inner
  weight : weight s.rest ≤ bound

namespace Twins

variable {bound : Nat} {s t s' t' : ParserState}

theorem front (h : c.Twins bound s t) : t.front = s.front.later c.offset := by
  have htokens := h.tokens
  unfold ParserState.front
  cases hs : s.rest with
  | nil =>
    have ht : t.rest = [] := by simpa [hs] using htokens
    simp only [ht, Token.later, h.last]
  | cons l ls =>
    cases ht : t.rest with
    | nil => simp [hs, ht] at htokens
    | cons m ms =>
      rw [hs, ht, List.map_cons, List.map_cons] at htokens
      exact (List.cons.inj htokens).1

/-- Looks and reports change nothing that matters here. -/
theorem congr (h : c.Twins bound s t) (hs : s.Follows s') (ht : t.Follows t')
    (hrest : s'.rest = s.rest) (hrest' : t'.rest = t.rest) (hlast : s'.last = s.last)
    (hlast' : t'.last = t.last) : c.Twins bound s' t' where
  inner := hs.source.trans h.inner
  outer := ht.source.trans h.outer
  innerFile := hs.file.trans h.innerFile
  outerFile := ht.file.trans h.outerFile
  tokens := by rw [hrest, hrest', h.tokens]
  last := by rw [hlast, hlast', h.last]
  genuine := by rw [hrest]; exact h.genuine
  weight := by rw [hrest]; exact h.weight

theorem look (h : c.Twins bound s t) : c.Twins bound s.look t.look :=
  h.congr s.follows_look t.follows_look s.look_rest t.look_rest s.look_last t.look_last

/-- What is known of a token that was consumed, unless it was the end. -/
structure Consumed (c : Inset) (bound : Nat) (a : Token) (bound' : Nat) : Prop where
  lt : bound' < bound
  length : a.text.length ≤ bound
  template : a.kind = .template → a.text <+: c.inner.toList.drop a.span.start

theorem pass (h : c.Twins bound s t) : ∃ bound' ≤ bound, c.Twins bound' s.pass t.pass
    ∧ (s.front.kind ≠ .endOfScript → Consumed c bound s.front bound') := by
  have hlook := h.look
  have hfront := h.front
  by_cases hend : s.front.kind = .endOfScript
  · refine ⟨bound, Nat.le_refl _, ?_, fun hne => absurd hend hne⟩
    rw [ParserState.pass, ParserState.pass, hfront, Token.later_kind, if_pos hend, if_pos hend]
    exact hlook
  · obtain ⟨l, ls, hrest⟩ : ∃ l ls, s.rest = l :: ls := by
      cases hrest : s.rest with
      | nil => simp [ParserState.front, hrest] at hend
      | cons l ls => exact ⟨l, ls, rfl⟩
    have hl : s.front = l.token := by simp [ParserState.front, hrest]
    have hweight := h.weight
    rw [hrest, weight_cons] at hweight
    have hgenuine := h.genuine
    rw [hrest, List.forall_mem_cons] at hgenuine
    refine ⟨bound - 1, Nat.sub_le _ _, ?_, fun _ => ⟨by omega, by rw [hl]; omega, ?_⟩⟩
    · rw [ParserState.pass, ParserState.pass, hfront, Token.later_kind, if_neg hend, if_neg hend]
      refine ⟨hlook.inner, hlook.outer, hlook.innerFile, hlook.outerFile, ?_, ?_, ?_, ?_⟩
      · simp only [List.map_tail, h.tokens]
      · simp only
        split
        · exact h.last
        · rfl
      · simpa [hrest] using hgenuine.2
      · simp only [hrest, List.tail_cons]
        omega
    · rw [hl]
      exact hgenuine.1.template

theorem report (h : c.Twins bound s t) (code code' : Code) (span span' : Span)
    (message message' : Bytes) : c.Twins bound (Parse.report code span message s).2
      (Parse.report code' span' message' t).2 := by
  have hrest : ∀ (code : Code) (span : Span) (message : Bytes) (s : ParserState),
      (Parse.report code span message s).2.rest = s.rest
        ∧ (Parse.report code span message s).2.last = s.last := by
    intro code span message s
    simp only [Parse.report, Parse.modify_run]
    split <;> exact ⟨rfl, rfl⟩
  exact h.congr (Parse.follows_report ..) (Parse.follows_report ..) (hrest ..).1 (hrest ..).1
    (hrest ..).2 (hrest ..).2

theorem complain (h : c.Twins bound s t) (code code' : Code) (message message' : Bytes) :
    c.Twins bound (Parse.complain code message s).2 (Parse.complain code' message' t).2 := by
  rw [Parse.complain_run, Parse.complain_run]
  exact h.look.report ..

/-- At the start of a substitution both states face the tokens of the same text. -/
theorem inside (start : Nat) {stop : Nat} (hinner : s.source = c.inner)
    (houter : t.source = c.outer) (hfile : s.file = c.file) (hfile' : t.file = c.file)
    (hstop : stop ≤ c.inner.size) :
    c.Twins (stop - start + 1) (s.inside start stop)
      (t.inside (c.offset + start) (c.offset + stop)) where
  inner := hinner
  outer := houter
  innerFile := hfile
  outerFile := hfile'
  tokens := by
    simp only [ParserState.inside, lexemesIn, hinner, houter, hfile, hfile', c.slice start hstop,
      lexemes_later]
  last := by simp only [ParserState.inside, hfile, hfile', Span.later]
  genuine := hinner ▸ genuine_lexemesIn s.source s.file start stop
  weight := weight_lexemesIn s.source s.file start stop

/-- After a substitution the tokens around it are back. -/
theorem outside {bound' : Nat} (h : c.Twins bound s t) (h' : c.Twins bound' s' t') :
    c.Twins bound (s'.outside s) (t'.outside t) :=
  ⟨h'.inner, h'.outer, h'.innerFile, h'.outerFile, h.tokens, h.last, h.genuine, h.weight⟩

end Twins

/-! ## The judgement -/

variable {α β : Type}

/-- From twin states, the next token being as `next` says, two runs end in twin states, with
results as `P` says. -/
def Agrees (c : Inset) (bound : Nat) (next : Token → Prop) (m m' : Parse α)
    (P : Nat → α → α → Prop) : Prop :=
  ∀ s t, c.Twins bound s t → next s.front →
    ∃ bound' ≤ bound, c.Twins bound' (m s).2 (m' t).2 ∧ P bound' (m s).1 (m' t).1

/-- Any next token. -/
def anyToken (_ : Token) : Prop := True

namespace Agrees

variable {bound : Nat} {next : Token → Prop} {m m' : Parse α} {P : Nat → α → α → Prop}

theorem pure {a a' : α} (h : P bound a a') : c.Agrees bound next (pure a) (pure a') P :=
  fun _ _ hst _ => ⟨bound, Nat.le_refl _, hst, h⟩

theorem bind {f f' : α → Parse β} {Q : Nat → β → β → Prop} (hm : c.Agrees bound next m m' P)
    (hf : ∀ bound' a a', bound' ≤ bound → P bound' a a' →
      c.Agrees bound' anyToken (f a) (f' a') Q) :
    c.Agrees bound next (m >>= f) (m' >>= f') Q := by
  intro s t hst hn
  obtain ⟨b₁, h₁, hst₁, ha⟩ := hm s t hst hn
  obtain ⟨b₂, h₂, hst₂, hb⟩ := hf b₁ _ _ h₁ ha _ _ hst₁ trivial
  exact ⟨b₂, Nat.le_trans h₂ h₁, hst₂, hb⟩

theorem weaken {next' : Token → Prop} (hm : c.Agrees bound next' m m' P)
    (h : ∀ t, next t → next' t) : c.Agrees bound next m m' P :=
  fun s t hst hn => hm s t hst (h _ hn)

theorem any (hm : c.Agrees bound anyToken m m' P) : c.Agrees bound next m m' P :=
  hm.weaken fun _ _ => trivial

theorem ite {p : Prop} [Decidable p] {n n' : Parse α} (hm : p → c.Agrees bound next m m' P)
    (hn : ¬ p → c.Agrees bound next n n' P) :
    c.Agrees bound next (if p then m else n) (if p then m' else n') P := by
  by_cases h : p
  · rw [if_pos h, if_pos h]
    exact hm h
  · rw [if_neg h, if_neg h]
    exact hn h

theorem peek {f f' : Token → Parse α}
    (hf : ∀ t, next t → c.Agrees bound (· = t) (f t) (f' (t.later c.offset)) P) :
    c.Agrees bound next (Parse.peek >>= f) (Parse.peek >>= f') P := by
  intro s t hst hn
  rw [Parse.bind_run, Parse.peek_run, Parse.bind_run, Parse.peek_run, hst.front]
  exact hf s.front hn s.look t.look hst.look s.look_front

theorem advance : c.Agrees bound next Parse.advance Parse.advance fun bound' a a' =>
    next a ∧ a' = a.later c.offset
      ∧ (a.kind ≠ .endOfScript → Twins.Consumed c bound a bound') := by
  intro s t hst hn
  obtain ⟨b', hle, hst', hconsumed⟩ := hst.pass
  rw [Parse.advance_run, Parse.advance_run]
  exact ⟨b', hle, hst', hn, hst.front, hconsumed⟩

/-- Consuming a token that is not the end makes the bound smaller. -/
theorem consume {f f' : Token → Parse α} (hend : ∀ t, next t → t.kind ≠ .endOfScript)
    (hf : ∀ bound' a, bound' < bound → next a →
      c.Agrees bound' anyToken (f a) (f' (a.later c.offset)) P) :
    c.Agrees bound next (Parse.advance >>= f) (Parse.advance >>= f') P := by
  refine .bind .advance fun b₁ a a' _ ha => ?_
  obtain ⟨hnext, rfl, hconsumed⟩ := ha
  exact hf b₁ a (hconsumed (hend a hnext)).lt hnext

theorem at? {k : TokenKind} {f f' : Bool → Parse α}
    (hf : ∀ b, c.Agrees bound (fun t => decide (t.kind = k) = b) (f b) (f' b) P) :
    c.Agrees bound next (Parse.at? k >>= f) (Parse.at? k >>= f') P := by
  intro s t hst _
  rw [Parse.bind_run, Parse.at?_run, Parse.bind_run, Parse.at?_run, hst.front, Token.later_kind]
  exact hf _ s.look t.look hst.look (by rw [s.look_front])

theorem report (code code' : Code) (span span' : Span) (message message' : Bytes) :
    c.Agrees bound next (Parse.report code span message) (Parse.report code' span' message')
      fun _ _ _ => True :=
  fun _ _ hst _ => ⟨bound, Nat.le_refl _, hst.report .., trivial⟩

theorem complain (code : Code) (message message' : Bytes) :
    c.Agrees bound next (Parse.complain code message) (Parse.complain code message')
      fun _ _ _ => True :=
  fun _ _ hst _ => ⟨bound, Nat.le_refl _, hst.complain .., trivial⟩

theorem get : c.Agrees bound next (MonadState.get : Parse ParserState) MonadState.get fun _ s t =>
    t.last = s.last.later c.offset :=
  fun _ _ hst _ => ⟨bound, Nat.le_refl _, hst, hst.last⟩

/-- The token that was asked for, in both runs. -/
def Given (c : Inset) : Option Token → Option Token → Prop :=
  Option.Rel fun a a' => a' = a.later c.offset

theorem expect (k : TokenKind) (code : Code) (message : Bytes) :
    c.Agrees bound next (Parse.expect k code message) (Parse.expect k code message)
      fun _ a a' => Given c a a' := by
  intro s t hst _
  rw [Parse.expect_run, Parse.expect_run, hst.front, Token.later_kind]
  split
  · obtain ⟨b', hle, hst', -⟩ := hst.pass
    exact ⟨b', hle, hst', .some rfl⟩
  · exact ⟨bound, Nat.le_refl _, hst.look.complain .., .none⟩

theorem expectName : c.Agrees bound next Parse.expectName Parse.expectName
    fun _ a a' => Given c a a' := by
  intro s t hst _
  rw [Parse.expectName_run, Parse.expectName_run, hst.front, Token.later_kind]
  split
  · obtain ⟨b', hle, hst', -⟩ := hst.pass
    exact ⟨b', hle, hst', .some rfl⟩
  · exact ⟨bound, Nat.le_refl _, hst.look.complain .., .none⟩

end Agrees

/-! ## The parser -/

open Parse Script.Expr

/-- The expression that was found, if any, in both runs. -/
def Found (c : Inset) : Option Expr → Option Expr → Prop := Option.Rel (Moved c.offset)

/-- Substitutions that lie in the inner source, and for which a fuel is enough. -/
def Holds (c : Inset) (fuel : Nat) (ps : List TemplatePart) : Prop :=
  ∀ p ∈ ps, p.stop ≤ c.inner.size ∧ 8 * (p.stop - p.start + 1) + 5 + ps.length ≤ fuel

/-- At one fuel the functions of the parser read the same from twin states, whatever fuel the other
run has, as long as both are enough. -/
structure AgreesAt (c : Inset) (fuel : Nat) : Prop where
  binary : ∀ fuel' bound floor, 8 * bound + 4 ≤ fuel → 8 * bound + 4 ≤ fuel' →
    c.Agrees bound anyToken (binary fuel floor) (binary fuel' floor) fun _ => c.Found
  climb : ∀ fuel' bound floor left left', 8 * bound + 2 ≤ fuel → 8 * bound + 2 ≤ fuel' →
    Moved c.offset left left' →
    c.Agrees bound anyToken (climb fuel floor left) (climb fuel' floor left') fun _ =>
      Moved c.offset
  ternary : ∀ fuel' bound cond cond', 8 * bound + 1 ≤ fuel → 8 * bound + 1 ≤ fuel' →
    Moved c.offset cond cond' →
    c.Agrees bound (·.kind = .symbol .question) (ternary fuel cond) (ternary fuel' cond')
      fun bound' x x' => bound' < bound ∧ Moved c.offset x x'
  unary : ∀ fuel' bound, 8 * bound + 3 ≤ fuel → 8 * bound + 3 ≤ fuel' →
    c.Agrees bound anyToken (unary fuel) (unary fuel') fun _ => c.Found
  chain : ∀ fuel' bound base base', 8 * bound + 2 ≤ fuel → 8 * bound + 2 ≤ fuel' →
    Moved c.offset base base' →
    c.Agrees bound anyToken (chain fuel base) (chain fuel' base') fun _ => Moved c.offset
  arguments : ∀ fuel' bound, 8 * bound + 1 ≤ fuel → 8 * bound + 1 ≤ fuel' →
    c.Agrees bound (·.kind = .symbol .leftParen) (arguments fuel) (arguments fuel')
      fun bound' r r' => bound' < bound ∧ r'.1 = laterAll c.offset r.1
        ∧ r'.2 = r.2.later c.offset
  listUntil : ∀ fuel' bound closing code message, 8 * bound + 6 ≤ fuel → 8 * bound + 6 ≤ fuel' →
    c.Agrees bound anyToken (listUntil fuel closing code message)
      (listUntil fuel' closing code message)
      fun _ r r' => r'.1 = laterAll c.offset r.1 ∧ r'.2 = r.2.later c.offset
  items : ∀ fuel' bound closing acc acc', 8 * bound + 5 ≤ fuel → 8 * bound + 5 ≤ fuel' →
    acc'.toList = laterAll c.offset acc.toList →
    c.Agrees bound anyToken (items fuel closing acc) (items fuel' closing acc')
      fun _ xs xs' => xs' = laterAll c.offset xs
  primary : ∀ fuel' bound, 8 * bound + 2 ≤ fuel → 8 * bound + 2 ≤ fuel' →
    c.Agrees bound anyToken (primary fuel) (primary fuel') fun _ => c.Found
  construct : ∀ fuel' bound, 8 * bound + 1 ≤ fuel → 8 * bound + 1 ≤ fuel' →
    c.Agrees bound (·.kind = .keyword .new) (construct fuel) (construct fuel') fun _ => c.Found
  properties : ∀ fuel' bound base base', 8 * bound + 1 ≤ fuel → 8 * bound + 1 ≤ fuel' →
    Moved c.offset base base' →
    c.Agrees bound anyToken (properties fuel base) (properties fuel' base') fun _ =>
      Moved c.offset
  template : ∀ fuel' bound t, 8 * t.text.length + 1 ≤ fuel → 8 * t.text.length + 1 ≤ fuel' →
    t.text <+: c.inner.toList.drop t.span.start →
    c.Agrees bound anyToken (template fuel t) (template fuel' (t.later c.offset)) fun _ =>
      Moved c.offset
  substitutions : ∀ fuel' bound ps acc acc', c.Holds fuel ps → c.Holds fuel' ps →
    acc'.toList = laterIn c.offset acc.toList →
    c.Agrees bound anyToken (substitutions fuel ps acc)
      (substitutions fuel' (ps.map (TemplatePart.shift c.offset)) acc')
      fun _ r r' => r' = laterIn c.offset r
  substitution : ∀ fuel' bound start stop, 8 * (stop - start + 1) + 5 ≤ fuel →
    8 * (stop - start + 1) + 5 ≤ fuel' → stop ≤ c.inner.size →
    c.Agrees bound anyToken (substitution fuel start stop)
      (substitution fuel' (c.offset + start) (c.offset + stop)) fun _ x x' => x' = x.later c.offset

/-- Without fuel nothing is enough, except for a template without substitutions. -/
theorem agreesAt_zero (c : Inset) : c.AgreesAt 0 where
  binary _ _ _ h := absurd h (by omega)
  climb _ _ _ _ _ h := absurd h (by omega)
  ternary _ _ _ _ h := absurd h (by omega)
  unary _ _ h := absurd h (by omega)
  chain _ _ _ _ h := absurd h (by omega)
  arguments _ _ h := absurd h (by omega)
  listUntil _ _ _ _ _ h := absurd h (by omega)
  items _ _ _ _ _ h := absurd h (by omega)
  primary _ _ h := absurd h (by omega)
  construct _ _ h := absurd h (by omega)
  properties _ _ _ _ h := absurd h (by omega)
  template _ _ _ h := absurd h (by omega)
  substitutions fuel' bound ps acc acc' h _ hacc := by
    cases ps with
    | nil =>
      rw [Parse.substitutions, List.map_nil]
      cases fuel' <;> rw [Parse.substitutions] <;> exact .pure hacc
    | cons p ps =>
      have := (h p List.mem_cons_self).2
      omega
  substitution _ _ _ _ h := absurd h (by omega)

section Steps

variable {fuel : Nat} {bound : Nat}

theorem agrees_binary (ih : c.AgreesAt fuel) (fuel' floor : Nat) (h : 8 * bound + 4 ≤ fuel + 1)
    (h' : 8 * bound + 4 ≤ fuel') :
    c.Agrees bound anyToken (Parse.binary (fuel + 1) floor) (Parse.binary fuel' floor) fun _ =>
      c.Found := by
  obtain ⟨more, rfl⟩ : ∃ n, fuel' = n + 1 := ⟨fuel' - 1, by omega⟩
  rw [Parse.binary, Parse.binary]
  refine .bind (ih.unary more bound (by omega) (by omega)) fun b₁ _ _ h₁ hleft => ?_
  cases hleft with
  | none => exact .pure .none
  | some hleft =>
    refine .bind (ih.climb more b₁ floor _ _ (by omega) (by omega) hleft) fun _ _ _ _ he => ?_
    exact .pure (.some he)

theorem agrees_climb (ih : c.AgreesAt fuel) (fuel' floor : Nat) {left left' : Expr}
    (h : 8 * bound + 2 ≤ fuel + 1) (h' : 8 * bound + 2 ≤ fuel')
    (hleft : Moved c.offset left left') :
    c.Agrees bound anyToken (Parse.climb (fuel + 1) floor left) (Parse.climb fuel' floor left')
      fun _ => Moved c.offset := by
  obtain ⟨more, rfl⟩ : ∃ n, fuel' = n + 1 := ⟨fuel' - 1, by omega⟩
  rw [Parse.climb, Parse.climb]
  refine .peek fun op _ => ?_
  simp only [Token.later_kind, Token.later_text]
  refine .ite (fun hquestion => .ite (fun _ => .pure hleft) fun _ => ?_) fun _ => ?_
  · have hternary := ih.ternary more bound _ _ (by omega) (by omega) hleft
    refine .bind (hternary.weaken fun _ hop => hop ▸ hquestion) fun b₁ x x' _ hx => ?_
    exact ih.climb more b₁ floor x x' (by omega) (by omega) hx.2
  · cases hbinding : op.kind.binding? with
    | none => exact .pure hleft
    | some b =>
      have hend : op.kind ≠ .endOfScript := by
        intro hend
        simp [hend, TokenKind.binding?] at hbinding
      refine .ite (fun _ => .pure hleft) fun _ => .consume (by rintro _ rfl; exact hend)
        fun b₁ _ h₁ _ => ?_
      refine .bind (ih.binary more b₁ _ (by omega) (by omega)) fun b₂ _ _ h₂ hright => ?_
      cases hright with
      | none => exact .bind (.complain _ _ _) fun _ _ _ _ _ => .pure hleft
      | some hright =>
        refine ih.climb more b₂ floor _ _ (by omega) (by omega) (.present ?_ rfl)
        simp only [later_binary, Span.later_cover, ← hleft.span, ← hright.span, ← hleft.eq,
          ← hright.eq]

theorem agrees_ternary (ih : c.AgreesAt fuel) (fuel' : Nat) {cond cond' : Expr}
    (h : 8 * bound + 1 ≤ fuel + 1) (h' : 8 * bound + 1 ≤ fuel')
    (hcond : Moved c.offset cond cond') :
    c.Agrees bound (·.kind = .symbol .question) (Parse.ternary (fuel + 1) cond)
      (Parse.ternary fuel' cond') fun bound' x x' => bound' < bound ∧ Moved c.offset x x' := by
  obtain ⟨more, rfl⟩ : ∃ n, fuel' = n + 1 := ⟨fuel' - 1, by omega⟩
  rw [Parse.ternary, Parse.ternary]
  refine .consume (by intro t ht; simp [ht]) fun b₁ _ h₁ _ => ?_
  refine .bind (ih.binary more b₁ _ (by omega) (by omega)) fun b₂ _ _ h₂ hyes => ?_
  cases hyes with
  | none => exact .bind (.complain _ _ _) fun _ _ _ _ _ => .pure ⟨by omega, hcond⟩
  | some hyes =>
    refine .bind (.expect _ _ _) fun b₃ _ _ h₃ hcolon => ?_
    cases hcolon with
    | none => exact .pure ⟨by omega, hcond⟩
    | some _ =>
      refine .bind (ih.binary more b₃ _ (by omega) (by omega)) fun b₄ _ _ h₄ hno => ?_
      cases hno with
      | none => exact .bind (.complain _ _ _) fun _ _ _ _ _ => .pure ⟨by omega, hcond⟩
      | some hno =>
        refine .pure ⟨by omega, .present ?_ rfl⟩
        simp only [later_ternary, Span.later_cover, ← hcond.span, ← hno.span, ← hcond.eq,
          ← hyes.eq, ← hno.eq]

theorem agrees_unary (ih : c.AgreesAt fuel) (fuel' : Nat) (h : 8 * bound + 3 ≤ fuel + 1)
    (h' : 8 * bound + 3 ≤ fuel') :
    c.Agrees bound anyToken (Parse.unary (fuel + 1)) (Parse.unary fuel') fun _ => c.Found := by
  obtain ⟨more, rfl⟩ : ∃ n, fuel' = n + 1 := ⟨fuel' - 1, by omega⟩
  rw [Parse.unary, Parse.unary]
  refine .peek fun t _ => ?_
  simp only [Token.later_kind, Token.later_text, Token.later_span]
  refine .ite (fun hbefore => ?_) fun _ => ?_
  · have hend : t.kind ≠ .endOfScript := by
      intro hend
      simp [hend, TokenKind.isPrefixOperator] at hbefore
    refine .consume (by rintro _ rfl; exact hend) fun b₁ _ h₁ _ => ?_
    refine .bind (ih.unary more b₁ (by omega) (by omega)) fun b₂ _ _ _ hx => ?_
    cases hx with
    | none => exact .bind (.complain _ _ _) fun _ _ _ _ _ => .pure .none
    | some hx =>
      refine .pure (.some (.present ?_ rfl))
      simp only [later_unary, Span.later_cover, ← hx.span, ← hx.eq]
  · refine .any (.bind (ih.primary more bound (by omega) (by omega)) fun b₁ _ _ h₁ hx => ?_)
    cases hx with
    | none => exact .pure .none
    | some hx =>
      refine .bind (ih.chain more b₁ _ _ (by omega) (by omega) hx) fun _ _ _ _ he => ?_
      exact .pure (.some he)

/-- A property after a point, or none if there is no name. -/
theorem agrees_member {next : Token → Prop} {base base' : Expr} {m m' : Expr → Parse Expr}
    (hbase : Moved c.offset base base')
    (h : ∀ bound' x x', bound' ≤ bound → Moved c.offset x x' →
      c.Agrees bound' anyToken (m x) (m' x') fun _ => Moved c.offset) :
    c.Agrees bound next
      (expectName >>= fun name => match name with
        | none => pure base
        | some name => m (.member (base.span.cover name.span) base name.text name.span))
      (expectName >>= fun name => match name with
        | none => pure base'
        | some name => m' (.member (base'.span.cover name.span) base' name.text name.span))
      fun _ => Moved c.offset := by
  refine .bind .expectName fun b₁ name name' h₁ hname => ?_
  cases hname with
  | none => exact .pure hbase
  | some hname =>
    subst hname
    refine h b₁ _ _ h₁ (.present ?_ rfl)
    simp only [later_member, Span.later_cover, Token.later_span, Token.later_text, ← hbase.span,
      ← hbase.eq]

theorem agrees_chain (ih : c.AgreesAt fuel) (fuel' : Nat) {base base' : Expr}
    (h : 8 * bound + 2 ≤ fuel + 1) (h' : 8 * bound + 2 ≤ fuel')
    (hbase : Moved c.offset base base') :
    c.Agrees bound anyToken (Parse.chain (fuel + 1) base) (Parse.chain fuel' base')
      fun _ => Moved c.offset := by
  obtain ⟨more, rfl⟩ : ∃ n, fuel' = n + 1 := ⟨fuel' - 1, by omega⟩
  rw [Parse.chain, Parse.chain]
  -- the two states stand before the same token, moved, so both take the same branch
  refine .peek fun t _ => ?_
  simp only [Token.later_kind]
  refine .ite (fun hdot => ?_) fun _ => .ite (fun hbracket => ?_) fun _ => .ite (fun hparen => ?_)
    fun _ => .ite (fun _ => ?_) fun _ => .pure hbase
  · refine .consume (by rintro _ rfl; simp [hdot]) fun b₁ _ h₁ _ => ?_
    exact agrees_member hbase fun b₂ x x' _ hx => ih.chain more b₂ x x' (by omega) (by omega) hx
  · refine .consume (by rintro _ rfl; simp [hbracket]) fun b₁ _ h₁ _ => ?_
    refine .bind (ih.binary more b₁ 0 (by omega) (by omega)) fun b₂ _ _ h₂ hi => ?_
    refine .bind (.expect _ _ _) fun b₃ _ _ h₃ hclosing => ?_
    cases hi with
    | none => exact .bind (.complain _ _ _) fun _ _ _ _ _ => .pure hbase
    | some hi =>
      refine ih.chain more b₃ _ _ (by omega) (by omega) (.present ?_ rfl)
      -- the covering span is moved with both of its ends
      cases hclosing with
      | none =>
        simp only [later_index, Option.map_none, Option.getD_none, Span.later_cover, ← hbase.span,
          ← hi.span, ← hbase.eq, ← hi.eq]
      | some hclosing =>
        simp only [later_index, Option.map_some, Option.getD_some, hclosing, Token.later_span,
          Span.later_cover, ← hbase.span, ← hbase.eq, ← hi.eq]
  · refine .bind ((ih.arguments more bound (by omega) (by omega)).weaken
      (by rintro _ rfl; exact hparen)) fun b₁ r r' _ hr => ?_
    refine ih.chain more b₁ _ _ (by omega) (by omega) (.present ?_ rfl)
    simp only [later_call, Span.later_cover, ← hbase.span, ← hbase.eq, hr.2.1, hr.2.2]
  · refine .bind .advance fun b₁ a a' _ ha => .pure (.present ?_ rfl)
    simp only [later_trailing, Span.later_cover, ← hbase.span, ← hbase.eq, ha.2.1,
      Token.later_span, Token.later_kind]

theorem agrees_arguments (ih : c.AgreesAt fuel) (fuel' : Nat) (h : 8 * bound + 1 ≤ fuel + 1)
    (h' : 8 * bound + 1 ≤ fuel') :
    c.Agrees bound (·.kind = .symbol .leftParen) (Parse.arguments (fuel + 1))
      (Parse.arguments fuel') fun bound' r r' =>
        bound' < bound ∧ r'.1 = laterAll c.offset r.1 ∧ r'.2 = r.2.later c.offset := by
  obtain ⟨more, rfl⟩ : ∃ n, fuel' = n + 1 := ⟨fuel' - 1, by omega⟩
  rw [Parse.arguments, Parse.arguments]
  refine .consume (by intro t ht; simp [ht]) fun b₁ _ h₁ _ => ?_
  refine .bind (ih.listUntil more b₁ _ _ _ (by omega) (by omega)) fun b₂ r r' _ hr => ?_
  refine .pure ⟨by omega, hr.1, ?_⟩
  simp only [hr.2, Span.later_isEmpty, Token.later_span]
  split <;> rfl

theorem agrees_listUntil (ih : c.AgreesAt fuel) (fuel' : Nat) (closing : TokenKind) (code : Code)
    (message : Bytes) (h : 8 * bound + 6 ≤ fuel + 1) (h' : 8 * bound + 6 ≤ fuel') :
    c.Agrees bound anyToken (Parse.listUntil (fuel + 1) closing code message)
      (Parse.listUntil fuel' closing code message) fun _ r r' =>
        r'.1 = laterAll c.offset r.1 ∧ r'.2 = r.2.later c.offset := by
  obtain ⟨more, rfl⟩ : ∃ n, fuel' = n + 1 := ⟨fuel' - 1, by omega⟩
  rw [Parse.listUntil, Parse.listUntil]
  refine .bind (ih.items more bound closing #[] #[] (by omega) (by omega) rfl)
    fun b₁ xs xs' _ hxs => .bind .get fun b₂ s t _ hlast => ?_
  refine .bind (.expect _ _ _) fun b₃ _ _ _ hstop => .pure ⟨hxs, ?_⟩
  cases hstop with
  | none => exact hlast
  | some hstop => rw [hstop]; rfl

theorem agrees_items (ih : c.AgreesAt fuel) (fuel' : Nat) (closing : TokenKind)
    {acc acc' : Array Expr} (h : 8 * bound + 5 ≤ fuel + 1) (h' : 8 * bound + 5 ≤ fuel')
    (hacc : acc'.toList = laterAll c.offset acc.toList) :
    c.Agrees bound anyToken (Parse.items (fuel + 1) closing acc) (Parse.items fuel' closing acc')
      fun _ xs xs' => xs' = laterAll c.offset xs := by
  obtain ⟨more, rfl⟩ : ∃ n, fuel' = n + 1 := ⟨fuel' - 1, by omega⟩
  rw [Parse.items, Parse.items]
  refine .peek fun t _ => ?_
  simp only [Token.later_kind]
  refine .ite (fun _ => .pure hacc) fun _ => ?_
  refine .any (.bind (ih.binary more bound 0 (by omega) (by omega)) fun b₁ _ _ h₁ hx => ?_)
  cases hx with
  | none => exact .pure hacc
  | @some x x' hx =>
    have hmore : (acc'.push x').toList = laterAll c.offset (acc.push x).toList := by
      simp [laterAll_append, hacc, hx.eq]
    refine .at? fun b => .ite (fun hb => ?_) fun _ => .pure hmore
    refine .consume (by rintro t rfl hend; simp [hend] at hb) fun b₂ _ h₂ _ => ?_
    exact ih.items more b₂ closing _ _ (by omega) (by omega) hmore

theorem agrees_properties (ih : c.AgreesAt fuel) (fuel' : Nat) {base base' : Expr}
    (h : 8 * bound + 1 ≤ fuel + 1) (h' : 8 * bound + 1 ≤ fuel')
    (hbase : Moved c.offset base base') :
    c.Agrees bound anyToken (Parse.properties (fuel + 1) base) (Parse.properties fuel' base')
      fun _ => Moved c.offset := by
  obtain ⟨more, rfl⟩ : ∃ n, fuel' = n + 1 := ⟨fuel' - 1, by omega⟩
  rw [Parse.properties, Parse.properties]
  refine .at? fun b => .ite (fun hb => ?_) fun _ => .pure hbase
  refine .consume (by rintro t rfl hend; simp [hend] at hb) fun b₁ _ h₁ _ => ?_
  exact agrees_member hbase fun b₂ x x' _ hx => ih.properties more b₂ x x' (by omega) (by omega) hx

theorem agrees_construct (ih : c.AgreesAt fuel) (fuel' : Nat) (h : 8 * bound + 1 ≤ fuel + 1)
    (h' : 8 * bound + 1 ≤ fuel') :
    c.Agrees bound (·.kind = .keyword .new) (Parse.construct (fuel + 1)) (Parse.construct fuel')
      fun _ => c.Found := by
  obtain ⟨more, rfl⟩ : ∃ n, fuel' = n + 1 := ⟨fuel' - 1, by omega⟩
  rw [Parse.construct, Parse.construct]
  refine .consume (by intro t ht; simp [ht]) fun b₁ word h₁ _ => ?_
  refine .at? fun b => .ite (fun hb => .bind ((ih.construct more b₁ (by omega) (by omega)).weaken
    (by rintro t rfl; simpa using hb)) ?_)
    fun _ => .any (.bind (ih.primary more b₁ (by omega) (by omega)) ?_)
  -- whatever is constructed, its properties and arguments come behind it
  all_goals
    intro b₂ _ _ h₂ hcallee
    cases hcallee with
    | none => exact .pure .none
    | some hfirst =>
      refine .bind (ih.properties more b₂ _ _ (by omega) (by omega) hfirst)
        fun b₃ callee callee' h₃ hcallee => .at? fun b => .ite (fun hb => ?_) fun _ => ?_
      · refine .bind ((ih.arguments more b₃ (by omega) (by omega)).weaken
          (by rintro t rfl; simpa using hb)) fun b₄ r r' _ hr => .pure (.some (.present ?_ rfl))
        simp only [later_construct, Span.later_cover, ← hcallee.eq, hr.2.1, hr.2.2,
          Token.later_span]
      · refine .pure (.some (.present ?_ rfl))
        simp only [later_construct, laterAll_nil, Span.later_cover, ← hcallee.eq, ← hcallee.span,
          Token.later_span]

/-- An operand of a single token. -/
theorem agrees_leaf {next : Token → Prop} {e e' : Expr} (h : Moved c.offset e e') :
    c.Agrees bound next (Parse.advance >>= fun _ => pure (some e))
      (Parse.advance >>= fun _ => pure (some e')) fun _ => c.Found :=
  .bind .advance fun _ _ _ _ _ => .pure (.some h)

/-- A token that no operand starts with. -/
theorem agrees_other {next : Token → Prop} (span span' : Span) (message message' : Bytes) :
    c.Agrees bound next
      (Parse.report .unexpectedToken span message >>= fun _ => Parse.advance >>= fun _ => pure none)
      (Parse.report .unexpectedToken span' message' >>= fun _ =>
        Parse.advance >>= fun _ => pure none) fun _ => c.Found :=
  .bind (.report _ _ _ _ _ _) fun _ _ _ _ _ => .bind .advance fun _ _ _ _ _ => .pure .none

theorem agrees_primary (ih : c.AgreesAt fuel) (fuel' : Nat) (h : 8 * bound + 2 ≤ fuel + 1)
    (h' : 8 * bound + 2 ≤ fuel') :
    c.Agrees bound anyToken (Parse.primary (fuel + 1)) (Parse.primary fuel') fun _ => c.Found := by
  obtain ⟨more, rfl⟩ : ∃ n, fuel' = n + 1 := ⟨fuel' - 1, by omega⟩
  rw [Parse.primary, Parse.primary]
  refine .peek fun t _ => ?_
  rcases t with ⟨kind, span, text⟩
  simp only [Token.later_kind, Token.later_text, Token.later_span]
  -- the kind is that of both tokens, and it decides alone
  cases kind with
  | number | string | identifier => exact agrees_leaf (.present rfl rfl)
  | invalid => exact .bind .advance fun _ _ _ _ _ => .pure .none
  | endOfScript => exact .bind (.complain _ _ _) fun _ _ _ _ _ => .pure .none
  | template =>
    refine .bind .advance fun b₁ a a' _ ha => ?_
    obtain ⟨rfl, -, hconsumed⟩ := ha
    obtain ⟨hlt, hlength, htemplate⟩ := hconsumed (by simp)
    -- the template is cut within its token, on which no more is asked of the fuel
    refine .bind (ih.template more b₁ _ ?_ ?_ (htemplate rfl)) fun _ _ _ _ he => .pure (.some he)
    all_goals
      simp only at hlength ⊢
      omega
  | keyword k =>
    cases k
    case «true» | «false» | null | undefined => exact agrees_leaf (.present rfl rfl)
    case new =>
      exact (ih.construct more bound (by omega) (by omega)).weaken (by rintro _ rfl; rfl)
    all_goals exact agrees_other _ _ _ _
  | symbol s =>
    cases s
    case leftParen =>
      refine .consume (by rintro _ rfl; simp) fun b₁ a h₁ ha => ?_
      refine .bind (ih.binary more b₁ 0 (by omega) (by omega)) fun b₂ _ _ h₂ hinner => ?_
      refine .bind (.expect _ _ _) fun b₃ _ _ h₃ hclosing => ?_
      cases hinner with
      | none => exact .pure .none
      | some hinner =>
        refine .pure (.some (.present ?_ rfl))
        cases hclosing with
        | none =>
          simp only [later_group, Option.map_none, Option.getD_none, Span.later_cover,
            ← hinner.span, ← hinner.eq]
        | some hclosing =>
          simp only [later_group, Option.map_some, Option.getD_some, hclosing, Token.later_span,
            Span.later_cover, ← hinner.eq]
    case leftBracket =>
      refine .consume (by rintro _ rfl; simp) fun b₁ a h₁ ha => ?_
      refine .bind (ih.listUntil more b₁ _ _ _ (by omega) (by omega)) fun b₂ r r' h₂ hr => ?_
      refine .pure (.some (.present ?_ rfl))
      simp only [later_array, Span.later_cover, hr.1, hr.2]
    all_goals exact agrees_other _ _ _ _

theorem agrees_template (ih : c.AgreesAt fuel) (fuel' : Nat) {t : Token}
    (h : 8 * t.text.length + 1 ≤ fuel + 1) (h' : 8 * t.text.length + 1 ≤ fuel')
    (ht : t.text <+: c.inner.toList.drop t.span.start) :
    c.Agrees bound anyToken (Parse.template (fuel + 1) t)
      (Parse.template fuel' (t.later c.offset)) fun _ => Moved c.offset := by
  obtain ⟨more, rfl⟩ : ∃ n, fuel' = n + 1 := ⟨fuel' - 1, by omega⟩
  have hshift : ∀ pos, (templateOf pos t.text).parts
      = (templateOf 0 t.text).parts.map (TemplatePart.shift pos) := fun pos =>
    (templateOf_shift pos t.text).1
  have hparts : (templateOf (c.offset + t.span.start) t.text).parts
      = (templateOf t.span.start t.text).parts.map (TemplatePart.shift c.offset) := by
    rw [hshift, hshift t.span.start, List.map_map]
    refine List.map_congr_left fun p _ => ?_
    -- a part moves with the token it is in
    simp only [TemplatePart.shift, Function.comp_apply, Nat.add_assoc]
  -- a substitution is shorter than its token, so the fuel that lasts for the token lasts for it
  have hholds : ∀ n, 8 * t.text.length ≤ n → c.Holds n (templateOf t.span.start t.text).parts := by
    intro n hn p hp
    have hlength := ht.length_le
    rw [hshift] at hp ⊢
    obtain ⟨q, hq, rfl⟩ := List.mem_map.mp hp
    obtain ⟨-, hstop, hbounds⟩ := templateOf_bounds t.text q hq
    have hpos := List.length_pos_of_mem hq
    rw [List.length_drop, Array.length_toList] at hlength
    rw [List.length_map]
    simp only [TemplatePart.shift, Nat.add_sub_add_left]
    omega
  obtain ⟨-, htail, hunclosed⟩ := templateOf_shift t.span.start t.text
  obtain ⟨-, htail', hunclosed'⟩ := templateOf_shift (c.offset + t.span.start) t.text
  rw [Parse.template, Parse.template]
  simp only [Token.later_text, Token.later_span]
  have hstart : (t.span.later c.offset).start = c.offset + t.span.start := rfl
  rw [hstart, hparts]
  refine .bind (ih.substitutions more bound _ #[] #[] (hholds _ (by omega)) (hholds _ (by omega))
    rfl) fun b₁ r r' _ hr => ?_
  have htemplate : Moved c.offset (.template t.span r (templateOf t.span.start t.text).tail)
      (.template (t.span.later c.offset) r' (templateOf (c.offset + t.span.start) t.text).tail) :=
    .present (by simp only [later_template, hr, htail, htail']) rfl
  -- whether the template is closed does not depend on where it stands
  cases hopen : (templateOf t.span.start t.text).unclosed with
  | none =>
    rw [hunclosed'.mpr (hunclosed.mp hopen)]
    exact .pure htemplate
  | some pos =>
    cases hopen' : (templateOf (c.offset + t.span.start) t.text).unclosed with
    | none => simp [hunclosed.mpr (hunclosed'.mp hopen')] at hopen
    | some pos' =>
      exact .bind .get fun _ _ _ _ _ => .bind (.report _ _ _ _ _ _) fun _ _ _ _ _ => .pure htemplate

theorem agrees_substitutions (ih : c.AgreesAt fuel) (fuel' : Nat) {ps : List TemplatePart}
    {acc acc' : Array (Bytes × Expr)} (h : c.Holds (fuel + 1) ps) (h' : c.Holds fuel' ps)
    (hacc : acc'.toList = laterIn c.offset acc.toList) :
    c.Agrees bound anyToken (Parse.substitutions (fuel + 1) ps acc)
      (Parse.substitutions fuel' (ps.map (TemplatePart.shift c.offset)) acc')
      fun _ r r' => r' = laterIn c.offset r := by
  cases ps with
  | nil =>
    rw [Parse.substitutions, List.map_nil]
    cases fuel' <;> rw [Parse.substitutions] <;> exact .pure hacc
  | cons p ps =>
    have hp := h p List.mem_cons_self
    have hp' := h' p List.mem_cons_self
    simp only [List.length_cons] at hp hp'
    obtain ⟨more, rfl⟩ : ∃ n, fuel' = n + 1 := ⟨fuel' - 1, by omega⟩
    have hrest : ∀ n, c.Holds (n + 1) (p :: ps) → c.Holds n ps := by
      intro n hn q hq
      have := hn q (List.mem_cons_of_mem p hq)
      rw [List.length_cons] at this
      omega
    rw [List.map_cons, Parse.substitutions, Parse.substitutions]
    refine .bind (ih.substitution more bound p.start p.stop (by omega) (by omega) hp.1)
      fun b₁ x x' _ hx => ?_
    refine ih.substitutions more b₁ ps _ _ (hrest _ h) (hrest _ h') ?_
    simp [laterIn_append, laterIn, hacc, hx, TemplatePart.shift]

theorem agrees_substitution (ih : c.AgreesAt fuel) (fuel' start : Nat) {stop : Nat}
    (h : 8 * (stop - start + 1) + 5 ≤ fuel + 1) (h' : 8 * (stop - start + 1) + 5 ≤ fuel')
    (hstop : stop ≤ c.inner.size) :
    c.Agrees bound anyToken (Parse.substitution (fuel + 1) start stop)
      (Parse.substitution fuel' (c.offset + start) (c.offset + stop))
      fun _ x x' => x' = x.later c.offset := by
  obtain ⟨more, rfl⟩ : ∃ n, fuel' = n + 1 := ⟨fuel' - 1, by omega⟩
  intro s t hst _
  obtain ⟨b₁, -, hst₁, hx⟩ := ih.binary more (stop - start + 1) 0 (by omega) (by omega) _ _
    (.inside start hst.inner hst.outer hst.innerFile hst.outerFile hstop) trivial
  rw [substitution_run, substitution_run]
  generalize (Parse.binary fuel 0 (s.inside start stop)).1 = x,
    (Parse.binary more 0 (t.inside (c.offset + start) (c.offset + stop))).1 = x' at hx ⊢
  have hend : c.Twins b₁ (substitutionEnd (Parse.binary fuel 0 (s.inside start stop)).2)
      (substitutionEnd (Parse.binary more 0 (t.inside (c.offset + start) (c.offset + stop))).2) := by
    unfold substitutionEnd
    rw [hst₁.front, Token.later_kind]
    split
    · exact hst₁.look
    · exact hst₁.look.report ..
  refine ⟨bound, Nat.le_refl _, hst.outside hend, ?_⟩
  cases hx with
  | none => rfl
  | some hx => exact hx.eq

end Steps

/-- Every function of the parser reads the same at both places. -/
theorem agreesAt (c : Inset) (fuel : Nat) : c.AgreesAt fuel := by
  induction fuel with
  | zero => exact agreesAt_zero c
  | succ fuel ih =>
    exact {
      binary := fun fuel' _ floor h h' => agrees_binary ih fuel' floor h h'
      climb := fun fuel' _ floor _ _ h h' hleft => agrees_climb ih fuel' floor h h' hleft
      ternary := fun fuel' _ _ _ h h' hcond => agrees_ternary ih fuel' h h' hcond
      unary := fun fuel' _ h h' => agrees_unary ih fuel' h h'
      chain := fun fuel' _ _ _ h h' hbase => agrees_chain ih fuel' h h' hbase
      arguments := fun fuel' _ h h' => agrees_arguments ih fuel' h h'
      listUntil := fun fuel' _ closing code message h h' =>
        agrees_listUntil ih fuel' closing code message h h'
      items := fun fuel' _ closing _ _ h h' hacc => agrees_items ih fuel' closing h h' hacc
      primary := fun fuel' _ h h' => agrees_primary ih fuel' h h'
      construct := fun fuel' _ h h' => agrees_construct ih fuel' h h'
      properties := fun fuel' _ _ _ h h' hbase => agrees_properties ih fuel' h h' hbase
      template := fun fuel' _ _ h h' ht => agrees_template ih fuel' h h' ht
      substitutions := fun fuel' _ _ _ _ h h' hacc => agrees_substitutions ih fuel' h h' hacc
      substitution := fun fuel' _ start _ h h' hstop =>
        agrees_substitution ih fuel' start h h' hstop }

end Inset

end Script

end Storyline
