import Mathlib.Logic.Relation
import Storyline.Proofs.Script.Reading
import Storyline.Proofs.Script.Standing

/-!
# The words of a script

The leaves of an expression are its names, the names of its properties and the values written out
in it, in source order and each with its place.  Whatever a text holds, the leaves of the statements
that are read from it stand in it one after the other, each the text under its span, and whatever
the parser reports lies inside the text.

`Window.Reads` is the judgement that carries this through the parser: from a state whose tokens
stand behind an offset, a run ends in a state whose tokens stand behind a later one, and what it
found stands in between.
-/

namespace Storyline.Script

/-- A word of an expression and its place. -/
structure Leaf where
  text : Bytes
  span : Span
deriving DecidableEq, Repr

namespace Expr

/-- Whether an expression stands in another one, at any depth. -/
def Occurs (t e : Expr) : Prop := Relation.ReflTransGen (fun a b => b ∈ a.children) e t

mutual

/-- The names, property names and written out values of an expression, in source order. -/
def leaves : Expr → List Leaf
  | .literal span _ raw _ => [⟨raw, span⟩]
  | .identifier span name => [⟨name, span⟩]
  | .binary _ _ left right => left.leaves ++ right.leaves
  | .unary _ _ x => x.leaves
  | .trailing _ _ x => x.leaves
  | .member _ base name span => base.leaves ++ [⟨name, span⟩]
  | .index _ base i => base.leaves ++ i.leaves
  | .call _ callee args => callee.leaves ++ leavesOf args
  | .array _ xs => leavesOf xs
  | .construct _ callee args _ => callee.leaves ++ leavesOf args
  | .ternary _ cond yes no => cond.leaves ++ (yes.leaves ++ no.leaves)
  | .template _ parts _ => leavesIn parts
  | .group _ x => x.leaves
  | .missing => []

/-- The leaves of expressions, in order. -/
def leavesOf : List Expr → List Leaf
  | [] => []
  | x :: xs => x.leaves ++ leavesOf xs

/-- The leaves of the substitutions of a template, in order. -/
def leavesIn : List (Bytes × Expr) → List Leaf
  | [] => []
  | (_, x) :: rest => x.leaves ++ leavesIn rest

end

/-- The leaves of an expression, if there is one. -/
def leaves? (e : Option Expr) : List Leaf := e.elim [] leaves

theorem leavesOf_append (xs ys : List Expr) : leavesOf (xs ++ ys) = leavesOf xs ++ leavesOf ys := by
  induction xs with
  | nil => rfl
  | cons x xs ih => simp [leavesOf, ih]

theorem leavesIn_append (xs ys : List (Bytes × Expr)) :
    leavesIn (xs ++ ys) = leavesIn xs ++ leavesIn ys := by
  induction xs with
  | nil => rfl
  | cons x xs ih => simp [leavesIn, ih]

@[simp] theorem leavesOf_push (acc : Array Expr) (x : Expr) :
    leavesOf (acc.push x).toList = leavesOf acc.toList ++ x.leaves := by
  simp [leavesOf_append, leavesOf]

@[simp] theorem leavesIn_push (acc : Array (Bytes × Expr)) (text : Bytes) (x : Expr) :
    leavesIn (acc.push (text, x)).toList = leavesIn acc.toList ++ x.leaves := by
  simp [leavesIn_append, leavesIn]

end Expr

namespace Window

variable {w : Window}

/-! ## Words in their places -/

/-- Words that stand one after the other between two offsets. -/
def Spelled (w : Window) : (lo : Nat) → List Leaf → (hi : Nat) → Prop
  | lo, [], hi => lo ≤ hi
  | lo, x :: xs, hi => lo ≤ x.span.start ∧ w.Stands x.span x.text ∧ Spelled w x.span.stop xs hi

namespace Spelled

variable {lo mid hi lo' hi' : Nat} {xs ys : List Leaf}

theorem le (h : w.Spelled lo xs hi) : lo ≤ hi := by
  induction xs generalizing lo with
  | nil => exact h
  | cons x xs ih => exact Nat.le_trans h.1 (Nat.le_trans (Nat.le_of_lt h.2.1.nonempty) (ih h.2.2))

theorem mono (h : w.Spelled lo xs hi) (hlo : lo' ≤ lo) (hhi : hi ≤ hi') : w.Spelled lo' xs hi' := by
  induction xs generalizing lo lo' with
  | nil => exact Nat.le_trans hlo (Nat.le_trans h hhi)
  | cons x xs ih => exact ⟨Nat.le_trans hlo h.1, h.2.1, ih h.2.2 (Nat.le_refl _)⟩

/-- What stands up to an offset stands up to a later one. -/
theorem upTo (h : w.Spelled lo xs hi) (hhi : hi ≤ hi') : w.Spelled lo xs hi' :=
  h.mono (Nat.le_refl lo) hhi

/-- Where a window ends does not matter to what stands in its source. -/
theorem widen {stop : Nat} {h : stop ≤ w.source.size} (hs : (w.upTo stop h).Spelled lo xs hi) :
    w.Spelled lo xs hi := by
  induction xs generalizing lo with
  | nil => exact hs
  | cons x xs ih =>
    obtain ⟨hlo, ⟨hfile, hne, hwithin, htext⟩, hrest⟩ := hs
    exact ⟨hlo, ⟨hfile, hne, hwithin, htext⟩, ih hrest⟩

theorem append (h : w.Spelled lo xs mid) (h' : w.Spelled mid ys hi) :
    w.Spelled lo (xs ++ ys) hi := by
  induction xs generalizing lo with
  | nil => exact h'.mono h (Nat.le_refl hi)
  | cons x xs ih => exact ⟨h.1, h.2.1, ih h.2.2⟩

theorem single {span : Span} {text : Bytes} (h : w.Stands span text) (hlo : lo ≤ span.start)
    (hhi : span.stop ≤ hi) : w.Spelled lo [⟨text, span⟩] hi :=
  ⟨hlo, h, hhi⟩

theorem stands (h : w.Spelled lo xs hi) :
    ∀ x ∈ xs, w.Stands x.span x.text ∧ lo ≤ x.span.start ∧ x.span.stop ≤ hi := by
  induction xs generalizing lo with
  | nil => exact List.forall_mem_nil _
  | cons x xs ih =>
    have hne := h.2.1.nonempty
    intro y hy
    rcases List.mem_cons.mp hy with rfl | hy
    · exact ⟨h.2.1, h.1, h.2.2.le⟩
    · obtain ⟨hstands, hstart, hstop⟩ := ih h.2.2 y hy
      have := h.1
      exact ⟨hstands, by omega, hstop⟩

/-- No two words have the same place. -/
theorem nodup (h : w.Spelled lo xs hi) : (xs.map (·.span)).Nodup := by
  induction xs generalizing lo with
  | nil => exact List.nodup_nil
  | cons x xs ih =>
    rw [List.map_cons, List.nodup_cons]
    refine ⟨?_, ih h.2.2⟩
    intro hx
    obtain ⟨y, hy, hspan⟩ := List.mem_map.mp hx
    have hne := h.2.1.nonempty
    have hlater := (h.2.2.stands y hy).2.1
    rw [hspan] at hlater
    omega

end Spelled

/-! ## States in their places -/

/-- A state of the parser whose tokens stand behind an offset, and whose reports lie inside the
source. -/
structure Placed (w : Window) (lo : Nat) (s : ParserState) : Prop where
  source : s.source = w.source
  file : s.file = w.file
  tokens : w.Tokens lo s.rest
  last : s.last.stop ≤ w.source.size
  log : ∀ d ∈ s.log, w.Says d

namespace Placed

variable {lo : Nat} {s : ParserState}

theorem look (h : w.Placed lo s) : w.Placed lo s.look := by
  refine ⟨(s.follows_look).source.trans h.source, (s.follows_look).file.trans h.file,
    by rw [ParserState.look_rest]; exact h.tokens, by rw [ParserState.look_last]; exact h.last, ?_⟩
  have htokens := h.tokens
  unfold ParserState.look
  split
  · exact h.log
  · next l ls hrest =>
    split
    · exact h.log
    · -- the notices of the next token were checked with it
      intro d hd
      rw [hrest, Tokens] at htokens
      have hd : d ∈ s.log ∨ d ∈ l.notices := by
        rw [← Array.mem_toList_iff, Array.toList_appendList, List.mem_append,
          Array.mem_toList_iff] at hd
        exact hd
      rcases hd with hd | hd
      · exact h.log d hd
      · split at htokens
        · rw [htokens.2] at hd
          cases hd
        · exact htokens.2.2.1 d hd

/-- What is known of a token that was consumed: it is the end, or stands in between. -/
def Consumed (w : Window) (lo : Nat) (t : Token) (lo' : Nat) : Prop :=
  t.kind ≠ .endOfScript → lo ≤ t.span.start ∧ w.Stands t.span t.text ∧ lo' = t.span.stop

theorem pass (h : w.Placed lo s) :
    ∃ lo', lo ≤ lo' ∧ w.Placed lo' s.pass ∧ Consumed w lo s.front lo' := by
  have hlook := h.look
  by_cases hend : s.front.kind = .endOfScript
  · refine ⟨lo, Nat.le_refl lo, ?_, fun hne => absurd hend hne⟩
    rw [ParserState.pass, if_pos hend]
    exact hlook
  · have htokens := h.tokens
    cases hrest : s.rest with
    | nil => simp [ParserState.front, hrest] at hend
    | cons l ls =>
      have hfront : s.front = l.token := by simp [ParserState.front, hrest]
      rw [hfront] at hend ⊢
      rw [hrest, Tokens, if_neg hend] at htokens
      obtain ⟨hlo, hstands, -, hls⟩ := htokens
      refine ⟨l.token.span.stop, Nat.le_trans hlo (Nat.le_of_lt hstands.nonempty), ?_,
        fun _ => ⟨hlo, hstands, rfl⟩⟩
      rw [ParserState.pass, hfront, if_neg hend]
      refine ⟨hlook.source, hlook.file, by rw [hrest]; exact hls, ?_, hlook.log⟩
      split
      · exact h.last
      · exact hstands.within

theorem report (h : w.Placed lo s) {span : Span} (hs : span.Within w.file w.source.size)
    (code : Code) (message : Bytes) : w.Placed lo (Parse.report code span message s).2 := by
  simp only [Parse.report, Parse.modify_run]
  split
  · exact h
  · refine ⟨h.source, h.file, h.tokens, h.last, fun d hd => ?_⟩
    rcases Array.mem_push.mp hd with hd | rfl
    · exact h.log d hd
    · exact ⟨hs, Diagnostic.plain_error code message⟩

/-- The next token stands in the source, unless it is the end. -/
theorem front (h : w.Placed lo s) (hend : s.front.kind ≠ .endOfScript) :
    s.front.span.Within w.file w.source.size := by
  obtain ⟨lo', -, -, hconsumed⟩ := h.pass
  obtain ⟨-, hstands, -⟩ := hconsumed hend
  exact ⟨hstands.file, Nat.le_of_lt hstands.nonempty, hstands.within⟩

theorem here (h : w.Placed lo s) : (Parse.here s).1.Within w.file w.source.size := by
  simp only [Parse.here, Parse.bind_run, Parse.peek_run]
  split
  · simp only [Parse.bind_run, Parse.get_run, Parse.pure_run, ParserState.look_last]
    exact ⟨h.look.file, Nat.le_refl _, h.last⟩
  · next hend => exact h.front hend

theorem complain (h : w.Placed lo s) (code : Code) (message : Bytes) :
    w.Placed lo (Parse.complain code message s).2 := by
  rw [Parse.complain_run]
  exact h.look.report h.here code message

end Placed

/-! ## The judgement -/

open Placed (Consumed)

variable {α β : Type}

/-- From a state whose tokens stand behind `lo`, the next one being as `next` says, a run ends in a
state whose tokens stand behind a later offset, with a result as `P` says. -/
def Reads (w : Window) (lo : Nat) (next : Token → Prop) (m : Parse α) (P : Nat → α → Prop) :
    Prop :=
  ∀ s, w.Placed lo s → next s.front →
    ∃ lo', lo ≤ lo' ∧ w.Placed lo' (m s).2 ∧ P lo' (m s).1

/-- Any next token. -/
def anyToken (_ : Token) : Prop := True

namespace Reads

variable {lo : Nat} {next : Token → Prop} {m : Parse α} {P : Nat → α → Prop}

theorem pure {a : α} (h : P lo a) : w.Reads lo next (pure a) P :=
  fun _ hs _ => ⟨lo, Nat.le_refl lo, hs, h⟩

theorem bind {f : α → Parse β} {Q : Nat → β → Prop} (hm : w.Reads lo next m P)
    (hf : ∀ lo' a, lo ≤ lo' → P lo' a → w.Reads lo' anyToken (f a) Q) :
    w.Reads lo next (m >>= f) Q := by
  intro s hs hn
  obtain ⟨lo₁, h₁, hs₁, ha⟩ := hm s hs hn
  obtain ⟨lo₂, h₂, hs₂, hb⟩ := hf lo₁ _ h₁ ha _ hs₁ trivial
  exact ⟨lo₂, Nat.le_trans h₁ h₂, hs₂, hb⟩

theorem any (hm : w.Reads lo anyToken m P) : w.Reads lo next m P :=
  fun s hs _ => hm s hs trivial

theorem ite {c : Prop} [Decidable c] {n : Parse α} (hm : c → w.Reads lo next m P)
    (hn : ¬ c → w.Reads lo next n P) : w.Reads lo next (if c then m else n) P := by
  split
  · next h => exact hm h
  · next h => exact hn h

/-- After a look at the next token it is known. -/
theorem peek {f : Token → Parse α} (hf : ∀ t, next t → w.Reads lo (· = t) (f t) P) :
    w.Reads lo next (Parse.peek >>= f) P := by
  intro s hs hn
  rw [Parse.bind_run, Parse.peek_run]
  exact hf s.front hn s.look hs.look s.look_front

theorem advance {t : Token} :
    w.Reads lo (· = t) Parse.advance fun lo' t' => t' = t ∧ Consumed w lo t lo' := by
  intro s hs hn
  obtain ⟨lo', hle, hs', hconsumed⟩ := hs.pass
  rw [Parse.advance_run]
  exact ⟨lo', hle, hs', hn, hn ▸ hconsumed⟩

theorem skip : w.Reads lo next Parse.advance fun _ _ => True := by
  intro s hs _
  obtain ⟨lo', hle, hs', -⟩ := hs.pass
  rw [Parse.advance_run]
  exact ⟨lo', hle, hs', trivial⟩

theorem at? (k : TokenKind) : w.Reads lo next (Parse.at? k) fun _ _ => True := by
  intro s hs _
  rw [Parse.at?_run]
  exact ⟨lo, Nat.le_refl lo, hs.look, trivial⟩

theorem complain (code : Code) (message : Bytes) :
    w.Reads lo next (Parse.complain code message) fun _ _ => True :=
  fun _ hs _ => ⟨lo, Nat.le_refl lo, hs.complain code message, trivial⟩

theorem get : w.Reads lo next (MonadState.get : Parse ParserState) fun _ s => s.file = w.file :=
  fun _ hs _ => ⟨lo, Nat.le_refl lo, hs, hs.file⟩

theorem note {span : Span} (hspan : span.Within w.file w.source.size) (code : Code)
    (message : Bytes) : w.Reads lo next (Parse.report code span message) fun _ _ => True :=
  fun _ hs _ => ⟨lo, Nat.le_refl lo, hs.report hspan code message, trivial⟩

/-- A token that is not the end is reported at its place. -/
theorem report {t : Token} (hend : t.kind ≠ .endOfScript) (code : Code) (message : Bytes) :
    w.Reads lo (· = t) (Parse.report code t.span message) fun _ _ => True := by
  rintro s hs rfl
  exact note (hs.front hend) code message s hs rfl

theorem expect (k : TokenKind) (code : Code) (message : Bytes) :
    w.Reads lo next (Parse.expect k code message) fun _ _ => True := by
  intro s hs _
  rw [Parse.expect_run]
  split
  · obtain ⟨lo', hle, hs', -⟩ := hs.pass
    exact ⟨lo', hle, hs', trivial⟩
  · exact ⟨lo, Nat.le_refl lo, hs.look.complain code message, trivial⟩

/-- The name of a property stands where it was consumed. -/
theorem expectName : w.Reads lo next Parse.expectName fun lo' name =>
    ∀ t ∈ name, lo ≤ t.span.start ∧ w.Stands t.span t.text ∧ lo' = t.span.stop := by
  intro s hs _
  rw [Parse.expectName_run]
  split
  · next hname =>
    obtain ⟨lo', hle, hs', hconsumed⟩ := hs.pass
    have hend : s.front.kind ≠ .endOfScript := by
      intro hend
      simp [hend, TokenKind.isPropertyName] at hname
    refine ⟨lo', hle, hs', ?_⟩
    rintro t ⟨⟩
    exact hconsumed hend
  · exact ⟨lo, Nat.le_refl lo, hs.look.complain _ _, by simp⟩

end Reads

/-! ## The parser -/

open Parse Script.Expr

/-- What was found stands between two offsets. -/
def Found (w : Window) (lo lo' : Nat) (e : Option Expr) : Prop := w.Spelled lo (leaves? e) lo'

theorem Spelled.found {lo hi : Nat} {e : Expr} (h : w.Spelled lo e.leaves hi) :
    w.Found lo hi (some e) := h

/-- Nothing was found, anywhere. -/
theorem found_none {lo lo' : Nat} (h : lo ≤ lo') : w.Found lo lo' none := h

/-- What the functions of the parser find at one fuel stands in the source. -/
structure ReadsAt (w : Window) (fuel : Nat) : Prop where
  binary : ∀ lo floor, w.Reads lo anyToken (binary fuel floor) (w.Found lo)
  climb : ∀ lo₀ lo floor left, w.Spelled lo₀ left.leaves lo →
    w.Reads lo anyToken (climb fuel floor left) fun lo' e => w.Spelled lo₀ e.leaves lo'
  ternary : ∀ lo₀ lo cond, w.Spelled lo₀ cond.leaves lo →
    w.Reads lo anyToken (ternary fuel cond) fun lo' e => w.Spelled lo₀ e.leaves lo'
  unary : ∀ lo, w.Reads lo anyToken (unary fuel) (w.Found lo)
  chain : ∀ lo₀ lo base, w.Spelled lo₀ base.leaves lo →
    w.Reads lo anyToken (chain fuel base) fun lo' e => w.Spelled lo₀ e.leaves lo'
  arguments : ∀ lo, w.Reads lo anyToken (arguments fuel) fun lo' r =>
    w.Spelled lo (leavesOf r.1) lo'
  listUntil : ∀ lo closing code message, w.Reads lo anyToken (listUntil fuel closing code message)
    fun lo' r => w.Spelled lo (leavesOf r.1) lo'
  items : ∀ lo₀ lo closing acc, w.Spelled lo₀ (leavesOf acc.toList) lo →
    w.Reads lo anyToken (items fuel closing acc) fun lo' xs => w.Spelled lo₀ (leavesOf xs) lo'
  primary : ∀ lo, w.Reads lo anyToken (primary fuel) (w.Found lo)
  construct : ∀ lo, w.Reads lo anyToken (construct fuel) (w.Found lo)
  properties : ∀ lo₀ lo base, w.Spelled lo₀ base.leaves lo →
    w.Reads lo anyToken (properties fuel base) fun lo' e => w.Spelled lo₀ e.leaves lo'
  template : ∀ lo t, w.Stands t.span t.text →
    w.Reads lo anyToken (template fuel t) fun _ e => w.Spelled t.span.start e.leaves t.span.stop
  substitutions : ∀ lo lo₀ mid hi ps acc, w.Spelled lo₀ (leavesIn acc.toList) mid →
    PartsIn hi mid ps → hi ≤ w.source.size →
    w.Reads lo anyToken (substitutions fuel ps acc) fun _ r => w.Spelled lo₀ (leavesIn r) hi
  substitution : ∀ lo start stop, start ≤ stop → stop ≤ w.source.size →
    w.Reads lo anyToken (substitution fuel start stop) fun _ e => w.Spelled start e.leaves stop

theorem readsAt_zero (w : Window) : w.ReadsAt 0 where
  binary lo _ := by rw [Parse.binary]; exact .pure (Nat.le_refl lo)
  climb _ _ _ _ h := by rw [Parse.climb]; exact .pure h
  ternary _ _ _ h := by rw [Parse.ternary]; exact .pure h
  unary lo := by rw [Parse.unary]; exact .pure (Nat.le_refl lo)
  chain _ _ _ h := by rw [Parse.chain]; exact .pure h
  arguments lo := by rw [Parse.arguments]; exact .pure (Nat.le_refl lo)
  listUntil lo _ _ _ := by rw [Parse.listUntil]; exact .pure (Nat.le_refl lo)
  items _ _ _ _ h := by rw [Parse.items]; exact .pure h
  primary lo := by rw [Parse.primary]; exact .pure (Nat.le_refl lo)
  construct lo := by rw [Parse.construct]; exact .pure (Nat.le_refl lo)
  properties _ _ _ h := by rw [Parse.properties]; exact .pure h
  template _ _ h := by rw [Parse.template]; exact .pure (Nat.le_of_lt h.nonempty)
  substitutions _ _ _ _ _ _ h hps _ := by
    rw [Parse.substitutions]
    exact .pure (h.upTo hps.lo_le)
  substitution _ _ _ h _ := by rw [Parse.substitution]; exact .pure h

/-- A substitution is read in a window of its own; the tokens around it are put back. -/
theorem reads_substitution {fuel : Nat} (ih : ∀ w : Window, w.ReadsAt fuel) {lo start stop : Nat}
    (hle : start ≤ stop) (hstop : stop ≤ w.source.size) :
    w.Reads lo anyToken (substitution (fuel + 1) start stop) fun _ e =>
      w.Spelled start e.leaves stop := by
  intro s hs _
  have hinside : (w.upTo stop hstop).Placed start (s.inside start stop) := by
    refine ⟨hs.source, hs.file, ?_, Nat.le_trans hle hstop, hs.log⟩
    simp only [ParserState.inside, hs.source, hs.file]
    exact tokens_between hle hstop
  obtain ⟨lo', hlo', hplaced, hfound⟩ := (ih (w.upTo stop hstop)).binary start 0 _ hinside trivial
  have hend : (w.upTo stop hstop).Placed lo' (substitutionEnd (Parse.binary fuel 0
      (s.inside start stop)).2) := by
    unfold substitutionEnd
    split
    · exact hplaced.look
    · next hkind => exact hplaced.look.report (hplaced.front hkind) _ _
  rw [substitution_run]
  refine ⟨lo, Nat.le_refl lo, ⟨hend.source, hend.file, hs.tokens, hs.last, hend.log⟩, ?_⟩
  have hwithin := hplaced.tokens.lo_le
  cases hx : (Parse.binary fuel 0 (s.inside start stop)).1 with
  | none => exact hle
  | some x =>
    rw [hx] at hfound
    exact (Spelled.widen hfound).upTo hwithin

/-- The operand of a single token is a leaf at the place of the token. -/
theorem reads_leaf {lo : Nat} {t : Token} (hend : t.kind ≠ .endOfScript) {e : Expr}
    (he : e.leaves = [⟨t.text, t.span⟩]) :
    w.Reads lo (· = t) (Parse.advance >>= fun _ => pure (some e)) (w.Found lo) := by
  refine .bind .advance fun lo' t' _ h => .pure ?_
  obtain ⟨hlo, hstands, rfl⟩ := h.2 hend
  rw [Found, leaves?, Option.elim_some, he]
  exact .single hstands hlo (Nat.le_refl _)

theorem reads_primary {fuel : Nat} (ih : w.ReadsAt fuel) (lo : Nat) :
    w.Reads lo anyToken (Parse.primary (fuel + 1)) (w.Found lo) := by
  rw [Parse.primary]
  refine .peek fun t _ => ?_
  split
  -- what is a leaf by its kind alone: a name, a number, a text and the words
  iterate 6
    next hk => exact reads_leaf (by simp [hk]) rfl
  -- a template is a window of its own, opened on its token
  · next hk =>
    refine .bind .advance fun lo₁ t' h₁ ht => ?_
    obtain ⟨hlo, hstands, rfl⟩ := ht.2 (by simp [hk])
    refine .bind (ih.template _ t hstands) fun lo₂ e h₂ he => .pure ?_
    exact he.mono hlo h₂
  · next hk => exact reads_leaf (by simp [hk]) rfl
  · refine .bind .skip fun lo₁ _ h₁ _ => .bind (ih.binary lo₁ 0) fun lo₂ inner h₂ hinner => ?_
    refine .bind (.expect _ _ _) fun lo₃ _ h₃ _ => ?_
    cases inner with
    | none => exact .pure (found_none (by omega))
    | some x => exact .pure (hinner.mono h₁ h₃)
  · refine .bind .skip fun lo₁ _ h₁ _ => .bind (ih.listUntil lo₁ _ _ _) fun lo₂ r _ hr => .pure ?_
    exact hr.mono h₁ (Nat.le_refl _)
  · exact .any (ih.construct lo)
  -- a token no expression starts with is reported; nothing was read, so nothing is owed
  · exact .bind (.complain _ _) fun lo₁ _ h₁ _ => .pure (found_none h₁)
  · exact .bind .skip fun lo₁ _ h₁ _ => .pure (found_none h₁)
  · next hend _ =>
    refine .bind (.report hend _ _) fun lo₁ _ h₁ _ => ?_
    exact .bind .skip fun lo₂ _ h₂ _ => .pure (found_none (Nat.le_trans h₁ h₂))

theorem reads_construct {fuel : Nat} (ih : w.ReadsAt fuel) (lo : Nat) :
    w.Reads lo anyToken (Parse.construct (fuel + 1)) (w.Found lo) := by
  rw [Parse.construct]
  refine .bind .skip fun lo₁ _ h₁ _ => .bind (.at? _) fun lo₂ _ h₂ _ => ?_
  refine .ite (fun _ => .bind (ih.construct lo₂) ?_) fun _ => .bind (ih.primary lo₂) ?_
  -- whatever is constructed, its properties and arguments come behind it
  all_goals
    intro lo₃ callee h₃ hcallee
    cases callee with
    | none => exact .pure (found_none (by omega))
    | some first =>
      have hfirst : w.Spelled lo first.leaves lo₃ := hcallee.mono (by omega) (Nat.le_refl _)
      refine .bind (ih.properties lo lo₃ first hfirst) fun lo₄ callee _ hcallee => ?_
      refine .bind (.at? _) fun lo₅ _ h₅ _ => .ite (fun _ => ?_) fun _ => .pure ?_
      · refine .bind (ih.arguments lo₅) fun lo₆ r _ hr => .pure ?_
        exact (hcallee.upTo h₅).append hr
      · exact Spelled.append (hcallee.upTo h₅) (Nat.le_refl _)

theorem reads_chain {fuel : Nat} (ih : w.ReadsAt fuel) {lo₀ lo : Nat} {base : Expr}
    (hbase : w.Spelled lo₀ base.leaves lo) :
    w.Reads lo anyToken (Parse.chain (fuel + 1) base) fun lo' e => w.Spelled lo₀ e.leaves lo' := by
  rw [Parse.chain]
  refine .peek fun t _ => .ite (fun _ => ?_) fun _ => .ite (fun _ => ?_) fun _ => .ite (fun _ => ?_)
    fun _ => .ite (fun _ => ?_) fun _ => .pure hbase
  · refine .bind .skip fun lo₁ _ h₁ _ => .bind .expectName fun lo₂ name h₂ hname => ?_
    cases name with
    | none => exact .pure (hbase.upTo (Nat.le_trans h₁ h₂))
    | some name =>
      obtain ⟨hlo, hstands, rfl⟩ := hname name rfl
      exact ih.chain lo₀ _ _ ((hbase.upTo h₁).append (.single hstands hlo (Nat.le_refl _)))
  · refine .bind .skip fun lo₁ _ h₁ _ => .bind (ih.binary lo₁ 0) fun lo₂ i h₂ hi => ?_
    refine .bind (.expect _ _ _) fun lo₃ _ h₃ _ => ?_
    cases i with
    | none =>
      refine .bind (.complain _ _) fun lo₄ _ h₄ _ => .pure ?_
      exact hbase.upTo (by omega)
    | some i => exact ih.chain lo₀ _ _ ((hbase.upTo h₁).append (hi.upTo h₃))
  · refine .any (.bind (ih.arguments lo) fun lo₁ r _ hr => ?_)
    exact ih.chain lo₀ _ _ (hbase.append hr)
  · exact .bind .skip fun lo₁ _ h₁ _ => .pure (hbase.upTo h₁)

theorem reads_template {fuel : Nat} (ih : w.ReadsAt fuel) (lo : Nat) {t : Token}
    (h : w.Stands t.span t.text) :
    w.Reads lo anyToken (Parse.template (fuel + 1) t) fun _ e =>
      w.Spelled t.span.start e.leaves t.span.stop := by
  have hne := h.nonempty
  have hlen : t.text.length = t.span.stop - t.span.start := by
    rw [← h.text, Content.length_slice, Nat.min_eq_left h.within]
  have htext : t.text ≠ [] := by
    rintro htext
    rw [htext] at hlen
    simp only [List.length_nil] at hlen
    omega
  -- the substitutions of a token lie in it, one after the other, wherever the last one ends
  obtain ⟨hparts, hopen⟩ := templateOf_ordered t.span.start htext
  rw [hlen, Nat.add_sub_cancel' (Nat.le_of_lt hne)] at hparts hopen
  rw [Parse.template]
  refine .bind (ih.substitutions lo t.span.start t.span.start t.span.stop _ #[] (Nat.le_refl _)
    hparts h.within) fun lo₁ parts _ hspelled => ?_
  split
  · exact .pure hspelled
  -- a template that is not closed is reported from where its text begins to its end
  · next pos hpos =>
    have hplace := hopen pos hpos
    refine .bind .get fun lo₂ s _ hfile => ?_
    have hspan : Span.Within ⟨s.file, pos, t.span.stop⟩ w.file w.source.size :=
      ⟨hfile, hplace.2, h.within⟩
    exact .bind (.note hspan _ _) fun lo₃ _ _ _ => .pure hspelled

theorem readsAt_succ {fuel : Nat} (ih : ∀ w : Window, w.ReadsAt fuel) (w : Window) :
    w.ReadsAt (fuel + 1) where
  -- One more step of each function; `ih` is there for every window, since a substitution is read in
  -- a window of its own.
  binary lo floor := by
    rw [Parse.binary]
    refine .bind ((ih w).unary lo) fun lo₁ left h₁ hleft => ?_
    cases left with
    | none => exact .pure (found_none h₁)
    | some left =>
      exact .bind ((ih w).climb lo lo₁ floor left hleft) fun lo₂ e _ he => .pure he.found
  -- what stands on the left covers the window so far, and a right side can only be put behind it
  climb lo₀ lo floor left hleft := by
    rw [Parse.climb]
    refine .peek fun op _ => .ite (fun _ => .ite (fun _ => .pure hleft) fun _ => ?_) fun _ => ?_
    · exact .any (.bind ((ih w).ternary lo₀ lo left hleft) fun lo₁ e _ he =>
        (ih w).climb lo₀ lo₁ floor e he)
    · split
      · exact .pure hleft
      · refine .ite (fun _ => .pure hleft) fun _ => .bind .skip fun lo₁ _ h₁ _ => ?_
        refine .bind ((ih w).binary lo₁ _) fun lo₂ right h₂ hright => ?_
        cases right with
        | none => exact .bind (.complain _ _) fun lo₃ _ h₃ _ => .pure (hleft.upTo (by omega))
        -- an operator without a right side leaves what was there, at a later place
        | some right =>
          exact (ih w).climb lo₀ lo₂ floor _ ((hleft.upTo h₁).append hright)
  ternary lo₀ lo cond hcond := by
    rw [Parse.ternary]
    refine .bind .skip fun lo₁ _ h₁ _ => .bind ((ih w).binary lo₁ _) fun lo₂ yes h₂ hyes => ?_
    cases yes with
    | none => exact .bind (.complain _ _) fun lo₃ _ h₃ _ => .pure (hcond.upTo (by omega))
    | some yes =>
      refine .bind (.expect _ _ _) fun lo₃ colon h₃ _ => ?_
      cases colon with
      | none => exact .pure (hcond.upTo (by omega))
      | some _ =>
        refine .bind ((ih w).binary lo₃ _) fun lo₄ no h₄ hno => ?_
        cases no with
        | none => exact .bind (.complain _ _) fun lo₅ _ h₅ _ => .pure (hcond.upTo (by omega))
        | some no => exact .pure ((hcond.upTo h₁).append ((hyes.upTo h₃).append hno))
  unary lo := by
    -- an operator before its operand adds no leaf
    rw [Parse.unary]
    refine .peek fun t _ => .ite (fun _ => ?_) fun _ => ?_
    · refine .bind .skip fun lo₁ _ h₁ _ => .bind ((ih w).unary lo₁) fun lo₂ x h₂ hx => ?_
      cases x with
      | none => exact .bind (.complain _ _) fun lo₃ _ h₃ _ => .pure (found_none (by omega))
      | some x => exact .pure (hx.mono h₁ (Nat.le_refl _))
    · refine .any (.bind ((ih w).primary lo) fun lo₁ x h₁ hx => ?_)
      cases x with
      | none => exact .pure (found_none h₁)
      | some x => exact .bind ((ih w).chain lo lo₁ x hx) fun lo₂ e _ he => .pure he.found
  chain _ _ _ hbase := reads_chain (ih w) hbase
  arguments lo := by
    rw [Parse.arguments]
    refine .bind .skip fun lo₁ _ h₁ _ => .bind ((ih w).listUntil lo₁ _ _ _) fun lo₂ r _ hr => ?_
    exact .pure (hr.mono h₁ (Nat.le_refl _))
  listUntil lo closing code message := by
    rw [Parse.listUntil]
    refine .bind ((ih w).items lo lo closing #[] (Nat.le_refl lo)) fun lo₁ xs _ hxs => ?_
    refine .bind .get fun lo₂ _ h₂ _ => .bind (.expect _ _ _) fun lo₃ _ h₃ _ => ?_
    exact .pure (hxs.upTo (Nat.le_trans h₂ h₃))
  items lo₀ lo closing acc hacc := by
    rw [Parse.items]
    refine .peek fun t _ => .ite (fun _ => .pure hacc) fun _ => ?_
    refine .any (.bind ((ih w).binary lo 0) fun lo₁ x h₁ hx => ?_)
    cases x with
    | none => exact .pure (hacc.upTo h₁)
    | some x =>
      -- an element is put behind those that were read, and what follows is read from its end
      have hmore : w.Spelled lo₀ (leavesOf (acc.push x).toList) lo₁ := by
        rw [leavesOf_push]
        exact hacc.append hx
      refine .bind (.at? _) fun lo₂ _ h₂ _ => .ite (fun _ => ?_) fun _ => .pure (hmore.upTo h₂)
      refine .bind .skip fun lo₃ _ h₃ _ => ?_
      exact (ih w).items lo₀ lo₃ closing _ (hmore.upTo (Nat.le_trans h₂ h₃))
  primary := reads_primary (ih w)
  construct := reads_construct (ih w)
  properties lo₀ lo base hbase := by
    rw [Parse.properties]
    refine .bind (.at? _) fun lo₁ _ h₁ _ => .ite (fun _ => ?_) fun _ => .pure (hbase.upTo h₁)
    refine .bind .skip fun lo₂ _ h₂ _ => .bind .expectName fun lo₃ name h₃ hname => ?_
    cases name with
    | none => exact .pure (hbase.upTo (by omega))
    | some name =>
      obtain ⟨hlo, hstands, rfl⟩ := hname name rfl
      exact (ih w).properties lo₀ _ _
        ((hbase.upTo (Nat.le_trans h₁ h₂)).append (.single hstands hlo (Nat.le_refl _)))
  template lo _ h := reads_template (ih w) lo h
  -- the places of the substitutions are in order, so each starts where the one before has ended
  substitutions lo lo₀ mid hi ps acc hacc hps hhi := by
    cases ps with
    | nil =>
      rw [Parse.substitutions]
      exact .pure (hacc.upTo hps)
    | cons p ps =>
      obtain ⟨hstart, hle, hrest⟩ := hps
      rw [Parse.substitutions]
      refine .bind ((ih w).substitution lo p.start p.stop hle (Nat.le_trans hrest.lo_le hhi))
        fun lo₁ x _ hx => (ih w).substitutions lo₁ lo₀ p.stop hi ps _ ?_ hrest hhi
      rw [leavesIn_push]
      exact (hacc.upTo hstart).append hx
  substitution _ _ _ hle hstop := reads_substitution ih hle hstop

/-- What the parser finds at any fuel stands in the source. -/
theorem readsAt (w : Window) (fuel : Nat) : w.ReadsAt fuel := by
  induction fuel generalizing w with
  | zero => exact readsAt_zero w
  | succ fuel ih => exact readsAt_succ ih w

theorem reads_statements {lo₀ lo : Nat} (fuel : Nat) (acc : Array Expr)
    (hacc : w.Spelled lo₀ (leavesOf acc.toList) lo) :
    w.Reads lo anyToken (statements fuel acc) fun lo' r => w.Spelled lo₀ (leavesOf r) lo' := by
  -- `acc` grows by the statements in the order in which they are read
  induction fuel generalizing lo acc with
  | zero =>
    rw [statements]
    exact .pure hacc
  | succ fuel ih =>
    rw [statements]
    refine .peek fun t _ => .ite (fun _ => .pure hacc) fun _ => .ite (fun _ => ?_) fun _ => ?_
    · exact .bind .skip fun lo₁ _ h₁ _ => ih _ (hacc.upTo h₁)
    · refine .any (.bind ((w.readsAt fuel).binary lo 0) fun lo₁ x h₁ hx => ?_)
      cases x with
      | none => exact ih _ (hacc.upTo h₁)
      | some x =>
        have hmore : w.Spelled lo₀ (leavesOf (acc.push x).toList) lo₁ := by
          rw [leavesOf_push]
          exact hacc.append hx
        refine .peek fun t _ => .ite (fun _ => .any (ih _ hmore)) fun hother => ?_
        -- what is reported is a real token, for the end of the script ends the list without a
        -- report
        have hend : t.kind ≠ .endOfScript := by
          intro hend
          simp [hend] at hother
        split
        · exact .bind .skip fun lo₂ _ h₂ _ => ih _ (hmore.upTo h₂)
        · exact .bind (.report hend _ _) fun lo₂ _ h₂ _ => .bind .skip fun lo₃ _ h₃ _ =>
            ih _ (hmore.upTo (Nat.le_trans h₂ h₃))

end Window

/-! ## Scripts -/

theorem parse_placed (text : Bytes) (file : FileId) (maxErrors : Nat) :
    (Window.whole text file).Spelled 0 (Expr.leavesOf (parse text file maxErrors).script) text.length
      ∧ ∀ d ∈ (parse text file maxErrors).diagnostics, (Window.whole text file).Says d := by
  have hstart : (Window.whole text file).Placed 0 {
      source := text.toArray, file, maxErrors
      rest := lexemes file 0 text
      last := ⟨file, 0, 0⟩ } :=
    ⟨rfl, rfl, Window.tokens_whole text file, Nat.zero_le _, by simp⟩
  obtain ⟨lo', -, hplaced, hspelled⟩ :=
    Window.reads_statements (parseFuel text.length) #[] (Nat.le_refl 0) _ hstart trivial
  exact ⟨hspelled.upTo hplaced.tokens.lo_le, fun d hd => hplaced.log d (Array.mem_toList_iff.mp hd)⟩

end Storyline.Script
