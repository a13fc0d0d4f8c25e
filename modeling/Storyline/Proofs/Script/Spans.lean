import Storyline.Proofs.Script.Leaves
import Storyline.Proofs.Script.Termination

/-!
# Where expressions stand

Whatever a text holds, the tree that is read from it says exactly where everything stands: no
expression is empty, each lies in the text and around its parts, the parts come one after the other,
and names, values and property names are the text at their places.

The end of an expression is not always that of a token of its own.  Where a closing bracket is
missing, it is the end of the last token that was consumed, whatever became of it, so the judgement
`Window.Lays` carries that token along.  And it holds only where there is fuel enough: an argument
list for which none is left has no place.
-/

namespace Storyline

/-- A span that starts and ends no earlier than another one ends what they cover together. -/
theorem Span.cover_of_le {s t : Span} (hfile : s.file = t.file) (hstart : s.start ≤ t.start)
    (hstop : s.stop ≤ t.stop) : s.cover t = ⟨s.file, s.start, t.stop⟩ := by
  rw [cover, if_pos hfile, Nat.min_eq_left hstart, Nat.max_eq_right hstop]

namespace Script

/-! ## Exact spans -/

namespace Expr

/-- The word that an expression itself is or ends with: a value, a name or the name of a property. -/
def word? : Expr → Option Leaf
  | .literal span _ raw _ => some ⟨raw, span⟩
  | .identifier span name => some ⟨name, span⟩
  | .member _ _ name span => some ⟨name, span⟩
  | _ => none

/-- Whether an expression ends before another one starts. -/
def Precedes (a b : Expr) : Prop := a.span.stop ≤ b.span.start

end Expr

namespace Window

variable {w : Window}

/-- The span of an expression is exact: it lies in the source and around the parts of the
expression, which do not overlap, and its word stands behind them. -/
structure Exact (w : Window) (e : Expr) : Prop where
  file : e.span.file = w.file
  nonempty : e.span.start < e.span.stop
  within : e.span.stop ≤ w.source.size
  covers : ∀ c ∈ e.children, e.span.start ≤ c.span.start ∧ c.span.stop ≤ e.span.stop
  order : e.children.Pairwise Expr.Precedes
  word : ∀ x ∈ e.word?, w.Stands x.span x.text ∧ e.span.start ≤ x.span.start
    ∧ x.span.stop ≤ e.span.stop ∧ ∀ c ∈ e.children, c.span.stop ≤ x.span.start

/-- All spans in an expression are exact. -/
def ExactIn (w : Window) (e : Expr) : Prop := ∀ t : Expr, t.Occurs e → w.Exact t

theorem ExactIn.exact {e : Expr} (h : w.ExactIn e) : w.Exact e := h e .refl

theorem Exact.exactIn {e : Expr} (h : w.Exact e) (hc : ∀ c ∈ e.children, w.ExactIn c) :
    w.ExactIn e := by
  intro t ht
  rcases ht.cases_head with rfl | ⟨c, hmem, htc⟩
  · exact h
  · exact hc c hmem t htc

/-- Expressions with exact spans, one after the other between two offsets. -/
def Row (w : Window) : (lo : Nat) → List Expr → (hi : Nat) → Prop
  | lo, [], hi => lo ≤ hi
  | lo, x :: xs, hi => lo ≤ x.span.start ∧ w.ExactIn x ∧ Row w x.span.stop xs hi

namespace Row

variable {lo mid hi lo' hi' : Nat} {xs ys : List Expr} {x : Expr}

theorem le (h : w.Row lo xs hi) : lo ≤ hi := by
  induction xs generalizing lo with
  | nil => exact h
  | cons x xs ih =>
    exact Nat.le_trans h.1 (Nat.le_trans (Nat.le_of_lt h.2.1.exact.nonempty) (ih h.2.2))

theorem mono (h : w.Row lo xs hi) (hlo : lo' ≤ lo) (hhi : hi ≤ hi') : w.Row lo' xs hi' := by
  induction xs generalizing lo lo' with
  | nil => exact Nat.le_trans hlo (Nat.le_trans h hhi)
  | cons x xs ih => exact ⟨Nat.le_trans hlo h.1, h.2.1, ih h.2.2 (Nat.le_refl _)⟩

theorem upTo (h : w.Row lo xs hi) (hhi : hi ≤ hi') : w.Row lo xs hi' := h.mono (Nat.le_refl lo) hhi

theorem append (h : w.Row lo xs mid) (h' : w.Row mid ys hi) : w.Row lo (xs ++ ys) hi := by
  induction xs generalizing lo with
  | nil => exact h'.mono h (Nat.le_refl hi)
  | cons x xs ih => exact ⟨h.1, h.2.1, ih h.2.2⟩

theorem push {acc : Array Expr} (h : w.Row lo acc.toList mid) (h' : w.Row mid [x] hi) :
    w.Row lo (acc.push x).toList hi := by
  rw [Array.toList_push]
  exact h.append h'

/-- Expressions end where the last one of them does. -/
theorem toLast (h : w.Row lo (xs ++ [x]) hi) : w.Row lo (xs ++ [x]) x.span.stop := by
  induction xs generalizing lo with
  | nil => exact ⟨h.1, h.2.1, Nat.le_refl _⟩
  | cons y xs ih => exact ⟨h.1, h.2.1, ih h.2.2⟩

/-- Leaving expressions out keeps the others in order. -/
theorem filter (h : w.Row lo xs hi) (p : Expr → Bool) : w.Row lo (xs.filter p) hi := by
  induction xs generalizing lo with
  | nil => exact h
  | cons x xs ih =>
    have hrest := ih h.2.2
    rw [List.filter_cons]
    split
    · exact ⟨h.1, h.2.1, hrest⟩
    · exact hrest.mono (Nat.le_trans h.1 (Nat.le_of_lt h.2.1.exact.nonempty)) (Nat.le_refl hi)

theorem mem (h : w.Row lo xs hi) :
    ∀ x ∈ xs, lo ≤ x.span.start ∧ x.span.stop ≤ hi ∧ w.ExactIn x := by
  induction xs generalizing lo with
  | nil => exact List.forall_mem_nil _
  | cons x xs ih =>
    refine List.forall_mem_cons.mpr ⟨⟨h.1, h.2.2.le, h.2.1⟩, fun y hy => ?_⟩
    obtain ⟨hlo, hhi, hexact⟩ := ih h.2.2 y hy
    have hne := h.2.1.exact.nonempty
    exact ⟨Nat.le_trans h.1 (Nat.le_trans (Nat.le_of_lt hne) hlo), hhi, hexact⟩

theorem pairwise (h : w.Row lo xs hi) : xs.Pairwise Expr.Precedes := by
  induction xs generalizing lo with
  | nil => exact .nil
  | cons x xs ih => exact .cons (fun y hy => (h.2.2.mem y hy).1) (ih h.2.2)

/-- Where a window ends does not matter to what stands in its source. -/
theorem widen {stop : Nat} {h : stop ≤ w.source.size} (hs : (w.upTo stop h).Row lo xs hi) :
    w.Row lo xs hi := by
  induction xs generalizing lo with
  | nil => exact hs
  | cons x xs ih =>
    refine ⟨hs.1, fun t ht => ?_, ih hs.2.2⟩
    obtain ⟨hfile, hne, hwithin, hcovers, horder, hword⟩ := hs.2.1 t ht
    refine ⟨hfile, hne, hwithin, hcovers, horder, fun y hy => ?_⟩
    obtain ⟨⟨hfile, hne, hwithin, htext⟩, hplace⟩ := hword y hy
    exact ⟨⟨hfile, hne, hwithin, htext⟩, hplace⟩

/-! ### Putting expressions together -/

/-- An expression around its parts. -/
theorem node {e : Expr} (h : w.Row lo xs hi) (hspan : e.span = ⟨w.file, lo, hi⟩) (hlt : lo < hi)
    (hhi : hi ≤ w.source.size) (hparts : e.children = xs.filter Expr.isPresent)
    (hword : e.word? = none) : w.Row lo [e] hi := by
  have hrow : w.Row lo e.children hi := hparts ▸ h.filter _
  have hexact : w.Exact e := by
    rw [Option.eq_none_iff_forall_not_mem] at hword
    refine ⟨by rw [hspan], by rw [hspan]; exact hlt, by rw [hspan]; exact hhi, fun c hc => ?_,
      hrow.pairwise, fun x hx => absurd hx (hword x)⟩
    rw [hspan]
    exact ⟨(hrow.mem c hc).1, (hrow.mem c hc).2.1⟩
  refine ⟨by rw [hspan], hexact.exactIn fun c hc => (hrow.mem c hc).2.2, ?_⟩
  rw [hspan]
  exact Nat.le_refl hi

/-- An expression of a single token. -/
theorem leaf {e : Expr} {t : Token} (h : w.Stands t.span t.text) (hspan : e.span = t.span)
    (hparts : e.children = []) (hword : ∀ x ∈ e.word?, x = ⟨t.text, t.span⟩) :
    w.Row t.span.start [e] t.span.stop := by
  have hexact : w.Exact e := by
    refine ⟨by rw [hspan, h.file], by rw [hspan]; exact h.nonempty, by rw [hspan]; exact h.within,
      by simp [hparts], by simp [hparts], fun x hx => ?_⟩
    rw [hword x hx, hspan]
    exact ⟨h, Nat.le_refl _, Nat.le_refl _, by simp [hparts]⟩
  refine ⟨by rw [hspan], hexact.exactIn (by simp [hparts]), ?_⟩
  rw [hspan]
  exact Nat.le_refl _

theorem start_le (h : w.Row lo [x] mid) (hhi : mid ≤ hi) : x.span.start ≤ hi :=
  Nat.le_trans (Nat.le_of_lt h.2.1.exact.nonempty) (Nat.le_trans h.2.2 hhi)

/-- An expression from the start of its first part up to the end of a token or a later part. -/
theorem extend {e : Expr} {t : Span} (h : w.Row lo (x :: xs) t.stop) (hfile : t.file = w.file)
    (hstart : x.span.start ≤ t.start) (hstop : t.stop ≤ w.source.size)
    (hspan : e.span = x.span.cover t) (hparts : e.children = (x :: xs).filter Expr.isPresent)
    (hword : e.word? = none) : w.Row lo [e] t.stop := by
  have hx := h.2.1.exact
  have hle := h.2.2.le
  rw [Span.cover_of_le (hx.file.trans hfile.symm) hstart hle, hx.file] at hspan
  have htight : w.Row x.span.start (x :: xs) t.stop := ⟨Nat.le_refl _, h.2⟩
  exact (htight.node hspan (Nat.lt_of_lt_of_le hx.nonempty hle) hstop hparts hword).mono h.1
    (Nat.le_refl _)

/-- An expression from a token in front of its parts up to the end of a token or a part. -/
theorem enclose {e : Expr} {o : Token} {t : Span} (ho : w.Stands o.span o.text)
    (h : w.Row o.span.stop xs t.stop) (hfile : t.file = w.file) (hstart : o.span.start ≤ t.start)
    (hstop : t.stop ≤ w.source.size) (hspan : e.span = o.span.cover t)
    (hparts : e.children = xs.filter Expr.isPresent) (hword : e.word? = none) :
    w.Row o.span.start [e] t.stop := by
  have hne := ho.nonempty
  rw [Span.cover_of_le (ho.file.trans hfile.symm) hstart h.le, ho.file] at hspan
  exact (h.mono (Nat.le_of_lt hne) (Nat.le_refl _)).node hspan (Nat.lt_of_lt_of_le hne h.le) hstop
    hparts hword

/-- An expression from the start of its first part to the end of its last one. -/
theorem join {e y : Expr} (h : w.Row lo (x :: (xs ++ [y])) hi)
    (hspan : e.span = x.span.cover y.span)
    (hparts : e.children = (x :: (xs ++ [y])).filter Expr.isPresent) (hword : e.word? = none) :
    w.Row lo [e] hi := by
  obtain ⟨-, hstop, hy⟩ := h.mem y (by simp)
  have hbefore : x.Precedes y := (List.pairwise_cons.mp h.pairwise).1 y (by simp)
  have hstart : x.span.start ≤ y.span.start :=
    Nat.le_trans (Nat.le_of_lt h.2.1.exact.nonempty) hbefore
  have htight : w.Row lo ((x :: xs) ++ [y]) y.span.stop := toLast h
  exact (htight.extend hy.exact.file hstart hy.exact.within hspan hparts hword).upTo hstop

/-- An expression from a token to the end of its one part. -/
theorem lead {e : Expr} {o : Token} (ho : w.Stands o.span o.text) (h : w.Row lo [x] hi)
    (hlo : o.span.stop ≤ lo) (hspan : e.span = o.span.cover x.span)
    (hparts : e.children = [x].filter Expr.isPresent) (hword : e.word? = none) :
    w.Row o.span.start [e] hi := by
  have hx := h.2.1.exact
  have htight : w.Row o.span.stop [x] x.span.stop := ⟨Nat.le_trans hlo h.1, h.2.1, Nat.le_refl _⟩
  have hstart : o.span.start ≤ x.span.start :=
    Nat.le_trans (Nat.le_of_lt ho.nonempty) (Nat.le_trans hlo h.1)
  exact (htight.enclose ho hx.file hstart hx.within hspan hparts hword).upTo h.2.2

/-- A property by its name. -/
theorem member {name : Token} (h : w.Row lo [x] mid) (hname : w.Stands name.span name.text)
    (hmid : mid ≤ name.span.start) :
    w.Row lo [.member (x.span.cover name.span) x name.text name.span] name.span.stop := by
  have hx := h.2.1.exact
  have hbefore : x.span.stop ≤ name.span.start := Nat.le_trans h.2.2 hmid
  have hlt := hname.nonempty
  have hlt' := hx.nonempty
  have hspan : x.span.cover name.span = ⟨w.file, x.span.start, name.span.stop⟩ := by
    rw [Span.cover_of_le (hx.file.trans hname.file.symm) (by omega) (by omega), hx.file]
  rw [hspan]
  -- a member has one part, its base, for the name is no expression
  have hparts : ∀ c ∈ (Expr.member ⟨w.file, x.span.start, name.span.stop⟩ x name.text
      name.span).children, c = x := fun c hc => List.mem_singleton.mp (List.mem_of_mem_filter hc)
  have hexact : w.Exact
      (.member ⟨w.file, x.span.start, name.span.stop⟩ x name.text name.span) := by
    have hlong : x.span.start < name.span.stop := by omega
    refine ⟨rfl, hlong, hname.within, fun c hc => ?_,
      (List.pairwise_singleton _ x).sublist List.filter_sublist, ?_⟩
    · rw [hparts c hc]
      exact ⟨Nat.le_refl _, Nat.le_trans hbefore (Nat.le_of_lt hlt)⟩
    · rintro y ⟨⟩
      refine ⟨hname, Nat.le_trans (Nat.le_of_lt hlt') hbefore, Nat.le_refl _, fun c hc => ?_⟩
      rw [hparts c hc]
      exact hbefore
  exact ⟨h.1, hexact.exactIn fun c hc => hparts c hc ▸ h.2.1, Nat.le_refl _⟩

end Row

/-! ## Where a parser stands -/

/-- A place in a window: everything in front of an offset was read, and the last good token among it
is known. -/
structure Mark (w : Window) where
  lo : Nat
  last : Span
  inside : lo ≤ w.stop
  file : last.file = w.file
  ordered : last.start ≤ last.stop
  behind : last.stop ≤ lo

namespace Mark

/-- How much there is to read behind a place. -/
def left (m : w.Mark) : Nat := w.stop - m.lo

/-- From one place to a later one; the last good token is still the same, or was read in between. -/
structure Onward (m m' : w.Mark) : Prop where
  lo : m.lo ≤ m'.lo
  last : m'.last = m.last ∨ m.lo ≤ m'.last.start ∧ m'.last.start < m'.last.stop

/-- A token that was read on the way from one place to another. -/
structure Passed (m : w.Mark) (t : Token) (m' : w.Mark) : Prop where
  start : m.lo ≤ t.span.start
  stands : w.Stands t.span t.text
  lo : m'.lo = t.span.stop
  last : t.kind ≠ .invalid → m'.last = t.span

variable {m m' m'' : w.Mark} {t : Token}

theorem within (m : w.Mark) : m.last.stop ≤ w.source.size :=
  Nat.le_trans m.behind (Nat.le_trans m.inside w.inside)

theorem Onward.refl (m : w.Mark) : m.Onward m := ⟨Nat.le_refl _, .inl rfl⟩

theorem Onward.trans (h : m.Onward m') (h' : m'.Onward m'') : m.Onward m'' := by
  refine ⟨Nat.le_trans h.lo h'.lo, ?_⟩
  rcases h'.last with hlast | ⟨hstart, hne⟩
  · rw [hlast]
    exact h.last
  · exact .inr ⟨Nat.le_trans h.lo hstart, hne⟩

theorem Onward.left_le (h : m.Onward m') : m'.left ≤ m.left := by
  have := h.lo
  unfold left
  omega

theorem Onward.stop_le (h : m.Onward m') : m.last.stop ≤ m'.last.stop := by
  rcases h.last with hlast | ⟨hstart, hne⟩
  · rw [hlast]
  · exact Nat.le_trans m.behind (Nat.le_trans hstart (Nat.le_of_lt hne))

theorem Passed.left_lt (h : m.Passed t m') : m'.left < m.left := by
  have := h.start
  have := h.stands.nonempty
  have := h.lo
  have := m'.inside
  unfold left
  omega

end Mark

theorem Stands.length {span : Span} {text : Bytes} (h : w.Stands span text) :
    text.length = span.stop - span.start := by
  rw [← h.text, Content.length_slice, Nat.min_eq_left h.within]

theorem Mark.Passed.length_le {m m' : w.Mark} {t : Token} (h : m.Passed t m') :
    t.text.length ≤ m.left := by
  have := h.stands.length
  have := h.start
  have := h.lo
  have := m'.inside
  unfold Mark.left
  omega

/-- A state of the parser at a place. -/
structure At (w : Window) (m : w.Mark) (s : ParserState) : Prop where
  placed : w.Placed m.lo s
  last : s.last = m.last

namespace At

variable {m : w.Mark} {s : ParserState}

theorem look (h : w.At m s) : w.At m s.look :=
  ⟨h.placed.look, (ParserState.look_last s).trans h.last⟩

theorem pass (h : w.At m s) (hend : s.front.kind ≠ .endOfScript) :
    ∃ m', m.Onward m' ∧ w.At m' s.pass ∧ m.Passed s.front m' := by
  obtain ⟨lo', hle, hplaced, hconsumed⟩ := h.placed.pass
  obtain ⟨hstart, hstands, rfl⟩ := hconsumed hend
  have hne := hstands.nonempty
  have hinside := hplaced.tokens.lo_le
  have hlast : s.pass.last = if s.front.kind = .invalid then m.last else s.front.span := by
    rw [ParserState.pass, if_neg hend, h.last]
  by_cases hinvalid : s.front.kind = .invalid
  · rw [if_pos hinvalid] at hlast
    exact ⟨⟨_, m.last, hinside, m.file, m.ordered, Nat.le_trans m.behind hle⟩, ⟨hle, .inl rfl⟩,
      ⟨hplaced, hlast⟩, ⟨hstart, hstands, rfl, fun hne => absurd hinvalid hne⟩⟩
  · rw [if_neg hinvalid] at hlast
    exact ⟨⟨_, s.front.span, hinside, hstands.file, Nat.le_of_lt hne, Nat.le_refl _⟩,
      ⟨hle, .inr ⟨hstart, hne⟩⟩, ⟨hplaced, hlast⟩, ⟨hstart, hstands, rfl, fun _ => rfl⟩⟩

theorem report (h : w.At m s) {span : Span} (hspan : span.Within w.file w.source.size) (code : Code)
    (message : Bytes) : w.At m (Parse.report code span message s).2 := by
  refine ⟨h.placed.report hspan code message, Eq.trans ?_ h.last⟩
  simp only [Parse.report, Parse.modify_run]
  split <;> rfl

theorem complain (h : w.At m s) (code : Code) (message : Bytes) :
    w.At m (Parse.complain code message s).2 := by
  rw [Parse.complain_run]
  exact h.look.report h.placed.here code message

end At

/-! ## The judgement -/

open Mark (Onward Passed)

variable {α β : Type}

/-- From a place where the next token is as `next` says, a run goes on to a later one, with a result
as `P` says. -/
def Lays (w : Window) (m : w.Mark) (next : Token → Prop) (c : Parse α) (P : w.Mark → α → Prop) :
    Prop :=
  ∀ s, w.At m s → next s.front → ∃ m', m.Onward m' ∧ w.At m' (c s).2 ∧ P m' (c s).1

namespace Lays

variable {m : w.Mark} {next : Token → Prop} {c : Parse α} {P : w.Mark → α → Prop}

theorem pure {a : α} (h : P m a) : w.Lays m next (pure a) P :=
  fun _ hs _ => ⟨m, .refl m, hs, h⟩

theorem bind {f : α → Parse β} {Q : w.Mark → β → Prop} (hc : w.Lays m next c P)
    (hf : ∀ m' a, m.Onward m' → P m' a → w.Lays m' anyToken (f a) Q) :
    w.Lays m next (c >>= f) Q := by
  intro s hs hn
  obtain ⟨m₁, h₁, hs₁, ha⟩ := hc s hs hn
  obtain ⟨m₂, h₂, hs₂, hb⟩ := hf m₁ _ h₁ ha _ hs₁ trivial
  exact ⟨m₂, h₁.trans h₂, hs₂, hb⟩

theorem any (hc : w.Lays m anyToken c P) : w.Lays m next c P := fun s hs _ => hc s hs trivial

theorem imp {Q : w.Mark → α → Prop} (hc : w.Lays m next c P)
    (h : ∀ m' a, m.Onward m' → P m' a → Q m' a) : w.Lays m next c Q := by
  intro s hs hn
  obtain ⟨m', hon, hs', ha⟩ := hc s hs hn
  exact ⟨m', hon, hs', h m' _ hon ha⟩

/-- What holds whatever the next token is. -/
theorem known (hc : ∀ t, w.Lays m (· = t) c P) : w.Lays m next c P :=
  fun s hs _ => hc s.front s hs rfl

theorem ite {p : Prop} [Decidable p] {c' : Parse α} (hc : p → w.Lays m next c P)
    (hc' : ¬ p → w.Lays m next c' P) : w.Lays m next (if p then c else c') P := by
  split
  · next h => exact hc h
  · next h => exact hc' h

/-- After a look at the next token it is known. -/
theorem peek {f : Token → Parse α} (hf : ∀ t, next t → w.Lays m (· = t) (f t) P) :
    w.Lays m next (Parse.peek >>= f) P := by
  intro s hs hn
  rw [Parse.bind_run, Parse.peek_run]
  exact hf s.front hn s.look hs.look s.look_front

theorem at? {k : TokenKind} {f : Bool → Parse α}
    (hf : ∀ t, next t → w.Lays m (· = t) (f (t.kind = k)) P) :
    w.Lays m next (Parse.at? k >>= f) P := by
  intro s hs hn
  rw [Parse.bind_run, Parse.at?_run]
  exact hf s.front hn s.look hs.look s.look_front

/-- A token that is not the end is read. -/
theorem advance {t : Token} (hend : t.kind ≠ .endOfScript) :
    w.Lays m (· = t) Parse.advance fun m' t' => t' = t ∧ m.Passed t m' := by
  rintro s hs rfl
  obtain ⟨m', hon, hs', hpassed⟩ := hs.pass hend
  rw [Parse.advance_run]
  exact ⟨m', hon, hs', rfl, hpassed⟩

theorem complain (code : Code) (message : Bytes) :
    w.Lays m next (Parse.complain code message) fun m' _ => m' = m :=
  fun _ hs _ => ⟨m, .refl m, hs.complain code message, rfl⟩

theorem get : w.Lays m next (MonadState.get : Parse ParserState) fun m' s =>
    m' = m ∧ s.file = w.file ∧ s.last = m.last :=
  fun _ hs _ => ⟨m, .refl m, hs, rfl, hs.placed.file, hs.last⟩

theorem note {span : Span} (hspan : span.Within w.file w.source.size) (code : Code)
    (message : Bytes) : w.Lays m next (Parse.report code span message) fun m' _ => m' = m :=
  fun _ hs _ => ⟨m, .refl m, hs.report hspan code message, rfl⟩

/-- A report at the next token, which is read after it. -/
theorem report {f : Unit → Parse α} {t : Token} (hend : t.kind ≠ .endOfScript) (code : Code)
    (message : Bytes) (hf : w.Lays m (· = t) (f ()) P) :
    w.Lays m (· = t) (Parse.report code t.span message >>= f) P := by
  rintro s hs rfl
  have hwithin := hs.placed.front hend
  rw [Parse.bind_run]
  refine hf _ (hs.report hwithin code message) ?_
  simp only [Parse.report, Parse.modify_run]
  split <;> rfl

/-- A token that has to be there is the last good one, or it is not there and nothing happens. -/
theorem expect {k : TokenKind} (hk : k ≠ .endOfScript ∧ k ≠ .invalid) (code : Code)
    (message : Bytes) : w.Lays m next (Parse.expect k code message) fun m' found =>
      match found with
      | none => m' = m
      | some t => m.Passed t m' ∧ m'.last = t.span := by
  intro s hs _
  rw [Parse.expect_run]
  split
  · next hfront =>
    obtain ⟨m', hon, hs', hpassed⟩ := hs.pass (hfront ▸ hk.1)
    exact ⟨m', hon, hs', hpassed, hpassed.last (hfront ▸ hk.2)⟩
  · exact ⟨m, .refl m, hs.look.complain code message, rfl⟩

theorem expectName : w.Lays m next Parse.expectName fun m' found =>
    match found with
    | none => m' = m
    | some t => m.Passed t m' ∧ m'.last = t.span := by
  intro s hs _
  rw [Parse.expectName_run]
  split
  · next hname =>
    have hkind : s.front.kind ≠ .endOfScript ∧ s.front.kind ≠ .invalid := by
      constructor <;> intro hk <;> simp [hk, TokenKind.isPropertyName] at hname
    obtain ⟨m', hon, hs', hpassed⟩ := hs.pass hkind.1
    exact ⟨m', hon, hs', hpassed, hpassed.last hkind.2⟩
  · exact ⟨m, .refl m, hs.look.complain _ _, rfl⟩

end Lays

/-! ## The parser -/

open Parse

/-- An operand stands behind the place where it was looked for, and something was read for it,
unless the script was at its end. -/
structure Operand (w : Window) (m : w.Mark) (t : Token) (m' : w.Mark) (e : Option Expr) : Prop where
  moves : t.kind ≠ .endOfScript → m'.left < m.left
  row : ∀ x ∈ e, w.Row m.lo [x] m'.last.stop

theorem Operand.none {m m' : w.Mark} {t : Token}
    (h : t.kind ≠ .endOfScript → m'.left < m.left) : w.Operand m t m' none := ⟨h, nofun⟩

theorem Operand.some {m m' : w.Mark} {t : Token} {x : Expr}
    (h : t.kind ≠ .endOfScript → m'.left < m.left) (hx : w.Row m.lo [x] m'.last.stop) :
    w.Operand m t m' (some x) := ⟨h, by rintro y ⟨⟩; exact hx⟩

/-- An operand, whatever the next token is. -/
theorem Lays.operand {m : w.Mark} {c : Parse (Option Expr)}
    (h : ∀ t, w.Lays m (· = t) c (w.Operand m t)) :
    w.Lays m anyToken c fun m' e => ∀ x ∈ e, w.Row m.lo [x] m'.last.stop :=
  .known fun t => (h t).imp fun _ _ _ he => he.row

/-- The expressions of a template that were read. -/
def present (parts : List (Bytes × Expr)) : List Expr :=
  (parts.map Prod.snd).filter Expr.isPresent

/-- What the functions of the parser find at one fuel has exact spans, where the fuel is enough for
what there is to read. -/
structure LaysAt (w : Window) (fuel : Nat) : Prop where
  binary : ∀ m t floor, 8 * m.left + 4 ≤ fuel →
    w.Lays m (· = t) (binary fuel floor) (w.Operand m t)
  climb : ∀ m lo floor left, 8 * m.left + 2 ≤ fuel → w.Row lo [left] m.last.stop →
    w.Lays m anyToken (climb fuel floor left) fun m' e => w.Row lo [e] m'.last.stop
  ternary : ∀ m t lo cond, t.kind ≠ .endOfScript → 8 * m.left + 1 ≤ fuel →
    w.Row lo [cond] m.last.stop → w.Lays m (· = t) (ternary fuel cond) fun m' e =>
      m'.left < m.left ∧ w.Row lo [e] m'.last.stop
  unary : ∀ m t, 8 * m.left + 3 ≤ fuel → w.Lays m (· = t) (unary fuel) (w.Operand m t)
  chain : ∀ m lo base, 8 * m.left + 2 ≤ fuel → w.Row lo [base] m.last.stop →
    w.Lays m anyToken (chain fuel base) fun m' e => w.Row lo [e] m'.last.stop
  arguments : ∀ m t, t.kind = .symbol .leftParen → 8 * m.left + 1 ≤ fuel →
    w.Lays m (· = t) (arguments fuel) fun m' r => m'.left < m.left ∧
      w.Row m.lo r.1 m'.last.stop ∧ r.2 = m'.last ∧ m.lo ≤ m'.last.start
  listUntil : ∀ m lo closing code message, closing ≠ .endOfScript ∧ closing ≠ .invalid →
    8 * m.left + 6 ≤ fuel → lo ≤ m.last.stop →
    w.Lays m anyToken (listUntil fuel closing code message) fun m' r =>
      w.Row lo r.1 m'.last.stop ∧ r.2 = m'.last
  items : ∀ m lo closing acc, 8 * m.left + 5 ≤ fuel → w.Row lo acc.toList m.last.stop →
    w.Lays m anyToken (items fuel closing acc) fun m' xs => w.Row lo xs m'.last.stop
  primary : ∀ m t, 8 * m.left + 2 ≤ fuel → w.Lays m (· = t) (primary fuel) (w.Operand m t)
  construct : ∀ m t, t.kind = .keyword .new → 8 * m.left + 1 ≤ fuel →
    w.Lays m (· = t) (construct fuel) (w.Operand m t)
  properties : ∀ m lo base, 8 * m.left + 1 ≤ fuel → w.Row lo [base] m.last.stop →
    w.Lays m anyToken (properties fuel base) fun m' e => w.Row lo [e] m'.last.stop
  template : ∀ m t, w.Stands t.span t.text → 8 * t.text.length + 1 ≤ fuel →
    w.Lays m anyToken (template fuel t) fun _ e => w.Row t.span.start [e] t.span.stop
  substitutions : ∀ m lo mid hi ps acc, Unbounded.Fits fuel ps →
    w.Row lo (present acc.toList) mid → PartsIn hi mid ps → hi ≤ w.source.size →
    w.Lays m anyToken (substitutions fuel ps acc) fun _ r => w.Row lo (present r) hi
  substitution : ∀ m start stop, start ≤ stop → stop ≤ w.source.size →
    8 * (stop - start) + 5 ≤ fuel →
    w.Lays m anyToken (substitution fuel start stop) fun _ e =>
      w.Row start ([e].filter Expr.isPresent) stop

theorem laysAt_zero (w : Window) : w.LaysAt 0 where
  binary _ _ _ h := absurd h (by omega)
  climb _ _ _ _ h := absurd h (by omega)
  ternary _ _ _ _ _ h := absurd h (by omega)
  unary _ _ h := absurd h (by omega)
  chain _ _ _ h := absurd h (by omega)
  arguments _ _ _ h := absurd h (by omega)
  listUntil _ _ _ _ _ _ h := absurd h (by omega)
  items _ _ _ _ h := absurd h (by omega)
  primary _ _ h := absurd h (by omega)
  construct _ _ _ h := absurd h (by omega)
  properties _ _ _ h := absurd h (by omega)
  template _ _ _ h := absurd h (by omega)
  -- only the empty list of substitutions needs no fuel
  substitutions _ _ _ _ ps _ hfits hacc hps _ := by
    cases ps with
    | nil =>
      rw [Parse.substitutions]
      exact .pure (hacc.upTo hps)
    | cons p ps =>
      have := hfits p List.mem_cons_self
      omega
  substitution _ _ _ _ _ h := absurd h (by omega)

section Functions

variable {fuel : Nat} {m : w.Mark} {lo : Nat}

theorem lays_binary (ih : w.LaysAt fuel) (t : Token) (floor : Nat)
    (h : 8 * m.left + 4 ≤ fuel + 1) :
    w.Lays m (· = t) (Parse.binary (fuel + 1) floor) (w.Operand m t) := by
  rw [Parse.binary]
  refine .bind (ih.unary m t (by omega)) fun m₁ left h₁ hleft => ?_
  have hless := h₁.left_le
  cases left with
  | none => exact .pure (.none hleft.moves)
  | some left =>
    refine .bind (ih.climb m₁ m.lo floor left (by omega) (hleft.row left rfl)) fun m₂ e h₂ he => ?_
    exact .pure (.some (fun hend => Nat.lt_of_le_of_lt h₂.left_le (hleft.moves hend)) he)

theorem lays_climb (ih : w.LaysAt fuel) (floor : Nat) {left : Expr} (h : 8 * m.left + 2 ≤ fuel + 1)
    (hleft : w.Row lo [left] m.last.stop) :
    w.Lays m anyToken (Parse.climb (fuel + 1) floor left) fun m' e =>
      w.Row lo [e] m'.last.stop := by
  rw [Parse.climb]
  refine .peek fun op _ => .ite (fun hop => .ite (fun _ => .pure hleft) fun _ => ?_) fun _ => ?_
  · have hend : op.kind ≠ .endOfScript := by simp [hop]
    -- `? :` and the condition before it make one expression, and the climb goes on with it
    refine .bind (ih.ternary m op lo left hend (by omega) hleft) fun m₁ e _ he => ?_
    obtain ⟨hless, hrow⟩ := he
    exact ih.climb m₁ lo floor e (by omega) hrow
  · split
    · exact .pure hleft
    · next b hb =>
      have hend : op.kind ≠ .endOfScript := by
        intro hend
        simp [hend, TokenKind.binding?] at hb
      refine .ite (fun _ => .pure hleft) fun _ => .bind (.advance hend) fun m₁ _ h₁ hop => ?_
      have hless := hop.2.left_lt
      refine .bind (.operand fun t => ih.binary m₁ t _ (by omega)) fun m₂ right h₂ hright => ?_
      have hless₂ := h₂.left_le
      cases right with
      -- without an operand on its right the operator is reported and the left one stands alone
      | none =>
        refine .bind (.complain _ _) fun m₃ _ h₃ _ => .pure ?_
        exact hleft.upTo ((h₁.trans h₂).trans h₃).stop_le
      | some right =>
        -- the two operands and the operator between them become the next left side
        have hboth : w.Row lo (left :: ([] ++ [right])) m₂.last.stop :=
          (hleft.upTo (Nat.le_trans m.behind h₁.lo)).append (hright right rfl)
        exact ih.climb m₂ lo floor _ (by omega) (hboth.join rfl rfl rfl)

theorem lays_ternary (ih : w.LaysAt fuel) {t : Token} {cond : Expr} (hend : t.kind ≠ .endOfScript)
    (h : 8 * m.left + 1 ≤ fuel + 1) (hcond : w.Row lo [cond] m.last.stop) :
    w.Lays m (· = t) (Parse.ternary (fuel + 1) cond) fun m' e =>
      m'.left < m.left ∧ w.Row lo [e] m'.last.stop := by
  rw [Parse.ternary]
  refine .bind (.advance hend) fun m₁ _ h₁ ht => ?_
  have hless := ht.2.left_lt
  -- whatever is missing, the condition alone is left
  have alone {m' : w.Mark} (hon : m₁.Onward m') : m'.left < m.left ∧ w.Row lo [cond] m'.last.stop :=
    ⟨Nat.lt_of_le_of_lt hon.left_le hless, hcond.upTo (h₁.trans hon).stop_le⟩
  refine .bind (.operand fun t => ih.binary m₁ t _ (by omega)) fun m₂ yes h₂ hyes => ?_
  cases yes with
  | none => exact .bind (.complain _ _) fun m₃ _ h₃ _ => .pure (alone (h₂.trans h₃))
  | some yes =>
    have hless₂ := h₂.left_le
    refine .bind (.expect (by decide) _ _) fun m₃ colon h₃ _ => ?_
    have hless₃ := h₃.left_le
    cases colon with
    | none => exact .pure (alone (h₂.trans h₃))
    | some _ =>
      refine .bind (.operand fun t => ih.binary m₃ t _ (by omega)) fun m₄ no h₄ hno => ?_
      have hless₄ := h₄.left_le
      cases no with
      | none =>
        exact .bind (.complain _ _) fun m₅ _ h₅ _ => .pure (alone (((h₂.trans h₃).trans h₄).trans h₅))
      | some no =>
        have hrow : w.Row lo (cond :: ([yes] ++ [no])) m₄.last.stop :=
          (hcond.upTo (Nat.le_trans m.behind h₁.lo)).append
            (((hyes yes rfl).upTo (Nat.le_trans m₂.behind h₃.lo)).append (hno no rfl))
        exact .pure ⟨by omega, hrow.join rfl rfl rfl⟩

theorem lays_unary (ih : w.LaysAt fuel) (t : Token) (h : 8 * m.left + 3 ≤ fuel + 1) :
    w.Lays m (· = t) (Parse.unary (fuel + 1)) (w.Operand m t) := by
  rw [Parse.unary]
  refine .peek fun t' ht => ?_
  subst ht
  refine .ite (fun hop => ?_) fun _ => ?_
  · have hend : t'.kind ≠ .endOfScript := by
      intro hend
      simp [hend, TokenKind.isPrefixOperator] at hop
    refine .bind (.advance hend) fun m₁ _ h₁ ht => ?_
    have hless := ht.2.left_lt
    refine .bind (.operand fun t => ih.unary m₁ t (by omega)) fun m₂ x h₂ hx => ?_
    -- an operand which moved on has fewer tokens behind it
    have moves {m' : w.Mark} (hon : m₁.Onward m') : m'.left < m.left :=
      Nat.lt_of_le_of_lt hon.left_le hless
    cases x with
    | none =>
      exact .bind (.complain _ _) fun m₃ _ h₃ _ => .pure (.none fun _ => moves (h₂.trans h₃))
    | some x =>
      refine .pure (.some (fun _ => moves h₂) (Row.mono ?_ ht.2.start (Nat.le_refl _)))
      exact .lead ht.2.stands (hx x rfl) (Nat.le_of_eq ht.2.lo.symm) rfl rfl rfl
  · refine .bind (ih.primary m t' (by omega)) fun m₁ x h₁ hx => ?_
    have hless := h₁.left_le
    cases x with
    | none => exact .pure (.none hx.moves)
    | some x =>
      refine .bind (ih.chain m₁ m.lo x (by omega) (hx.row x rfl)) fun m₂ e h₂ he => ?_
      exact .pure (.some (fun hend => Nat.lt_of_le_of_lt h₂.left_le (hx.moves hend)) he)

/-- A point and the name of a property, and what goes on from there with less to read. -/
theorem lays_member {t : Token} {base : Expr} {more : Expr → Parse Expr}
    (hend : t.kind ≠ .endOfScript) (hmore : ∀ m' : w.Mark, m'.left < m.left → ∀ base,
      w.Row lo [base] m'.last.stop → w.Lays m' anyToken (more base) fun m'' e =>
        w.Row lo [e] m''.last.stop) (hbase : w.Row lo [base] m.last.stop) :
    w.Lays m (· = t) (do
      let _ ← advance
      match ← expectName with
      | none => return base
      | some name => more (.member (base.span.cover name.span) base name.text name.span))
      fun m' e => w.Row lo [e] m'.last.stop := by
  refine .bind (.advance hend) fun m₁ _ h₁ ht => ?_
  have hless := ht.2.left_lt
  refine .bind .expectName fun m₂ name h₂ hname => ?_
  have hless₂ := h₂.left_le
  cases name with
  | none => exact .pure (hbase.upTo (h₁.trans h₂).stop_le)
  | some name =>
    obtain ⟨hpassed, hlast⟩ := hname
    refine hmore m₂ (by omega) _ ?_
    rw [hlast]
    exact hbase.member hpassed.stands (Nat.le_trans m.behind (Nat.le_trans h₁.lo hpassed.start))

theorem lays_chain (ih : w.LaysAt fuel) {base : Expr} (h : 8 * m.left + 2 ≤ fuel + 1)
    (hbase : w.Row lo [base] m.last.stop) :
    w.Lays m anyToken (Parse.chain (fuel + 1) base) fun m' e => w.Row lo [e] m'.last.stop := by
  rw [Parse.chain]
  refine .peek fun t _ => .ite (fun hdot => ?_) fun _ => .ite (fun hopen => ?_) fun _ =>
    .ite (fun hopen => ?_) fun _ => .ite (fun hop => ?_) fun _ => .pure hbase
  · refine lays_member (by simp [hdot]) (fun m' hless base hbase => ?_) hbase
    exact ih.chain m' lo base (by omega) hbase
  · refine .bind (.advance (by simp [hopen])) fun m₁ _ h₁ ht => ?_
    have hless := ht.2.left_lt
    -- an index is read in the space behind the bracket
    refine .bind (.operand fun t => ih.binary m₁ t _ (by omega)) fun m₂ i h₂ hi => ?_
    have hless₂ := h₂.left_le
    refine .bind (.expect (by decide) _ _) fun m₃ closing h₃ hclosing => ?_
    have hless₃ := h₃.left_le
    cases i with
    | none =>
      refine .bind (.complain _ _) fun m₄ _ h₄ _ => .pure ?_
      exact hbase.upTo (((h₁.trans h₂).trans h₃).trans h₄).stop_le
    | some i =>
      have hrow : w.Row lo (base :: ([] ++ [i])) m₂.last.stop :=
        (hbase.upTo (Nat.le_trans m.behind h₁.lo)).append (hi i rfl)
      refine ih.chain m₃ lo _ (by omega) ?_
      -- where the bracket is missing, the access ends with what was read as the index
      cases closing with
      | none => exact (hrow.join rfl rfl rfl).upTo h₃.stop_le
      | some closing =>
        obtain ⟨hpassed, hlast⟩ := hclosing
        have hstart : m₂.last.stop ≤ closing.span.start := Nat.le_trans m₂.behind hpassed.start
        have hstop := hpassed.stands.nonempty
        rw [hlast]
        exact (hrow.upTo (by omega)).extend hpassed.stands.file
          (hbase.start_le (Nat.le_trans (h₁.trans h₂).stop_le hstart)) hpassed.stands.within
          rfl rfl rfl
  · refine .bind (ih.arguments m t hopen (by omega)) fun m₁ r h₁ hr => ?_
    obtain ⟨hless, hrow, hstop, hstart⟩ := hr
    refine ih.chain m₁ lo _ (by omega) ?_
    rw [hstop]
    exact ((hbase.upTo m.behind).append hrow).extend m₁.file
      (hbase.start_le (Nat.le_trans m.behind hstart)) m₁.within rfl rfl rfl
  -- an operator behind the operand is a token of its own, right of the operand
  · have hend : t.kind ≠ .endOfScript := by
      intro hend
      simp [hend] at hop
    refine .bind (.advance hend) fun m₁ op h₁ hop => ?_
    obtain ⟨rfl, hpassed⟩ := hop
    have hstart : m.last.stop ≤ op.span.start := Nat.le_trans m.behind hpassed.start
    have hstop := hpassed.stands.nonempty
    have hlast : m₁.last = op.span := hpassed.last (by intro hk; simp [hk] at hop)
    refine .pure ?_
    rw [hlast]
    exact (hbase.upTo (by omega)).extend hpassed.stands.file (hbase.start_le hstart)
      hpassed.stands.within rfl rfl rfl

theorem lays_arguments (ih : w.LaysAt fuel) {t : Token} (hopen : t.kind = .symbol .leftParen)
    (h : 8 * m.left + 1 ≤ fuel + 1) :
    w.Lays m (· = t) (Parse.arguments (fuel + 1)) fun m' r => m'.left < m.left ∧
      w.Row m.lo r.1 m'.last.stop ∧ r.2 = m'.last ∧ m.lo ≤ m'.last.start := by
  rw [Parse.arguments]
  refine .bind (.advance (by simp [hopen])) fun m₁ opening h₁ ht => ?_
  obtain ⟨rfl, hpassed⟩ := ht
  have hless := hpassed.left_lt
  have hlast : m₁.last = opening.span := hpassed.last (by simp [hopen])
  have hne := hpassed.stands.nonempty
  have hlo : m.lo ≤ m₁.last.stop := by
    rw [hlast]
    exact Nat.le_trans hpassed.start (Nat.le_of_lt hne)
  refine .bind (ih.listUntil m₁ m.lo _ _ _ (by decide) (by omega) hlo) fun m₂ r h₂ hr => .pure ?_
  obtain ⟨hrow, hstop⟩ := hr
  -- the last good token is the bracket or one behind it
  have hbehind : m.lo ≤ m₂.last.start ∧ m₂.last.start < m₂.last.stop := by
    rcases h₂.last with hsame | ⟨hstart, hne'⟩
    · rw [hsame, hlast]
      exact ⟨hpassed.start, hne⟩
    · exact ⟨Nat.le_trans h₁.lo hstart, hne'⟩
  refine ⟨Nat.lt_of_le_of_lt h₂.left_le hless, hrow, ?_, hbehind.1⟩
  rw [hstop, if_neg]
  simp only [Span.isEmpty, decide_eq_true_eq]
  omega

theorem lays_items (ih : w.LaysAt fuel) (closing : TokenKind) {acc : Array Expr}
    (h : 8 * m.left + 5 ≤ fuel + 1) (hacc : w.Row lo acc.toList m.last.stop) :
    w.Lays m anyToken (Parse.items (fuel + 1) closing acc) fun m' xs =>
      w.Row lo xs m'.last.stop := by
  rw [Parse.items]
  refine .peek fun t _ => .ite (fun _ => .pure hacc) fun _ => ?_
  refine .any (.bind (.operand fun t => ih.binary m t _ (by omega)) fun m₁ x h₁ hx => ?_)
  have hless := h₁.left_le
  cases x with
  | none => exact .pure (hacc.upTo h₁.stop_le)
  | some x =>
    have hmore : w.Row lo (acc.push x).toList m₁.last.stop := (hacc.upTo m.behind).push (hx x rfl)
    refine .at? fun t _ => .ite (fun hcomma => ?_) fun _ => .pure hmore
    have hend : t.kind ≠ .endOfScript := by
      intro hend
      simp [hend] at hcomma
    refine .bind (.advance hend) fun m₂ _ h₂ ht => ?_
    have hless₂ := ht.2.left_lt
    exact ih.items m₂ lo closing _ (by omega) (hmore.upTo h₂.stop_le)

/-- The operand of a single token is a leaf at the place of the token. -/
theorem lays_leaf {t : Token} (hkind : t.kind ≠ .endOfScript ∧ t.kind ≠ .invalid) {e : Expr}
    (hspan : e.span = t.span) (hparts : e.children = [])
    (hword : ∀ x ∈ e.word?, x = ⟨t.text, t.span⟩) :
    w.Lays m (· = t) (Parse.advance >>= fun _ => pure (some e)) (w.Operand m t) := by
  refine .bind (.advance hkind.1) fun m₁ _ h₁ ht => .pure (.some (fun _ => ht.2.left_lt) ?_)
  rw [ht.2.last hkind.2]
  exact (Row.leaf ht.2.stands hspan hparts hword).mono ht.2.start (Nat.le_refl _)

/-- A list between brackets, from the place of the opening one to the last good token. -/
theorem lays_array (ih : w.LaysAt fuel) {t : Token} (hopen : t.kind = .symbol .leftBracket)
    (h : 8 * m.left + 2 ≤ fuel + 1) (code : Code) (message : Bytes) :
    w.Lays m (· = t) (do
      let _ ← advance
      let (xs, stop) ← listUntil fuel (.symbol .rightBracket) code message
      return some (.array (t.span.cover stop) xs)) (w.Operand m t) := by
  refine .bind (.advance (by simp [hopen])) fun m₁ _ h₁ ht => ?_
  have hless := ht.2.left_lt
  have hlast : m₁.last = t.span := ht.2.last (by simp [hopen])
  have hne := ht.2.stands.nonempty
  refine .bind (ih.listUntil m₁ t.span.stop _ _ _ (by decide) (by omega) (by rw [hlast]))
    fun m₂ r h₂ hr => .pure ?_
  obtain ⟨hrow, hstop⟩ := hr
  have hstart : t.span.start ≤ m₂.last.start := by
    rcases h₂.last with hsame | ⟨hstart, -⟩
    · rw [hsame, hlast]
    · exact Nat.le_trans (Nat.le_of_lt (ht.2.lo ▸ hne)) hstart
  rw [hstop]
  refine .some (fun _ => Nat.lt_of_le_of_lt h₂.left_le hless) (Row.mono ?_ ht.2.start (Nat.le_refl _))
  exact hrow.enclose ht.2.stands m₂.file hstart m₂.within rfl rfl rfl

theorem lays_group (ih : w.LaysAt fuel) {t : Token} (hopen : t.kind = .symbol .leftParen)
    (h : 8 * m.left + 2 ≤ fuel + 1) (code : Code) (message : Bytes) :
    w.Lays m (· = t) (do
      let _ ← advance
      let inner? ← Parse.binary fuel 0
      let closing ← expect (.symbol .rightParen) code message
      match inner? with
      | none => return none
      | some inner =>
        let stop := (closing.map Token.span).getD inner.span
        return some (.group (t.span.cover stop) inner)) (w.Operand m t) := by
  refine .bind (.advance (by simp [hopen])) fun m₁ _ h₁ ht => ?_
  have hless := ht.2.left_lt
  refine .bind (.operand fun t => ih.binary m₁ t _ (by omega)) fun m₂ inner h₂ hinner => ?_
  -- with its parenthesis or without, the group starts at the opening one
  refine .bind (.expect (by decide) _ _) fun m₃ closing h₃ hclosing => ?_
  have moves : m₃.left < m.left := Nat.lt_of_le_of_lt (h₂.trans h₃).left_le hless
  cases inner with
  | none => exact .pure (.none fun _ => moves)
  | some inner =>
    refine .pure (.some (fun _ => moves) (Row.mono ?_ ht.2.start (Nat.le_refl _)))
    have hinner := hinner inner rfl
    cases closing with
    | none => exact (Row.lead ht.2.stands hinner (by rw [ht.2.lo]) rfl rfl rfl).upTo h₃.stop_le
    | some closing =>
      obtain ⟨hpassed, hlast⟩ := hclosing
      have hstart : m₂.last.stop ≤ closing.span.start := Nat.le_trans m₂.behind hpassed.start
      have hne := ht.2.stands.nonempty
      have hle : t.span.stop ≤ closing.span.start := by
        rw [← ht.2.lo]
        exact Nat.le_trans h₂.lo hpassed.start
      have hstop := hpassed.stands.nonempty
      rw [hlast]
      exact (hinner.mono (by rw [ht.2.lo]) (by omega)).enclose ht.2.stands hpassed.stands.file
        (by omega) hpassed.stands.within rfl rfl rfl

theorem lays_primary (ih : w.LaysAt fuel) (t : Token) (h : 8 * m.left + 2 ≤ fuel + 1) :
    w.Lays m (· = t) (Parse.primary (fuel + 1)) (w.Operand m t) := by
  rw [Parse.primary]
  refine .peek fun t' ht => ?_
  subst ht
  split
  iterate 6
    next hk => exact lays_leaf (by simp [hk]) rfl rfl (by rintro x ⟨⟩; rfl)
  · next hk =>
    refine .bind (.advance (by simp [hk])) fun m₁ _ h₁ ht => ?_
    have hless := ht.2.left_lt
    -- the span of the token read last is where a template ends
    have hlast : m₁.last = t'.span := ht.2.last (by simp [hk])
    have hlength := ht.2.length_le
    refine .bind (ih.template m₁ t' ht.2.stands (by omega)) fun m₂ e h₂ he => .pure ?_
    refine .some (fun _ => Nat.lt_of_le_of_lt h₂.left_le hless) (he.mono ht.2.start ?_)
    rw [← hlast]
    exact h₂.stop_le
  · next hk => exact lays_leaf (by simp [hk]) rfl rfl (by rintro x ⟨⟩; rfl)
  · next hk => exact lays_group ih hk h _ _
  · next hk => exact lays_array ih hk h _ _
  · next hk => exact ih.construct m t' hk (by omega)
  · next hk => exact .bind (.complain _ _) fun m₁ _ h₁ hm => .pure (.none fun hend => absurd hk hend)
  · next hk =>
    exact .bind (.advance (by simp [hk])) fun m₁ _ h₁ ht => .pure (.none fun _ => ht.2.left_lt)
  · next hend _ =>
    refine .report hend _ _ (.bind (.advance hend) fun m₁ _ h₁ ht => ?_)
    exact .pure (.none fun _ => ht.2.left_lt)

theorem lays_construct (ih : w.LaysAt fuel) {t : Token} (hword : t.kind = .keyword .new)
    (h : 8 * m.left + 1 ≤ fuel + 1) :
    w.Lays m (· = t) (Parse.construct (fuel + 1)) (w.Operand m t) := by
  rw [Parse.construct]
  refine .bind (.advance (by simp [hword])) fun m₁ word h₁ hpassed => ?_
  obtain ⟨rfl, hpassed⟩ := hpassed
  have hless := hpassed.left_lt
  have hlo := hpassed.lo
  refine .at? fun t _ => .ite (fun hnew => .bind (ih.construct m₁ t ?_ (by omega)) ?_) fun _ =>
    .bind (ih.primary m₁ t (by omega)) ?_
  · simpa using hnew
  -- whatever is constructed, its properties and arguments come behind it
  all_goals
    intro m₂ callee h₂ hcallee
    have hless₂ := h₂.left_le
    cases callee with
    | none => exact .pure (.none fun _ => by omega)
    | some first =>
      refine .bind (ih.properties m₂ m₁.lo first (by omega) (hcallee.row first rfl))
        fun m₃ callee h₃ hcallee => ?_
      have hless₃ := h₃.left_le
      refine .at? fun t _ => .ite (fun hopen => ?_) fun _ => .pure ?_
      · refine .bind (ih.arguments m₃ t (by simpa using hopen) (by omega)) fun m₄ r h₄ hr => .pure ?_
        obtain ⟨hless₄, hrow, hstop, hstart⟩ := hr
        refine .some (fun _ => by omega) (Row.mono ?_ hpassed.start (Nat.le_refl _))
        have hboth := (hcallee.upTo m₃.behind).append hrow
        rw [hstop]
        refine (hboth.mono (by rw [hlo]) (Nat.le_refl _)).enclose hpassed.stands m₄.file ?_ m₄.within
          rfl rfl rfl
        have := (h₂.trans h₃).lo
        have := hpassed.stands.nonempty
        omega
      · refine .some (fun _ => by omega) (Row.mono ?_ hpassed.start (Nat.le_refl _))
        exact .lead hpassed.stands hcallee (by rw [hlo]) rfl rfl rfl

theorem lays_properties (ih : w.LaysAt fuel) {base : Expr} (h : 8 * m.left + 1 ≤ fuel + 1)
    (hbase : w.Row lo [base] m.last.stop) :
    w.Lays m anyToken (Parse.properties (fuel + 1) base) fun m' e => w.Row lo [e] m'.last.stop := by
  rw [Parse.properties]
  refine .at? fun t _ => .ite (fun hdot => ?_) fun _ => .pure hbase
  have hkind : t.kind = .symbol .dot := by simpa using hdot
  refine lays_member (by simp [hkind]) (fun m' hless base hbase => ?_) hbase
  exact ih.properties m' lo base (by omega) hbase

theorem present_push (acc : Array (Bytes × Expr)) (text : Bytes) (x : Expr) :
    present (acc.push (text, x)).toList = present acc.toList ++ [x].filter Expr.isPresent := by
  rw [present, Array.toList_push, List.map_append, List.filter_append]
  rfl

theorem lays_template (ih : w.LaysAt fuel) {t : Token} (ht : w.Stands t.span t.text)
    (h : 8 * t.text.length + 1 ≤ fuel + 1) :
    w.Lays m anyToken (Parse.template (fuel + 1) t) fun _ e =>
      w.Row t.span.start [e] t.span.stop := by
  have hne := ht.nonempty
  have hlength := ht.length
  have htext : t.text ≠ [] := by
    rintro htext
    rw [htext, List.length_nil] at hlength
    omega
  obtain ⟨hparts, hopen⟩ := templateOf_ordered t.span.start htext
  rw [hlength, Nat.add_sub_cancel' (Nat.le_of_lt hne)] at hparts hopen
  have hfits : Unbounded.Fits fuel (templateOf t.span.start t.text).parts := by
    intro p hp
    have := templateOf_inside t.span.start t.text p hp
    have := List.length_pos_of_mem hp
    omega
  rw [Parse.template]
  refine .bind (ih.substitutions m t.span.start t.span.start t.span.stop _ #[] hfits
    (Nat.le_refl _) hparts ht.within) fun m₁ parts _ hrow => ?_
  -- the pieces between the substitutions have no spans, so that the row is that of its parts
  have hnode : w.Row t.span.start [.template t.span parts (templateOf t.span.start t.text).tail]
      t.span.stop := hrow.node (by rw [← ht.file]; rfl) hne ht.within ?_ rfl
  · split
    · exact .pure hnode
    · next pos hpos =>
      have hplace := hopen pos hpos
      refine .bind .get fun m₂ s _ hs => ?_
      have hspan : Span.Within ⟨s.file, pos, t.span.stop⟩ w.file w.source.size :=
        ⟨hs.2.1, hplace.2, ht.within⟩
      exact .bind (.note hspan _ _) fun m₃ _ _ _ => .pure hnode
  · simp [Expr.children, present]

/-- A substitution is read in a window of its own; the tokens around it are put back. -/
theorem lays_substitution (ih : ∀ w : Window, w.LaysAt fuel) {start stop : Nat}
    (hle : start ≤ stop) (hstop : stop ≤ w.source.size) (h : 8 * (stop - start) + 5 ≤ fuel + 1) :
    w.Lays m anyToken (Parse.substitution (fuel + 1) start stop) fun _ e =>
      w.Row start ([e].filter Expr.isPresent) stop := by
  intro s hs _
  -- the tokens of the substitution are read in a window of their own, up to its brace
  let inner : (w.upTo stop hstop).Mark :=
    ⟨start, ⟨w.file, start, start⟩, hle, rfl, Nat.le_refl _, Nat.le_refl _⟩
  have hinside : (w.upTo stop hstop).At inner (s.inside start stop) := by
    refine ⟨⟨hs.placed.source, hs.placed.file, ?_, Nat.le_trans hle hstop, hs.placed.log⟩, ?_⟩
    · simp only [ParserState.inside, hs.placed.source, hs.placed.file]
      exact tokens_between hle hstop
    · simp only [ParserState.inside, hs.placed.file]
      rfl
  have henough : 8 * inner.left + 4 ≤ fuel := by
    show 8 * (stop - start) + 4 ≤ fuel
    omega
  obtain ⟨m', hon, hat, hfound⟩ :=
    (ih (w.upTo stop hstop)).binary inner _ 0 henough _ hinside rfl
  -- what is left before the brace is reported there and not read
  have hend : (w.upTo stop hstop).At m' (substitutionEnd (Parse.binary fuel 0
      (s.inside start stop)).2) := by
    unfold substitutionEnd
    split
    · exact hat.look
    · next hkind => exact hat.look.report (hat.placed.front hkind) _ _
  rw [substitution_run]
  refine ⟨m, .refl m, ⟨⟨hend.placed.source, hend.placed.file, hs.placed.tokens, hs.placed.last,
    hend.placed.log⟩, hs.last⟩, ?_⟩
  cases hx : (Parse.binary fuel 0 (s.inside start stop)).1 with
  | none => exact hle
  | some x =>
    have hrow := (hfound.row x hx).widen
    exact (hrow.filter _).upTo (Nat.le_trans m'.behind m'.inside)

end Functions

/-- What the parser finds with fuel enough has exact spans. -/
theorem laysAt (w : Window) (fuel : Nat) : w.LaysAt fuel := by
  induction fuel generalizing w with
  | zero => exact laysAt_zero w
  | succ fuel ih =>
    exact {
      binary := fun m t floor h => lays_binary (ih w) t floor h
      climb := fun m lo floor left h hleft => lays_climb (ih w) floor h hleft
      ternary := fun m t lo cond hend h hcond => lays_ternary (ih w) hend h hcond
      unary := fun m t h => lays_unary (ih w) t h
      chain := fun m lo base h hbase => lays_chain (ih w) h hbase
      arguments := fun m t hopen h => lays_arguments (ih w) hopen h
      listUntil := fun m lo closing code message hclosing h hlo => by
        rw [Parse.listUntil]
        refine .bind ((ih w).items m lo closing #[] (by omega) hlo) fun m₁ xs h₁ hxs => ?_
        refine .bind .get fun m₂ s _ hs => ?_
        obtain ⟨rfl, -, hlast⟩ := hs
        refine .bind (.expect hclosing _ _) fun m₃ found h₃ hfound => .pure ⟨hxs.upTo h₃.stop_le, ?_⟩
        -- without a closing token the list ends where the last token has
        cases found with
        | none =>
          obtain rfl := hfound
          exact hlast
        | some t => exact hfound.2.symm
      items := fun m lo closing acc h hacc => lays_items (ih w) closing h hacc
      primary := fun m t h => lays_primary (ih w) t h
      construct := fun m t hword h => lays_construct (ih w) hword h
      properties := fun m lo base h hbase => lays_properties (ih w) h hbase
      template := fun m t ht h => lays_template (ih w) ht h
      -- the substitutions lie in the template in order, and each needs no more fuel than the
      -- template has
      substitutions := fun m lo mid hi ps acc hfits hacc hps hhi => by
        cases ps with
        | nil =>
          rw [Parse.substitutions]
          exact .pure (hacc.upTo hps)
        | cons p ps =>
          obtain ⟨hstart, hle, hrest⟩ := hps
          rw [Parse.substitutions]
          have hfirst := hfits p List.mem_cons_self
          have hless : Unbounded.Fits fuel ps := by
            intro q hq
            have := hfits q (List.mem_cons_of_mem p hq)
            rw [List.length_cons] at this
            omega
          refine .bind ((ih w).substitution m p.start p.stop hle
            (Nat.le_trans hrest.lo_le hhi) (by omega)) fun m₁ x _ hx =>
            (ih w).substitutions m₁ lo p.stop hi ps _ hless ?_ hrest hhi
          rw [present_push]
          exact (hacc.upTo hstart).append hx
      substitution := fun m start stop hle hstop h => lays_substitution ih hle hstop h }

theorem lays_statements {m : w.Mark} {lo : Nat} (fuel : Nat) (acc : Array Expr)
    (h : 8 * m.left + 5 ≤ fuel) (hacc : w.Row lo acc.toList m.last.stop) :
    w.Lays m anyToken (statements fuel acc) fun m' r => w.Row lo r m'.last.stop := by
  induction fuel generalizing m acc with
  | zero => omega
  | succ fuel ih =>
    rw [statements]
    refine .peek fun t _ => .ite (fun _ => .pure hacc) fun hend => .ite (fun _ => ?_) fun _ => ?_
    · refine .bind (.advance hend) fun m₁ _ h₁ ht => ?_
      have hless := ht.2.left_lt
      exact ih _ (by omega) (hacc.upTo h₁.stop_le)
    · refine .bind ((w.laysAt fuel).binary m t 0 (by omega)) fun m₁ x h₁ hx => ?_
      have hless := hx.moves hend
      cases x with
      | none => exact ih _ (by omega) (hacc.upTo h₁.stop_le)
      | some x =>
        have hmore : w.Row lo (acc.push x).toList m₁.last.stop :=
          (hacc.upTo m.behind).push (hx.row x rfl)
        refine .peek fun t _ => .ite (fun _ => .any (ih _ (by omega) hmore)) fun hother => ?_
        have hend : t.kind ≠ .endOfScript := by
          intro hend
          simp [hend] at hother
        -- behind an expression on the same line: reported or not, the token there is dropped
        have hskip : w.Lays m₁ (· = t) (do
            let _ ← advance
            statements fuel (acc.push x)) fun m' r => w.Row lo r m'.last.stop := by
          refine .bind (.advance hend) fun m₂ _ h₂ ht => ?_
          have hless₂ := ht.2.left_lt
          exact ih _ (by omega) (hmore.upTo h₂.stop_le)
        split
        · exact hskip
        · exact .report hend _ _ hskip

end Window

/-! ## Scripts -/

/-- The statements of a script stand in it one after the other. -/
theorem parse_row (text : Bytes) (file : FileId) (maxErrors : Nat) :
    (Window.whole text file).Row 0 (parse text file maxErrors).script text.length := by
  let m : (Window.whole text file).Mark :=
    ⟨0, ⟨file, 0, 0⟩, Nat.zero_le _, rfl, Nat.le_refl _, Nat.le_refl _⟩
  have hstart : (Window.whole text file).At m (.atStart text file maxErrors) :=
    ⟨⟨rfl, rfl, Window.tokens_whole text file, Nat.zero_le _, by simp [ParserState.atStart]⟩, rfl⟩
  have henough : 8 * m.left + 5 ≤ parseFuel text.length := by
    show 8 * (text.length - 0) + 5 ≤ 16 * text.length + 16
    omega
  obtain ⟨m', -, -, hrow⟩ :=
    Window.lays_statements (parseFuel text.length) #[] henough (Nat.le_refl 0) _ hstart trivial
  exact hrow.upTo (Nat.le_trans m'.behind m'.inside)

/-- The spans of a script tree are exact, whatever the text: the statements do not overlap and stand
in source order, and so do the parts of every expression in them.  No expression is empty, each lies
in the text and around its parts, and a value, a name or the name of a property is the text at its
place, which for a property lies in the expression behind what the property is of. -/
theorem parse_spans (text : Bytes) (file : FileId) (maxErrors : Nat) :
    let script := (parse text file maxErrors).script
    script.Pairwise Expr.Precedes
      ∧ ∀ statement ∈ script, ∀ e : Expr, e.Occurs statement →
        e.span.file = file ∧ e.span.start < e.span.stop ∧ e.span.stop ≤ text.length
          ∧ (∀ c ∈ e.children, e.span.start ≤ c.span.start ∧ c.span.stop ≤ e.span.stop)
          ∧ e.children.Pairwise Expr.Precedes
          ∧ ∀ x ∈ e.word?, x.span.file = file ∧ e.span.start ≤ x.span.start
            ∧ x.span.start < x.span.stop ∧ x.span.stop ≤ e.span.stop
            ∧ (∀ c ∈ e.children, c.span.stop ≤ x.span.start)
            ∧ Content.slice text.toArray x.span.start x.span.stop = x.text := by
  have hrow := parse_row text file maxErrors
  refine ⟨hrow.pairwise, fun statement hs e he => ?_⟩
  have hexact := (hrow.mem statement hs).2.2 e he
  refine ⟨hexact.file, hexact.nonempty, by simpa [Window.whole] using hexact.within, hexact.covers,
    hexact.order, fun x hx => ?_⟩
  obtain ⟨hstands, hstart, hstop, hbehind⟩ := hexact.word x hx
  exact ⟨hstands.file, hstart, hstands.nonempty, hstop, hbehind, hstands.text⟩

/-- In `[`a${f(y}b`, 'q` neither the list nor the call in the template nor the string is closed: the
call ends with its argument, inside of the substitution. -/
theorem parse_spans_unclosed :
    ∃ statement ∈ (parse "[`a$\x7bf(y\x7db`, 'q" 3 0).script, ∃ call y : Expr,
      call.Occurs statement ∧ call.span = ⟨3, 5, 8⟩ ∧ statement.span = ⟨3, 0, 15⟩
        ∧ y.Occurs statement ∧ y ∈ call.children ∧ y.word? = some ⟨"y", ⟨3, 7, 8⟩⟩
        ∧ call.span.start ≤ y.span.start ∧ y.span.stop ≤ call.span.stop
        ∧ Content.slice ("[`a$\x7bf(y\x7db`, 'q" : Bytes).toArray 7 8 = "y" := by
  have hfound : ∃ statement ∈ (parse "[`a$\x7bf(y\x7db`, 'q" 3 0).script,
      statement.span = ⟨3, 0, 15⟩ ∧ ∃ template ∈ statement.children, ∃ call ∈ template.children,
        call.span = ⟨3, 5, 8⟩ ∧ ∃ y ∈ call.children, y.word? = some ⟨"y", ⟨3, 7, 8⟩⟩ := by
    decide +kernel
  obtain ⟨statement, hs, hspan, template, ht, call, hc, hcall, y, hy, hword⟩ := hfound
  have hin : call.Occurs statement := .tail (.single ht) hc
  have hat := (parse_spans "[`a$\x7bf(y\x7db`, 'q" 3 0).2 statement hs
  obtain ⟨-, -, -, hcovers, -, -⟩ := hat call hin
  obtain ⟨-, -, -, -, -, hwords⟩ := hat y (.tail hin hy)
  obtain ⟨-, -, -, -, -, hslice⟩ := hwords _ hword
  exact ⟨statement, hs, call, y, hin, hcall, hspan, .tail hin hy, hy, hword, (hcovers y hy).1,
    (hcovers y hy).2, hslice⟩

end Script

end Storyline
