import Storyline.Proofs.Script.Precedence
import Storyline.Proofs.Script.Templates

/-!
# Braces and quotes of a script

Three readers look for the end of a script without reading it as one: the markup around it, the
lexer inside a template, and the parser inside a substitution.  They count braces and skip strings,
and differ in two points: whether backquotes open strings, and whether a backslash outside of
strings hides the byte behind it.  A `Tracker` is such a reader.

A script that the parser accepts has no braces outside of strings and templates (`Spells.unbraced`),
so all that can lead a tracker astray is a template: a script is `Balanced` if its templates are
(`Tracker.balanced_of_templates`).
-/

namespace Storyline.Script

/-- How braces and quotes are followed. -/
structure Tracker where
  /-- Whether backquotes open strings. -/
  fences : Bool
  /-- Whether a backslash outside of strings hides the byte behind it. -/
  hides : Bool
deriving DecidableEq, Repr

namespace Tracker

/-- Whether a byte opens a string. -/
def opens (t : Tracker) (b : UInt8) : Bool := b = '"' || b = '\'' || (t.fences && b = 0x60)

/-- What a byte leads to; nothing after a brace that closes what was not opened. -/
def step (t : Tracker) : Reading → UInt8 → Option Reading
  | (depth, .skipping), _ => some (depth, .plain)
  | (depth, .quotedSkipping q), _ => some (depth, .quoted q)
  | (depth, .quoted q), b =>
    if b = '\\' then some (depth, .quotedSkipping q)
    else if b = q then some (depth, .plain)
    else some (depth, .quoted q)
  | (depth, .plain), b =>
    if t.opens b then some (depth, .quoted b)
    else if b = 0x7B then some (depth + 1, .plain)
    else if b = 0x7D then if depth = 0 then none else some (depth - 1, .plain)
    else if t.hides && b = '\\' then some (depth, .skipping)
    else some (depth, .plain)

/-- Follows a text. -/
def run (t : Tracker) (c : Reading) (s : Bytes) : Option Reading := s.foldlM t.step c

/-- Whether a text closes every brace and every string that it opens, and no others. -/
def Balanced (t : Tracker) (s : Bytes) : Prop := t.run (0, .plain) s = some (0, .plain)

instance (t : Tracker) (s : Bytes) : Decidable (t.Balanced s) :=
  inferInstanceAs (Decidable (t.run (0, .plain) s = some (0, .plain)))

/-- The distance to the first closing brace that has no opening one, counted from `i`. -/
def find (t : Tracker) (c : Reading) (i : Nat) : Bytes → Option Nat
  | [] => none
  | b :: s => match t.step c b with
    | none => some i
    | some c' => t.find c' (i + 1) s

variable {t : Tracker} {c c' : Reading} {u v : Bytes} {b : UInt8}

/-! ## Following texts -/

@[simp] theorem run_nil (c : Reading) : t.run c [] = some c := rfl

theorem run_cons (c : Reading) (b : UInt8) (s : Bytes) :
    t.run c (b :: s) = (t.step c b).bind fun c' => t.run c' s :=
  List.foldlM_cons

theorem run_append (c : Reading) (u v : Bytes) :
    t.run c (u ++ v) = (t.run c u).bind fun c' => t.run c' v :=
  List.foldlM_append

/-- A tracker with more braces open makes the same way. -/
theorem step_deeper {d d' : Nat} {m m' : TemplateState} (h : t.step (d, m) b = some (d', m'))
    (k : Nat) : t.step (d + k, m) b = some (d' + k, m') := by
  cases m with
  | skipping | quotedSkipping q =>
    cases h
    rfl
  | quoted q =>
    simp only [step] at h ⊢
    grind
  | plain =>
    simp only [step] at h ⊢
    grind

theorem run_deeper {d d' : Nat} {m m' : TemplateState} (h : t.run (d, m) u = some (d', m'))
    (k : Nat) : t.run (d + k, m) u = some (d' + k, m') := by
  induction u generalizing d m with
  | nil =>
    cases h
    rfl
  | cons b u ih =>
    rw [run_cons] at h ⊢
    obtain ⟨⟨d₁, m₁⟩, hstep, hrun⟩ := Option.bind_eq_some_iff.mp h
    rw [step_deeper hstep k]
    exact ih hrun

/-- Where a brace is looked for, the search passes over what is followed before it. -/
theorem find_append (h : t.run c u = some c') (i : Nat) (v : Bytes) :
    t.find c i (u ++ v) = t.find c' (i + u.length) v := by
  induction u generalizing c i with
  | nil =>
    cases h
    rfl
  | cons b u ih =>
    rw [run_cons] at h
    obtain ⟨c₁, hstep, hrun⟩ := Option.bind_eq_some_iff.mp h
    rw [List.cons_append, find, hstep]
    simp only
    rw [ih hrun, List.length_cons]
    congr 1
    omega

theorem le_of_find {i n : Nat} (h : t.find c i u = some n) : i ≤ n := by
  induction u generalizing c i with
  | nil => cases h
  | cons b u ih =>
    rw [find] at h
    split at h
    · exact Nat.le_of_eq (Option.some.inj h)
    · exact Nat.le_of_succ_le (ih h)

/-- Only a closing brace that has no opening one stops a tracker. -/
theorem step_eq_none (h : t.step c b = none) : c = (0, .plain) ∧ b = 0x7D := by
  rcases c with ⟨d, _ | _ | q | q⟩
  · simp only [step] at h
    grind
  · cases h
  · simp only [step] at h
    split at h
    · cases h
    · split at h <;> cases h
  · cases h

/-- The brace behind a text is found if and only if the text leaves none open. -/
theorem find_closing (c : Reading) (i : Nat) (u v : Bytes) :
    t.find c i (u ++ 0x7D :: v) = some (i + u.length) ↔ t.run c u = some (0, .plain) := by
  constructor
  · intro h
    induction u generalizing c i with
    | nil =>
      rw [List.nil_append, find] at h
      split at h
      · rename_i hstep
        rw [(step_eq_none hstep).1]
        rfl
      · exact absurd (le_of_find h) (by simp)
    | cons b u ih =>
      rw [List.cons_append, find] at h
      rw [run_cons]
      split at h
      · have := Option.some.inj h
        simp at this
      · rename_i c₁ hstep
        rw [hstep]
        refine ih c₁ (i + 1) ?_
        rw [h, List.length_cons]
        congr 1
        omega
  · intro h
    rw [find_append h]
    have hstep : t.step (0, .plain) 0x7D = none := by
      rcases t with ⟨fences, hides⟩
      cases fences <;> cases hides <;> decide
    rw [find, hstep]

/-! ## Balanced texts -/

namespace Balanced

theorem nil (t : Tracker) : t.Balanced [] := rfl

/-- A balanced text leaves as many braces open as there were before it. -/
theorem run (h : t.Balanced u) (d : Nat) : t.run (d, .plain) u = some (d, .plain) := by
  have := run_deeper h d
  rwa [Nat.zero_add] at this

theorem append (hu : t.Balanced u) (hv : t.Balanced v) : t.Balanced (u ++ v) := by
  rw [Balanced, run_append, hu.run]
  exact hv

end Balanced

/-- Whether a byte means nothing to any tracker. -/
def isInert (b : UInt8) : Bool :=
  b != '"' && b != '\'' && b != 0x60 && b != 0x7B && b != 0x7D && b != '\\'

theorem step_inert (h : isInert b = true) (d : Nat) : t.step (d, .plain) b = some (d, .plain) := by
  simp only [isInert, Bool.and_eq_true, bne_iff_ne] at h
  simp [step, opens, h]

theorem balanced_inert (h : ∀ b ∈ u, isInert b = true) : t.Balanced u := by
  induction u with
  | nil => exact .nil t
  | cons b u ih =>
    rw [List.forall_mem_cons] at h
    rw [Balanced, run_cons, step_inert h.1]
    exact ih h.2

/-- In a string, everything is skipped up to the quote that closes it. -/
theorem run_string {q : UInt8} (hq : q ≠ '\\') (d length : Nat) (escaped : Bool) {body : Bytes}
    (h : stringLength q length escaped body = (length + body.length, true)) :
    t.run (d, if escaped then .quotedSkipping q else .quoted q) body = some (d, .plain) := by
  induction body generalizing length escaped with
  | nil => cases escaped <;> simp [stringLength] at h
  | cons b body ih =>
    have hlength : length + (b :: body).length = length + 1 + body.length := by
      rw [List.length_cons]
      omega
    rw [hlength] at h
    rw [run_cons]
    cases escaped with
    | true => exact ih (length + 1) false h
    | false =>
      simp only [stringLength] at h
      simp only [Bool.false_eq_true, if_false, step]
      by_cases hb : b = q
      · rw [if_pos hb] at h
        have hbody : body.length = 0 := by
          have := congrArg Prod.fst h
          simp only at this
          omega
        rw [List.length_eq_zero_iff.mp hbody, hb, if_neg hq, if_pos rfl]
        rfl
      · rw [if_neg hb] at h
        rw [if_neg hb]
        have hrec := ih (length + 1) (decide (b = ('\\' : UInt8))) h
        by_cases hs : b = '\\'
        · simpa [hs] using hrec
        · simpa [hs] using hrec

/-- The bytes of a class are inert if no mark is in the class. -/
theorem isInert_of_class {p : UInt8 → Bool}
    (hp : [('"' : UInt8), '\'', 0x60, 0x7B, 0x7D, '\\'].any p = false) (h : p b = true) :
    isInert b = true := by
  have hne : ∀ q ∈ [('"' : UInt8), '\'', 0x60, 0x7B, 0x7D, '\\'], b ≠ q := by
    rintro q hq rfl
    exact List.any_eq_false.mp hp b hq h
  simpa [isInert, and_assoc] using hne

theorem isInert_of_isWordByte (h : isWordByte b = true) : isInert b = true :=
  isInert_of_class (by decide) h

theorem isInert_of_isNumberByte (h : isNumberByte b = true) : isInert b = true :=
  isInert_of_class (by decide) h

theorem isInert_of_isSpace (h : isSpace b = true) : isInert b = true :=
  isInert_of_class (by decide) h

end Tracker

/-! ## Tokens -/

/-- Whether a form is a brace. -/
def Form.isBrace (f : Form) : Bool :=
  f.kind = .symbol .leftBrace || f.kind = .symbol .rightBrace

theorem Symbol.inert_text (op : Symbol) (h : (Form.symbol op).isBrace = false) :
    ∀ b ∈ (op.text : Bytes), Tracker.isInert b = true := by
  refine List.all_eq_true.mp ?_
  cases op
  case leftBrace | rightBrace => cases h
  all_goals decide

/-- A token that is neither a brace nor a template is balanced. -/
theorem Form.Before.balanced {f : Form} {k : Bytes} (h : f.Before k) (hbrace : f.isBrace = false)
    (htemplate : f.kind ≠ .template) (t : Tracker) : t.Balanced f.text := by
  have hscan := h.scan
  obtain ⟨hinvalid, hsymbol, -, -⟩ := scan_genuine 0 (f.text ++ k)
  cases hkind : f.kind with
  | invalid => exact absurd (by rw [hscan]) (hinvalid (by rw [hscan, hkind]))
  | endOfScript => exact absurd (by rw [hscan, hkind]) (scan_kind_ne_end 0 (f.text ++ k))
  | template => exact absurd hkind htemplate
  | identifier =>
    exact Tracker.balanced_inert fun b hb =>
      Tracker.isInert_of_isWordByte (h.wordBytes (.inl hkind) b hb)
  | keyword w =>
    exact Tracker.balanced_inert fun b hb =>
      Tracker.isInert_of_isWordByte (h.wordBytes (.inr ⟨w, hkind⟩) b hb)
  | number =>
    exact Tracker.balanced_inert fun b hb =>
      Tracker.isInert_of_isNumberByte ((h.numberText hkind).mem hb)
  | string =>
    obtain ⟨quote, body, htext, hquote, -, hlength⟩ := h.stringText hkind
    have hopens : t.opens quote = true := by
      rcases hquote with rfl | rfl <;> simp [Tracker.opens]
    have hslash : quote ≠ '\\' := by
      rcases hquote with rfl | rfl <;> decide
    have hread : stringLength quote 1 false body = (1 + body.length, true) := by
      simpa using hlength []
    have hbody := t.run_string hslash 0 1 false hread
    rw [htext, Tracker.Balanced, Tracker.run_cons]
    simpa [Tracker.step, hopens] using hbody
  | symbol op =>
    have htext := hsymbol op (by rw [hscan, hkind])
    rw [hscan, List.take_left] at htext
    rw [htext]
    refine Tracker.balanced_inert (op.inert_text ?_)
    simpa [Form.isBrace, hkind] using hbrace

/-- A text without faults and braces is balanced if its templates are. -/
theorem Tracker.balanced_of_templates {t : Tracker} {s : Bytes} (hs : Faultless s)
    (hbrace : ∀ f ∈ formsOf s, f.isBrace = false)
    (htemplate : ∀ f ∈ formsOf s, f.kind = .template → t.Balanced f.text) : t.Balanced s := by
  induction s using lexemes_induction with
  | nil => exact .nil t
  | space b s hb ih =>
    rw [formsOf_space hb] at hbrace htemplate
    have hrest := ih ((faultless_space hb s).mp hs) hbrace htemplate
    exact (balanced_inert (u := [b]) (by simpa using isInert_of_isSpace hb)).append hrest
  | token s hne hb ih =>
    obtain ⟨f, k, rfl, hbefore, hforms, hk⟩ := before_of_faultless hne hb hs
    rw [hbefore.scan, List.drop_left] at ih
    rw [hforms, List.forall_mem_cons] at hbrace htemplate
    refine Balanced.append ?_ (ih hk hbrace.2 htemplate.2)
    by_cases hkind : f.kind = .template
    · exact htemplate.1 hkind
    · exact hbefore.balanced hbrace.1 hkind t

/-! ## Scripts have no braces -/

namespace Form

theorem isBrace_of {k : TokenKind} (hl : k ≠ .symbol .leftBrace) (hr : k ≠ .symbol .rightBrace) :
    (of k).isBrace = false := by
  simp [isBrace, hl, hr]

@[simp] theorem isBrace_symbol (s : Symbol) :
    (symbol s).isBrace = (decide (s = .leftBrace) || decide (s = .rightBrace)) := by
  simp [isBrace]

@[simp] theorem isBrace_word (n : Bytes) : (word n).isBrace = false := by
  unfold isBrace word
  cases Keyword.ofBytes? n <;> simp

@[simp] theorem isBrace_keyword (k : Keyword) : (of (.keyword k)).isBrace = false :=
  isBrace_of (by simp) (by simp)

theorem isBrace_of_binding {op : TokenKind} {b : Binding} (h : op.binding? = some b) :
    (of op).isBrace = false := by
  refine isBrace_of ?_ ?_ <;> rintro rfl <;> cases h

theorem isBrace_of_prefixOperator {op : TokenKind} (h : op.isPrefixOperator = true) :
    (of op).isBrace = false := by
  refine isBrace_of ?_ ?_ <;> rintro rfl <;> cases h

end Form

/-- Whether no token is a brace. -/
def Unbraced (ts : List Form) : Prop := ∀ f ∈ ts, f.isBrace = false

@[simp] theorem unbraced_nil : Unbraced [] := List.forall_mem_nil _

@[simp] theorem unbraced_cons {f : Form} {ts : List Form} :
    Unbraced (f :: ts) ↔ f.isBrace = false ∧ Unbraced ts := List.forall_mem_cons

@[simp] theorem unbraced_append {ts us : List Form} :
    Unbraced (ts ++ us) ↔ Unbraced ts ∧ Unbraced us := List.forall_mem_append

mutual

/-- No token of a tree is a brace. -/
theorem Spells.unbraced : ∀ (e : Expr) {ts : List Form}, Spells ts e → e.Respects → Unbraced ts
  | .literal _ .number _ _, _, rfl, _ | .literal _ .string _ _, _, rfl, _
  | .identifier _ _, _, rfl, _ => by simp [Form.isBrace]
  | .literal _ .bool raw _, _, rfl, _ | .literal _ .null raw _, _, rfl, _
  | .literal _ .undefined raw _, _, rfl, _ => by simp
  | .binary _ op l r, _, ⟨us, vs, rfl, hus, hvs⟩, ⟨⟨b, hb, _⟩, hl, hr⟩ => by
    simp [Spells.unbraced l hus hl, Spells.unbraced r hvs hr, Form.isBrace_of_binding hb]
  | .unary _ op x, _, ⟨us, rfl, hus⟩, ⟨hop, _, hx⟩ => by
    simp [Spells.unbraced x hus hx, Form.isBrace_of_prefixOperator hop]
  | .trailing _ op x, _, ⟨us, rfl, hus⟩, ⟨hop, _, hx⟩ => by
    have hbrace : (Form.of op).isBrace = false := by
      rcases hop with rfl | rfl <;> rfl
    simp [Spells.unbraced x hus hx, hbrace]
  | .member _ b n _, _, ⟨us, rfl, hus⟩, ⟨_, _, hb⟩ => by
    simp [Spells.unbraced b hus hb]
  | .index _ b i, _, ⟨us, vs, rfl, hus, hvs⟩, ⟨_, hb, hi⟩ => by
    simp [Spells.unbraced b hus hb, Spells.unbraced i hvs hi]
  | .call _ c args, _, ⟨us, vs, rfl, hus, hvs⟩, ⟨_, _, hc, hargs⟩ => by
    simp [Spells.unbraced c hus hc, SpellsList.unbraced args hvs hargs]
  | .array _ xs, _, ⟨us, rfl, hus⟩, hxs => by
    simp [SpellsList.unbraced xs hus hxs]
  | .construct _ c args true, _, ⟨us, vs, rfl, hus, hvs⟩, ⟨_, _, _, hc, hargs⟩ => by
    obtain ⟨ws, rfl, hws⟩ := hvs
    simp [Spells.unbraced c hus hc, SpellsList.unbraced args hws hargs]
  | .construct _ c args false, _, ⟨us, vs, rfl, hus, hvs⟩, ⟨_, _, _, hc, _⟩ => by
    obtain rfl : vs = [] := hvs
    simp [Spells.unbraced c hus hc]
  | .ternary _ c a b, _, ⟨us, vs, ws, rfl, hus, hvs, hws⟩, ⟨_, hc, ha, hb⟩ => by
    simp [Spells.unbraced c hus hc, Spells.unbraced a hvs ha, Spells.unbraced b hws hb]
  | .template _ parts tail, _, ⟨raw, rfl, _⟩, _ => by simp [Form.isBrace]
  | .group _ x, _, ⟨us, rfl, hus⟩, hx => by simp [Spells.unbraced x hus hx]

theorem SpellsList.unbraced : ∀ (xs : List Expr) {ts : List Form}, SpellsList ts xs →
    Expr.RespectsAll xs → Unbraced ts
  | [], _, rfl, _ => unbraced_nil
  | x :: _, _, ⟨_, hus, .inl ⟨_, rfl⟩⟩, ⟨hx, _⟩ => Spells.unbraced x hus hx
  | x :: xs, _, ⟨_, hus, .inr ⟨_, rfl, hvs⟩⟩, ⟨hx, hxs⟩ => by
    simp [Spells.unbraced x hus hx, SpellsList.unbraced xs hvs hxs]

end

theorem SpellsScript.unbraced {ts : List Form} {es : Statements} (h : SpellsScript ts es)
    (hrespects : ∀ e ∈ es, e.Respects) : Unbraced ts := by
  induction h with
  | nil => exact unbraced_nil
  | skip h ih => exact unbraced_cons.mpr ⟨rfl, ih hrespects⟩
  | cons he _ _ ih =>
    rw [List.forall_mem_cons] at hrespects
    exact unbraced_append.mpr ⟨Spells.unbraced _ he hrespects.1, ih hrespects.2⟩

/-- An accepted script is balanced if its templates are. -/
theorem balanced_of_accepted {s : Bytes} {file : FileId} {t : Tracker}
    (h : (parse s file 0).diagnostics = [])
    (htemplate : ∀ f ∈ formsOf s, f.kind = .template → t.Balanced f.text) : t.Balanced s := by
  obtain ⟨hfaultless, hspells, hrespects⟩ := parse_sound h
  exact Tracker.balanced_of_templates hfaultless (hspells.unbraced hrespects) htemplate

end Storyline.Script
