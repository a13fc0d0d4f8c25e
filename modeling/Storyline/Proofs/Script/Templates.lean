import Mathlib.Data.List.Basic
import Storyline.Proofs.Script.Tokens

/-!
# Templates with other substitutions

Two readers pass over a template byte by byte: one looks for the quote that closes the template,
the other for the brace that closes a substitution.  Both are machines with the same states, and
texts are `SameReading` if both machines are left in the same state by either.  White space and
commas between tokens make no difference to them.

So a template whose substitutions are replaced by texts of the same reading closes where it should,
and falls apart into the same texts and the new substitutions.
-/

namespace Storyline.Script

/-! ## Two readers -/

/-- How many braces are open, and what the next byte may mean. -/
abbrev Reading := Nat × TemplateState

/-- Whether a byte opens a string, or a template in a substitution. -/
def IsQuote (b : UInt8) : Prop := b = '"' ∨ b = '\'' ∨ b = 0x60

/-- Whether only quotes have been taken for quotes. -/
def Reading.Valid : Reading → Prop
  | (_, .quoted q) | (_, .quotedSkipping q) => IsQuote q
  | _ => True

/-- Whether the next byte has a meaning of its own. -/
def Reading.Open : Reading → Prop
  | (_, .plain) => True
  | (_, .quoted q) => IsQuote q
  | _ => False

theorem Reading.Open.valid {c : Reading} (h : c.Open) : c.Valid := by
  rcases c with ⟨d, _ | _ | q | q⟩
  · trivial
  · trivial
  · exact h
  · exact h.elim

/-- What is being looked for: the end of a template or the end of a substitution. -/
inductive Reader where
  | template
  | substitution
deriving DecidableEq, Repr

namespace Reader

/-- What a byte with no meaning so far means to a reader when `next` follows it; nothing after the
byte that was looked for. -/
def meaning : Reader → (depth : Nat) → (b next : UInt8) → Option Reading
  | template, depth, b, next =>
    if b = '\\' then some (depth, .skipping)
    else if depth = 0 && b = 0x60 then none
    else if b = '$' && next = 0x7B then some (depth + 1, .skipping)
    else if 0 < depth && b = 0x7B then some (depth + 1, .plain)
    else if 0 < depth && b = 0x7D then some (depth - 1, .plain)
    else if 0 < depth && (b = '"' || b = '\'') then some (depth, .quoted b)
    else some (depth, .plain)
  | substitution, depth, b, _ =>
    if b = '\\' then some (depth, .skipping)
    else if b = '"' || b = '\'' || b = 0x60 then some (depth, .quoted b)
    else if b = 0x7B then some (depth + 1, .plain)
    else if b = 0x7D then if depth = 0 then none else some (depth - 1, .plain)
    else some (depth, .plain)

/-- One step of a reader. -/
def step (r : Reader) : Reading → (b next : UInt8) → Option Reading
  | (depth, .skipping), _, _ => some (depth, .plain)
  | (depth, .quotedSkipping q), _, _ => some (depth, .quoted q)
  | (depth, .quoted q), b, _ =>
    if b = '\\' then some (depth, .quotedSkipping q)
    else if b = q then some (depth, .plain)
    else some (depth, .quoted q)
  | (depth, .plain), b, next => r.meaning depth b next

/-- Passes over a text that is followed by the byte `after`. -/
def run (r : Reader) (c : Reading) : Bytes → (after : UInt8) → Option Reading
  | [], _ => some c
  | b :: s, after => (r.step c b (front (s ++ [after]))).bind fun c' => r.run c' s after

variable (r : Reader)

theorem run_append (c : Reading) (u v : Bytes) (a : UInt8) :
    r.run c (u ++ v) a = (r.run c u (front (v ++ [a]))).bind fun c' => r.run c' v a := by
  induction u generalizing c with
  | nil => rfl
  | cons b u ih =>
    have hfront : front (u ++ v ++ [a]) = front (u ++ [front (v ++ [a])]) := by
      cases u with
      | nil => cases v <;> rfl
      | cons => rfl
    simp only [List.cons_append, run, hfront, Option.bind_assoc]
    congr 1
    funext c'
    exact ih c'

/-- The byte after another only matters if it is an opening brace. -/
theorem step_ahead (c : Reading) (b : UInt8) {a a' : UInt8} (h : a ≠ 0x7B) (h' : a' ≠ 0x7B) :
    r.step c b a = r.step c b a' := by
  rcases c with ⟨d, _ | _ | q | q⟩
  · cases r with
    | template => simp [step, meaning, h, h']
    | substitution => rfl
  · rfl
  · rfl
  · rfl

theorem run_ahead (c : Reading) (u : Bytes) {a a' : UInt8} (h : a ≠ 0x7B) (h' : a' ≠ 0x7B) :
    r.run c u a = r.run c u a' := by
  induction u generalizing c with
  | nil => rfl
  | cons b u ih =>
    have hstep : r.step c b (front (u ++ [a])) = r.step c b (front (u ++ [a'])) := by
      cases u with
      | nil => exact r.step_ahead c b h h'
      | cons => rfl
    simp only [run, hstep]
    congr 1
    funext c'
    exact ih c'

theorem step_valid {c c' : Reading} {b a : UInt8} (hc : c.Valid) (h : r.step c b a = some c') :
    c'.Valid := by
  -- by the state inside: between braces, or within one of the three quotes
  rcases c with ⟨d, _ | _ | q | q⟩
  -- between braces a quote opens a text, and the reader says which quotes do
  · cases r with
    | template =>
      simp only [step, meaning] at h
      repeat' split at h
      all_goals cases h
      all_goals first
        | trivial
        | (rename_i hq
           simp only [Bool.and_eq_true, Bool.or_eq_true, decide_eq_true_eq] at hq
           rcases hq.2 with hq | hq
           · exact .inl hq
           · exact .inr (.inl hq))
    | substitution =>
      simp only [step, meaning] at h
      repeat' split at h
      all_goals cases h
      all_goals first
        | trivial
        | (rename_i hq
           simpa [Reading.Valid, IsQuote, or_assoc] using hq)
  · cases h
    trivial
  -- within quotes only the closing quote changes the state
  · simp only [step] at h
    repeat' split at h
    all_goals cases h
    · exact hc
    · trivial
    · exact hc
  · cases h
    exact hc

/-- Only a backslash or a brace to come makes the next byte mean nothing. -/
theorem step_open {c c' : Reading} {b a : UInt8} (hc : c.Valid) (hb : b ≠ '\\') (ha : a ≠ 0x7B)
    (h : r.step c b a = some c') : c'.Open := by
  have hvalid := r.step_valid hc h
  rcases c with ⟨d, _ | _ | q | q⟩
  · cases r with
    | template =>
      simp only [step, meaning, hb, ha, if_false, decide_false, Bool.and_false,
        Bool.false_eq_true] at h
      repeat' split at h
      all_goals cases h
      all_goals trivial
    | substitution =>
      simp only [step, meaning, hb, if_false] at h
      repeat' split at h
      all_goals cases h
      all_goals trivial
  · cases h
    trivial
  · simp only [step, hb, if_false] at h
    split at h
    · cases h
      trivial
    · cases h
      exact hc
  · cases h
    exact hc

theorem run_valid {c c' : Reading} {u : Bytes} {a : UInt8} (hc : c.Valid)
    (h : r.run c u a = some c') : c'.Valid := by
  induction u generalizing c with
  | nil =>
    cases h
    exact hc
  | cons b u ih =>
    obtain ⟨d, hstep, hrun⟩ := Option.bind_eq_some_iff.mp h
    exact ih (r.step_valid hc hstep) hrun

theorem run_open {c c' : Reading} {u : Bytes} {a : UInt8} (hc : c.Open)
    (hu : u.getLast? ≠ some '\\') (ha : a ≠ 0x7B) (h : r.run c u a = some c') : c'.Open := by
  rcases List.eq_nil_or_concat u with rfl | ⟨v, b, rfl⟩
  · cases h
    exact hc
  · rw [List.concat_eq_append, run_append] at h
    obtain ⟨d, hv, hb⟩ := Option.bind_eq_some_iff.mp h
    have hvalid := r.run_valid hc.valid hv
    have hne : b ≠ '\\' := by
      rintro rfl
      simp at hu
    refine r.step_open hvalid hne ha (b := b) ?_
    simpa [run, front] using hb

/-- White space, or a comma between tokens. -/
def isGap (b : UInt8) : Bool := isSpace b || b = ','

theorem step_gap {c : Reading} {b : UInt8} (hc : c.Open) (hb : isGap b = true) (a : UInt8) :
    r.step c b a = some c := by
  have hne : ∀ x : UInt8, isGap x = false → b ≠ x := by
    rintro x hx rfl
    rw [hb] at hx
    cases hx
  have hslash := hne '\\' (by decide)
  have hdouble := hne '"' (by decide)
  have hsingle := hne '\'' (by decide)
  have hfence := hne 0x60 (by decide)
  rcases c with ⟨d, _ | _ | q | q⟩
  · have hopening := hne 0x7B (by decide)
    have hclosing := hne 0x7D (by decide)
    have hdollar := hne '$' (by decide)
    cases r <;> simp [step, meaning, hslash, hdouble, hsingle, hfence, hopening, hclosing, hdollar]
  · exact hc.elim
  · have hq : b ≠ q := by
      rcases hc with rfl | rfl | rfl
      · exact hdouble
      · exact hsingle
      · exact hfence
    simp [step, hslash, hq]
  · exact hc.elim

end Reader

/-! ## What the readers find -/

theorem Reading.Valid.quote_ne {d : Nat} {q : UInt8} (h : Reading.Valid (d, .quoted q)) :
    q ≠ '\\' := by
  rcases h with rfl | rfl | rfl <;> decide

theorem closingBrace?_step {c : Reading} (hc : c.Valid) (length : Nat) (b : UInt8) (s : Bytes) :
    closingBrace? length c.1 c.2 (b :: s) =
      match Reader.substitution.step c b (front s) with
      | some c' => closingBrace? (length + 1) c'.1 c'.2 s
      | none => some length := by
  rcases c with ⟨d, _ | _ | q | q⟩
  · simp only [closingBrace?, Reader.step, Reader.meaning]
    grind
  · rfl
  · have hq := hc.quote_ne
    simp only [closingBrace?, Reader.step]
    by_cases hb : b = q
    · have hne : b ≠ '\\' := by rwa [hb]
      rw [if_pos hb, if_neg hne, if_pos hb]
    · by_cases hs : b = '\\'
      · rw [if_neg hb, if_pos hs, if_pos hs]
      · rw [if_neg hb, if_neg hs, if_neg hs, if_neg hb]
  · rfl

theorem templateLength_step (c : Reading) (length : Nat) (b : UInt8) (s : Bytes) :
    templateLength length c.1 c.2 (b :: s) =
      match Reader.template.step c b (front s) with
      | some c' => templateLength (length + 1) c'.1 c'.2 s
      | none => (length + 1, true) := by
  rcases c with ⟨d, _ | _ | q | q⟩
  · simp only [templateLength, Reader.step, Reader.meaning]
    grind
  · rfl
  · simp only [templateLength, Reader.step]
    grind
  · rfl

theorem closingBrace?_run {c c' : Reading} {u k : Bytes} (hc : c.Valid)
    (h : Reader.substitution.run c u (front k) = some c') (length : Nat) :
    closingBrace? length c.1 c.2 (u ++ k) = closingBrace? (length + u.length) c'.1 c'.2 k := by
  induction u generalizing c length with
  | nil =>
    cases h
    rfl
  | cons b u ih =>
    obtain ⟨d, hstep, hrun⟩ := Option.bind_eq_some_iff.mp h
    have hfront : front (u ++ [front k]) = front (u ++ k) := by
      cases u <;> rfl
    rw [hfront] at hstep
    rw [List.cons_append, closingBrace?_step hc, hstep]
    simp only
    rw [ih (Reader.step_valid _ hc hstep) hrun, List.length_cons]
    congr 1
    omega

theorem templateLength_run {c c' : Reading} {u k : Bytes}
    (h : Reader.template.run c u (front k) = some c') (length : Nat) :
    templateLength length c.1 c.2 (u ++ k) = templateLength (length + u.length) c'.1 c'.2 k := by
  induction u generalizing c length with
  | nil =>
    cases h
    rfl
  | cons b u ih =>
    obtain ⟨d, hstep, hrun⟩ := Option.bind_eq_some_iff.mp h
    have hfront : front (u ++ [front k]) = front (u ++ k) := by
      cases u <;> rfl
    rw [hfront] at hstep
    rw [List.cons_append, templateLength_step, hstep]
    simp only
    rw [ih hrun, List.length_cons]
    congr 1
    omega

/-- A template that is closed has its closing quote. -/
theorem templateLength_closed_ne (length depth : Nat) (state : TemplateState) (s : Bytes) :
    templateLength length depth state s ≠ (length, true) := by
  intro h
  cases s with
  | nil =>
    cases state <;> cases h
  | cons b s =>
    rw [templateLength_step (depth, state)] at h
    split at h
    · rename_i c' _
      have := (templateLength_le (length + 1) c'.1 c'.2 s).1
      rw [h] at this
      simp only at this
      omega
    · have := congrArg Prod.fst h
      simp only at this
      omega

/-- The byte that a reader looks for. -/
def Reader.closer : Reader → UInt8
  | template => 0x60
  | substitution => 0x7D

/-- A reader only stops where no brace is open, at the byte that it looks for. -/
theorem Reader.step_eq_none {r : Reader} {c : Reading} {b a : UInt8} (h : r.step c b a = none) :
    c = (0, .plain) ∧ b = r.closer := by
  rcases c with ⟨d, _ | _ | q | q⟩
  · have hd : d = 0 ∧ b = r.closer := by
      cases r with
      | template =>
        simp only [step, meaning] at h
        grind [closer]
      | substitution =>
        simp only [step, meaning] at h
        grind [closer]
    rw [hd.1]
    exact ⟨rfl, hd.2⟩
  · cases h
  · simp only [step] at h
    split at h
    · cases h
    · split at h <;> cases h
  · cases h

/-- Before the brace that closes a substitution no other brace is open. -/
-- The run and the search for the brace take the same steps: by induction on the text before it.
theorem run_of_closingBrace? {c : Reading} {u k : Bytes} {length : Nat} (hc : c.Valid)
    (h : closingBrace? length c.1 c.2 (u ++ 0x7D :: k) = some (length + u.length)) :
    Reader.substitution.run c u 0x7D = some (0, .plain) := by
  induction u generalizing c length with
  | nil =>
    rw [List.nil_append, closingBrace?_step hc] at h
    cases hstep : Reader.substitution.step c 0x7D (front k) with
    | some c' =>
      -- the reader cannot go on, for the brace was found here
      rw [hstep] at h
      have := closingBrace?_bounds h
      simp only [List.length_nil] at this
      omega
    | none =>
      rw [(Reader.step_eq_none hstep).1]
      rfl
  | cons b u ih =>
    rw [List.cons_append, closingBrace?_step hc] at h
    have hfront : front (u ++ [0x7D]) = front (u ++ 0x7D :: k) := by
      cases u <;> rfl
    rw [Reader.run, hfront]
    cases hstep : Reader.substitution.step c b (front (u ++ 0x7D :: k)) with
    | some c' =>
      rw [hstep] at h
      have hlength : length + (b :: u).length = length + 1 + u.length := by
        rw [List.length_cons]
        omega
      rw [hlength] at h
      exact ih (Reader.step_valid _ hc hstep) h
    -- the reader would have stopped before the brace
    | none =>
      rw [hstep] at h
      have := Option.some.inj h
      simp only [List.length_cons] at this
      omega

/-- A template ends with its closing quote, and before that no brace is open. -/
theorem templateLength_closed {c : Reading} {s k : Bytes} {length : Nat}
    (h : templateLength length c.1 c.2 (s ++ k) = (length + s.length, true)) :
    ∃ body, s = body ++ [0x60] ∧ Reader.template.run c body 0x60 = some (0, .plain) := by
  induction s generalizing c length with
  | nil => exact absurd h (templateLength_closed_ne _ _ _ _)
  | cons b s ih =>
    have hlength : length + (b :: s).length = length + 1 + s.length := by
      rw [List.length_cons]
      omega
    rw [hlength, List.cons_append, templateLength_step] at h
    cases hstep : Reader.template.step c b (front (s ++ k)) with
    | some c' =>
      rw [hstep] at h
      obtain ⟨body, rfl, hrun⟩ := ih h
      have hfront : front (body ++ [0x60] ++ k) = front (body ++ [0x60]) := by
        cases body <;> rfl
      rw [hfront] at hstep
      refine ⟨b :: body, rfl, ?_⟩
      rw [Reader.run, hstep]
      exact hrun
    | none =>
      rw [hstep] at h
      have hnil : s.length = 0 := by
        have := congrArg Prod.fst h
        simp only at this
        omega
      obtain rfl := List.length_eq_zero_iff.mp hnil
      obtain ⟨hc, hb⟩ := Reader.step_eq_none hstep
      exact ⟨[], by rw [hb]; rfl, by rw [hc]; rfl⟩

/-- A text in backquotes. -/
def fenced (body : Bytes) : Bytes := 0x60 :: (body ++ [0x60])

namespace Form.Before

variable {f : Form} {k : Bytes}

theorem templateText (h : f.Before k) (hkind : f.kind = .template) :
    ∃ body, f.text = fenced body
      ∧ Reader.template.run (0, .plain) body 0x60 = some (0, .plain) := by
  have hscan := h.scan
  obtain ⟨hquote, htemplate⟩ := (scan_kind 0 (f.text ++ k)).2.2.2 (by rw [hscan, hkind])
  cases htext : f.text with
  | nil => exact absurd htext h.ne_nil
  | cons quote rest =>
    rw [htext, List.cons_append] at hquote htemplate hscan
    obtain rfl : quote = 0x60 := hquote
    rw [htemplate, scanTemplate, List.tail_cons] at hscan
    have hlength : templateLength 1 0 .plain (rest ++ k) = (1 + rest.length, true) := by
      rcases hrun : templateLength 1 0 .plain (rest ++ k) with ⟨n, closed⟩
      rw [hrun] at hscan
      cases closed with
      | false => exact absurd (congrArg Scan.faults hscan) (by simp)
      | true =>
        have hn : n = rest.length + 1 := congrArg Scan.length hscan
        rw [hn, Nat.add_comm]
    obtain ⟨body, rfl, hrun⟩ := templateLength_closed (c := (0, .plain)) hlength
    exact ⟨body, rfl, hrun⟩

end Form.Before

/-- A text in backquotes in which no brace is left open is a template before every text. -/
theorem template_before {body : Bytes}
    (h : Reader.template.run (0, .plain) body 0x60 = some (0, .plain)) (k : Bytes) :
    (⟨.template, fenced body⟩ : Form).Before k := by
  have hscan : scan 0 (0x60 :: (body ++ [0x60] ++ k))
      = scanTemplate 0 (0x60 :: (body ++ [0x60] ++ k)) := rfl
  have hlength : templateLength 1 0 .plain (body ++ [0x60] ++ k) = (1 + body.length + 1, true) := by
    rw [List.append_assoc]
    exact templateLength_run (c := (0, .plain)) (k := 0x60 :: k) h 1
  refine ⟨List.cons_ne_nil _ _, rfl, ?_⟩
  rw [fenced, List.cons_append, hscan]
  simp only [scanTemplate, List.tail_cons, hlength, if_true, List.length_cons, List.length_append,
    List.length_nil]
  congr 1
  omega

/-! ## Texts that read the same -/

/-- Whether a text neither starts with a brace nor ends with a backslash. -/
structure Tame (u : Bytes) : Prop where
  front : front u ≠ 0x7B
  last : u.getLast? ≠ some '\\'

/-- Whether two texts leave both readers in the same state. -/
structure SameReading (u v : Bytes) : Prop where
  runs : ∀ (r : Reader) (c : Reading) (a : UInt8), c.Open → a ≠ 0x7B → r.run c u a = r.run c v a
  left : Tame u
  right : Tame v

theorem front_append_ne {u v : Bytes} (hu : Tame u) (hv : front v ≠ 0x7B) :
    front (u ++ v) ≠ 0x7B := by
  cases u with
  | nil => exact hv
  | cons b u => exact hu.front

theorem Tame.append {u v : Bytes} (hu : Tame u) (hv : Tame v) : Tame (u ++ v) := by
  refine ⟨front_append_ne hu hv.front, ?_⟩
  rcases List.eq_nil_or_concat v with rfl | ⟨w, b, rfl⟩
  · rw [List.append_nil]
    exact hu.last
  · have hlast := hv.last
    rw [List.concat_eq_append] at hlast ⊢
    rwa [← List.append_assoc, List.getLast?_append_of_ne_nil _ (by simp),
      ← List.getLast?_append_of_ne_nil w (by simp)]

namespace SameReading

variable {u u' v v' w : Bytes}

theorem refl (h : Tame u) : SameReading u u := ⟨fun _ _ _ _ _ => rfl, h, h⟩

theorem nil : SameReading [] [] := refl ⟨by decide, by decide⟩

theorem symm (h : SameReading u v) : SameReading v u :=
  ⟨fun r c a hc ha => (h.runs r c a hc ha).symm, h.right, h.left⟩

theorem trans (h : SameReading u v) (h' : SameReading v w) : SameReading u w :=
  ⟨fun r c a hc ha => (h.runs r c a hc ha).trans (h'.runs r c a hc ha), h.left, h'.right⟩

theorem append (hu : SameReading u u') (hv : SameReading v v') :
    SameReading (u ++ v) (u' ++ v') := by
  refine ⟨fun r c a hc ha => ?_, hu.left.append hv.left, hu.right.append hv.right⟩
  have hfront : front (v ++ [a]) ≠ 0x7B := front_append_ne hv.left ha
  have hfront' : front (v' ++ [a]) ≠ 0x7B := front_append_ne hv.right ha
  rw [r.run_append, r.run_append, hu.runs r c _ hc hfront, r.run_ahead c u' hfront hfront']
  cases hrun : r.run c u' (front (v' ++ [a])) with
  | none => rfl
  | some c' => exact hv.runs r c' a (r.run_open hc hu.right.last hfront' hrun) ha

/-- White space and commas make no difference. -/
theorem gap (h : ∀ b ∈ u, Reader.isGap b = true) : SameReading u [] := by
  have hne : ∀ x : UInt8, Reader.isGap x = false → x ∉ u := by
    intro x hx hmem
    rw [h x hmem] at hx
    cases hx
  refine ⟨fun r c a hc ha => ?_, ⟨?_, ?_⟩, ⟨by decide, by decide⟩⟩
  · induction u with
    | nil => rfl
    | cons b u ih =>
      rw [List.forall_mem_cons] at h
      simp only [Reader.run, r.step_gap hc h.1, Option.bind_some]
      exact ih h.2 fun x hx hmem => hne x hx (List.mem_cons_of_mem b hmem)
  · cases u with
    | nil => decide
    | cons b u =>
      rintro rfl
      exact hne 0x7B (by decide) List.mem_cons_self
  · intro hlast
    exact hne '\\' (by decide) (List.mem_of_getLast? hlast)

end SameReading

/-! ## Texts and substitutions -/

/-- How the body of a template falls apart after some text that was already read: into texts with
the sources of the substitutions after them, and a last text. -/
inductive Cut : (text body : Bytes) → List (Bytes × Bytes) → (tail : Bytes) → Prop
  | nil (text : Bytes) : Cut text [] [] text
  | last (text : Bytes) (b : UInt8) : Cut text [b] [] (text ++ [b])
  | escape {text rest tail : Bytes} {c : UInt8} {pieces : List (Bytes × Bytes)}
    (h : Cut (text ++ [('\\' : UInt8), c]) rest pieces tail) :
    Cut text (('\\' : UInt8) :: c :: rest) pieces tail
  | byte {text rest tail : Bytes} {b c : UInt8} {pieces : List (Bytes × Bytes)} (hb : b ≠ '\\')
    (hs : ¬ (b = '$' ∧ c = 0x7B)) (h : Cut (text ++ [b]) (c :: rest) pieces tail) :
    Cut text (b :: c :: rest) pieces tail
  | part {text source rest tail : Bytes} {pieces : List (Bytes × Bytes)}
    (hclose : closingBrace? 0 0 .plain (source ++ 0x7D :: rest) = some source.length)
    (h : Cut [] rest pieces tail) :
    Cut text (('$' : UInt8) :: 0x7B :: (source ++ 0x7D :: rest)) ((text, source) :: pieces) tail

/-- The texts and sources of a shape that was found in a text at an offset. -/
def TemplateShape.piecesAt (shape : TemplateShape) (pos : Nat) (s : Bytes) : List (Bytes × Bytes) :=
  shape.parts.map fun p => (p.text, (s.drop (p.start - pos)).take (p.stop - p.start))

theorem TemplateShape.piecesAt_drop {shape : TemplateShape} {pos : Nat} (n : Nat) (s : Bytes)
    (h : ∀ p ∈ shape.parts, pos + n ≤ p.start) :
    shape.piecesAt pos s = shape.piecesAt (pos + n) (s.drop n) := by
  refine List.map_congr_left fun p hp => ?_
  have := h p hp
  rw [List.drop_drop, show n + (p.start - (pos + n)) = p.start - pos by omega]

theorem closingBrace?_split {c : Reading} {s : Bytes} {length n : Nat} (hc : c.Valid)
    (h : closingBrace? length c.1 c.2 s = some n) :
    ∃ u k, s = u ++ 0x7D :: k ∧ n = length + u.length := by
  induction s generalizing c length with
  | nil =>
    rcases c with ⟨d, _ | _ | q | q⟩ <;> cases h
  | cons b s ih =>
    rw [closingBrace?_step hc] at h
    cases hstep : Reader.substitution.step c b (front s) with
    | some c' =>
      rw [hstep] at h
      obtain ⟨u, k, rfl, rfl⟩ := ih (Reader.step_valid _ hc hstep) h
      refine ⟨b :: u, k, rfl, ?_⟩
      rw [List.length_cons]
      omega
    | none =>
      rw [hstep] at h
      obtain ⟨_, rfl⟩ := Reader.step_eq_none hstep
      exact ⟨[], s, rfl, (Option.some.inj h).symm⟩

theorem templateShape_escape (fuel : Nat) (text : Array UInt8) (pos : Nat) (c : UInt8)
    (rest : Bytes) :
    templateShape (fuel + 1) text pos (('\\' : UInt8) :: c :: rest)
      = templateShape fuel ((text.push '\\').push c) (pos + 2) rest := by
  simp [templateShape]

theorem templateShape_byte (fuel : Nat) (text : Array UInt8) (pos : Nat) {b c : UInt8}
    (rest : Bytes) (hb : b ≠ '\\') (hs : ¬ (b = '$' ∧ c = 0x7B)) :
    templateShape (fuel + 1) text pos (b :: c :: rest)
      = templateShape fuel (text.push b) (pos + 1) (c :: rest) := by
  simp [templateShape, hb, hs]

/-- A shape after a text and a substitution. -/
def TemplateShape.withPart (shape : TemplateShape) (text : Bytes) (start length : Nat) :
    TemplateShape :=
  { shape with parts := ⟨text, start, start + length⟩ :: shape.parts }

theorem templateShape_part (fuel : Nat) (text : Array UInt8) (pos : Nat) {source rest : Bytes}
    (hclose : closingBrace? 0 0 .plain (source ++ 0x7D :: rest) = some source.length) :
    templateShape (fuel + 1) text pos (('$' : UInt8) :: 0x7B :: (source ++ 0x7D :: rest))
      = (templateShape fuel #[] (pos + (source.length + 3)) rest).withPart text.toList (pos + 2)
          source.length := by
  have hdrop : (source ++ 0x7D :: rest).drop (source.length + 1) = rest := by
    rw [List.drop_append, List.drop_eq_nil_of_le (by omega)]
    simp
  have hne : ('$' : UInt8) ≠ '\\' := by decide
  have hpos : pos + 2 + source.length + 1 = pos + (source.length + 3) := by omega
  simp [templateShape, TemplateShape.withPart, hne, hclose, hdrop, hpos]

theorem TemplateShape.piecesAt_withPart {shape : TemplateShape} {text source rest : Bytes}
    {pos : Nat} (h : ∀ p ∈ shape.parts, pos + (source.length + 3) ≤ p.start) :
    (shape.withPart text (pos + 2) source.length).piecesAt pos
        (('$' : UInt8) :: 0x7B :: (source ++ 0x7D :: rest))
      = (text, source) :: shape.piecesAt (pos + (source.length + 3)) rest := by
  have hdrop : (('$' : UInt8) :: 0x7B :: (source ++ 0x7D :: rest)).drop (source.length + 3)
      = rest := by
    rw [List.drop_succ_cons, List.drop_succ_cons, List.drop_append,
      List.drop_eq_nil_of_le (by omega)]
    simp
  have hpieces := piecesAt_drop (source.length + 3)
    (('$' : UInt8) :: 0x7B :: (source ++ 0x7D :: rest)) h
  have htext : ((('$' : UInt8) :: 0x7B :: (source ++ 0x7D :: rest)).drop (pos + 2 - pos)).take
      (pos + 2 + source.length - (pos + 2)) = source := by
    rw [Nat.add_sub_cancel_left, Nat.add_sub_cancel_left]
    exact List.take_left
  rw [hdrop] at hpieces
  rw [← hpieces]
  simp only [piecesAt, withPart, List.map_cons, htext]

theorem templateShape_start {fuel : Nat} {text : Array UInt8} {pos : Nat} {s : Bytes} :
    ∀ p ∈ (templateShape fuel text pos s).parts, pos ≤ p.start :=
  fun p hp => ((templateShape_bounds fuel text pos s).2 p hp).1

theorem cut_templateShape {fuel : Nat} {text : Array UInt8} {pos : Nat} {s : Bytes}
    (hfuel : s.length ≤ fuel) (h : (templateShape fuel text pos s).unclosed = none) :
    Cut text.toList s ((templateShape fuel text pos s).piecesAt pos s)
      (templateShape fuel text pos s).tail := by
  -- By induction on the fuel, two bytes at a time where a backslash or a substitution starts.
  induction fuel generalizing text pos s with
  | zero =>
    obtain rfl : s = [] := List.length_eq_zero_iff.mp (Nat.le_zero.mp hfuel)
    simpa [templateShape, TemplateShape.piecesAt] using Cut.nil text.toList
  | succ fuel ih =>
    rcases s with _ | ⟨b, _ | ⟨c, rest⟩⟩
    · exact Cut.nil text.toList
    · simpa [templateShape, TemplateShape.piecesAt] using Cut.last text.toList b
    · simp only [List.length_cons] at hfuel
      by_cases hb : b = '\\'
      · subst hb
        rw [templateShape_escape] at h ⊢
        rw [TemplateShape.piecesAt_drop 2 _ templateShape_start]
        have hrec := ih (by omega) h
        exact .escape (by simpa using hrec)
      · by_cases hs : b = '$' ∧ c = 0x7B
        · obtain ⟨rfl, rfl⟩ := hs
          cases hclose : closingBrace? 0 0 .plain rest with
          -- an opening brace without its closing one leaves the template open
          | none => simp [templateShape, hb, hclose] at h
          | some n =>
            obtain ⟨source, after, rfl, hn⟩ := closingBrace?_split (c := (0, .plain)) trivial hclose
            obtain rfl : n = source.length := by simpa using hn
            rw [templateShape_part fuel text pos hclose] at h ⊢
            rw [TemplateShape.piecesAt_withPart templateShape_start]
            refine .part hclose (ih ?_ h)
            simp only [List.length_append, List.length_cons] at hfuel
            omega
        · rw [templateShape_byte fuel text pos rest hb hs] at h ⊢
          rw [TemplateShape.piecesAt_drop 1 _ templateShape_start]
          have hrec := ih (by simp only [List.length_cons]; omega) h
          exact .byte hb hs (by simpa using hrec)

theorem templateShape_of_cut {text s tail : Bytes} {pieces : List (Bytes × Bytes)}
    (h : Cut text s pieces tail) (fuel : Nat) (read : Array UInt8) (pos : Nat)
    (hread : read.toList = text) (hfuel : s.length ≤ fuel) :
    (templateShape fuel read pos s).unclosed = none ∧ (templateShape fuel read pos s).tail = tail
      ∧ (templateShape fuel read pos s).piecesAt pos s = pieces := by
  -- By induction on the cut, each case being one round of the reader.
  induction h generalizing fuel read pos with
  | nil text =>
    subst hread
    cases fuel <;> simp [templateShape, TemplateShape.piecesAt]
  | last text b =>
    subst hread
    obtain ⟨fuel, rfl⟩ : ∃ n, fuel = n + 1 := ⟨fuel - 1, by simp at hfuel; omega⟩
    simp [templateShape, TemplateShape.piecesAt]
  | @escape text rest tail c pieces h ih =>
    subst hread
    obtain ⟨fuel, rfl⟩ : ∃ n, fuel = n + 1 := ⟨fuel - 1, by simp at hfuel; omega⟩
    rw [templateShape_escape, TemplateShape.piecesAt_drop 2 _ templateShape_start]
    refine ih fuel _ (pos + 2) (by simp) ?_
    simp only [List.length_cons] at hfuel
    omega
  | @byte text rest tail b c pieces hb hs h ih =>
    subst hread
    obtain ⟨fuel, rfl⟩ : ∃ n, fuel = n + 1 := ⟨fuel - 1, by simp at hfuel; omega⟩
    rw [templateShape_byte fuel read pos rest hb hs,
      TemplateShape.piecesAt_drop 1 _ templateShape_start]
    refine ih fuel _ (pos + 1) (by simp) ?_
    simp only [List.length_cons] at hfuel ⊢
    omega
  | @part text source rest tail pieces hclose h ih =>
    subst hread
    obtain ⟨fuel, rfl⟩ : ∃ n, fuel = n + 1 := ⟨fuel - 1, by simp at hfuel; omega⟩
    rw [templateShape_part fuel read pos hclose,
      TemplateShape.piecesAt_withPart templateShape_start]
    obtain ⟨hunclosed, htail, hpieces⟩ := ih fuel #[] (pos + (source.length + 3)) rfl (by
      simp only [List.length_append, List.length_cons] at hfuel
      omega)
    exact ⟨hunclosed, htail, by rw [hpieces]⟩

/-- The body of a template put together from its texts and the sources of its substitutions. -/
def joinPieces : List (Bytes × Bytes) → (tail : Bytes) → Bytes
  | [], tail => tail
  | (text, source) :: rest, tail =>
    text ++ (('$' : UInt8) :: 0x7B :: (source ++ 0x7D :: joinPieces rest tail))

/-- Whether two substitutions have the same text before them and read the same. -/
def SamePiece (p q : Bytes × Bytes) : Prop := p.1 = q.1 ∧ SameReading p.2 q.2

theorem Cut.join {text body tail : Bytes} {pieces : List (Bytes × Bytes)}
    (h : Cut text body pieces tail) : text ++ body = joinPieces pieces tail := by
  induction h with
  | nil text => simp [joinPieces]
  | last text b => rfl
  | escape h ih => simpa using ih
  | byte hb hs h ih => simpa using ih
  | part hclose h ih =>
    rw [List.nil_append] at ih
    rw [joinPieces, ih]

/-- A template may have other substitutions that read the same. -/
theorem Cut.replace {text body tail : Bytes} {pieces pieces' : List (Bytes × Bytes)}
    (h : Cut text body pieces tail) (hsame : List.Forall₂ SamePiece pieces pieces') :
    ∃ body', Cut text body' pieces' tail ∧ front body' = front body ∧ (body = [] ↔ body' = []) := by
  -- By induction on the cut; only the parts change, and with the same front nothing new can start
  -- before them.
  induction h generalizing pieces' with
  | nil text =>
    cases hsame
    exact ⟨[], .nil text, rfl, Iff.rfl⟩
  | last text b =>
    cases hsame
    exact ⟨[b], .last text b, rfl, Iff.rfl⟩
  | escape h ih =>
    obtain ⟨body', hcut, _, _⟩ := ih hsame
    exact ⟨_, .escape hcut, rfl, by simp⟩
  | @byte text rest tail b c pieces hb hs h ih =>
    obtain ⟨body', hcut, hfront, hnil⟩ := ih hsame
    cases body' with
    | nil => exact absurd (hnil.mpr rfl) (List.cons_ne_nil c rest)
    | cons c' rest' =>
      obtain rfl : c' = c := hfront
      exact ⟨_, .byte hb hs hcut, rfl, by simp⟩
  | @part text source rest tail pieces hclose h ih =>
    cases hsame with
    | @cons _ q _ pieces' hpiece hrest =>
      rcases q with ⟨text', source'⟩
      obtain ⟨rfl, hreading⟩ := hpiece
      obtain ⟨rest', hcut, _, _⟩ := ih hrest
      refine ⟨_, .part ?_ hcut, rfl, by simp⟩
      -- where the old source ended the reading, the new one does too
      have hrun := run_of_closingBrace? (c := (0, .plain)) trivial
        ((Nat.zero_add source.length).symm ▸ hclose)
      rw [hreading.runs .substitution (0, .plain) 0x7D trivial (by decide)] at hrun
      have := closingBrace?_run (c := (0, .plain)) (k := 0x7D :: rest') trivial hrun 0
      rw [Nat.zero_add] at this
      exact this

theorem joinPieces_run {pieces pieces' : List (Bytes × Bytes)}
    (h : List.Forall₂ SamePiece pieces pieces') (r : Reader) {c : Reading} (hc : c.Open)
    (before tail : Bytes) (a : UInt8) :
    r.run c (before ++ joinPieces pieces tail) a = r.run c (before ++ joinPieces pieces' tail) a := by
  -- By induction on the pieces, for every text before them: the reading passes the text, the old or
  -- the new source, the brace, and goes on.
  induction h generalizing c before with
  | nil => rfl
  | @cons p q pieces pieces' hpiece hrest ih =>
    rcases p with ⟨text, source⟩
    rcases q with ⟨text', source'⟩
    obtain ⟨rfl, hreading⟩ := hpiece
    -- each piece is brought into the form text, opening, source, closing
    have hsplit : ∀ (source : Bytes) (more : List (Bytes × Bytes)),
        before ++ joinPieces ((text, source) :: more) tail
          = (before ++ text ++ [('$' : UInt8), 0x7B])
            ++ (source ++ ([0x7D] ++ joinPieces more tail)) := by
      intro source more
      simp [joinPieces]
    have hne : (0x7D : UInt8) ≠ 0x7B := by decide
    -- no source and no closing brace stands before an opening brace, so what is ahead never matters
    have hbrace : front ([0x7D] ++ joinPieces pieces tail ++ [a]) ≠ 0x7B := hne
    have hbrace' : front ([0x7D] ++ joinPieces pieces' tail ++ [a]) ≠ 0x7B := hne
    have hfront : front (source ++ ([0x7D] ++ joinPieces pieces tail) ++ [a]) ≠ 0x7B := by
      rw [List.append_assoc]
      exact front_append_ne hreading.left hbrace
    have hfront' : front (source' ++ ([0x7D] ++ joinPieces pieces' tail) ++ [a]) ≠ 0x7B := by
      rw [List.append_assoc]
      exact front_append_ne hreading.right hbrace'
    have hlast : (before ++ text ++ [('$' : UInt8), 0x7B]).getLast? ≠ some '\\' := by
      rw [List.getLast?_append_of_ne_nil _ (by simp)]
      decide
    generalize before ++ text ++ [('$' : UInt8), 0x7B] = opening at hsplit hlast
    rw [hsplit, hsplit, r.run_append, r.run_append c opening, r.run_ahead c opening hfront hfront']
    cases hopen : r.run c opening
        (front (source' ++ ([0x7D] ++ joinPieces pieces' tail) ++ [a])) with
    | none => rfl
    -- the state behind the opening is the same for both sources
    | some c' =>
      have hc' : c'.Open := r.run_open hc hlast hfront' hopen
      simp only [Option.bind_some]
      rw [r.run_append, r.run_append, hreading.runs r c' _ hc' hbrace,
        r.run_ahead c' source' hbrace hbrace']
      cases hclose : r.run c' source' (front ([0x7D] ++ joinPieces pieces' tail ++ [a])) with
      | none => rfl
      | some c'' => exact ih (r.run_open hc' hreading.right.last hbrace' hclose) [0x7D]

theorem templateBody_fenced (body : Bytes) : templateBody (fenced body) = body := by
  simp [templateBody, fenced]

theorem templateOf_fenced (body : Bytes) :
    templateOf 0 (fenced body) = templateShape body.length #[] 1 body := by
  rw [templateOf, templateBody_fenced]

theorem templatePieces_fenced (body : Bytes) :
    templatePieces (fenced body) = (templateOf 0 (fenced body)).piecesAt 1 body := by
  refine List.map_congr_left fun p hp => ?_
  rw [templateOf_fenced] at hp
  obtain ⟨hstart, hle, hstop, _⟩ := (templateShape_bounds _ _ _ _).2 p hp
  obtain ⟨n, hn⟩ : ∃ n, p.start = n + 1 := ⟨p.start - 1, by omega⟩
  rw [fenced, hn, List.drop_succ_cons, Nat.add_sub_cancel, List.drop_append_of_le_length (by omega),
    List.take_append_of_le_length (by rw [List.length_drop]; omega)]

theorem tame_fenced (body : Bytes) : Tame (fenced body) := by
  refine ⟨by show (0x60 : UInt8) ≠ 0x7B; decide, ?_⟩
  rw [fenced, ← List.cons_append, List.getLast?_append_of_ne_nil _ (by simp)]
  decide

/-- A template with other substitutions that read the same is a template: it ends where it should,
and falls apart into the same texts and the new substitutions. -/
theorem template_replace {body : Bytes} {pieces : List (Bytes × Bytes)}
    (hrun : Reader.template.run (0, .plain) body 0x60 = some (0, .plain))
    (hclosed : (templateOf 0 (fenced body)).unclosed = none)
    (hsame : List.Forall₂ SamePiece (templatePieces (fenced body)) pieces) :
    ∃ body', body' = joinPieces pieces (templateOf 0 (fenced body)).tail
      ∧ Reader.template.run (0, .plain) body' 0x60 = some (0, .plain)
      ∧ (templateOf 0 (fenced body')).unclosed = none
      ∧ (templateOf 0 (fenced body')).tail = (templateOf 0 (fenced body)).tail
      ∧ templatePieces (fenced body') = pieces
      ∧ SameReading (fenced body) (fenced body') := by
  -- the body is cut into its pieces, these are replaced, and the new body is cut in the same way
  have hcut : Cut [] body (templatePieces (fenced body)) (templateOf 0 (fenced body)).tail := by
    rw [templatePieces_fenced]
    rw [templateOf_fenced] at hclosed ⊢
    exact cut_templateShape (Nat.le_refl _) hclosed
  have hbody := hcut.join
  obtain ⟨body', hcut', _, _⟩ := hcut.replace hsame
  have hbody' := hcut'.join
  rw [List.nil_append] at hbody hbody'
  obtain ⟨hunclosed, htail, hpieces⟩ :=
    templateShape_of_cut hcut' body'.length #[] 1 rfl (Nat.le_refl _)
  refine ⟨body', hbody', ?_, ?_, ?_, ?_, ?_, tame_fenced body, tame_fenced body'⟩
  · have := joinPieces_run hsame .template (c := (0, .plain)) trivial []
      (templateOf 0 (fenced body)).tail 0x60
    rw [List.nil_append, List.nil_append, ← hbody, ← hbody', hrun] at this
    exact this.symm
  · rw [templateOf_fenced]
    exact hunclosed
  · rw [templateOf_fenced, htail]
  · rw [templatePieces_fenced, templateOf_fenced]
    exact hpieces
  · intro r c a hc ha
    -- the two fences belong to the first and to the last text
    have hfence : ∀ (pieces : List (Bytes × Bytes)) (tail : Bytes),
        fenced (joinPieces pieces tail) = [0x60] ++ joinPieces pieces (tail ++ [0x60]) := by
      intro pieces tail
      induction pieces with
      | nil => rfl
      | cons p pieces ih =>
        simp only [fenced, List.singleton_append, List.cons.injEq, true_and] at ih
        simp [fenced, joinPieces, ih]
    rw [hbody, hbody', hfence, hfence]
    exact joinPieces_run hsame r hc [0x60] _ a

end Storyline.Script
