import Mathlib
import Storyline.Proofs.Markup.Texts

/-!
# Diverts taken out of a text

The diverts of a text are collected in the order in which they stand, and no two overlap: what a
reader of text adds to the collected ones (`Lifts`) is a queue of spans between the places where it
starts and ends (`Queue`).  A styled text that is not closed is read and then undone, so that the
collected diverts have to be related to those before the attempt, not counted.
-/

namespace Storyline.Markup

variable {f : File}

theorem Outcome.recovered_ne_parsed : Outcome.recovered ≠ .parsed := by decide

/-! ## Spans in a row -/

/-- A span of a file between two offsets. -/
structure Lies (file : FileId) (lo hi : Nat) (x : Span) : Prop where
  file : x.file = file
  start : lo ≤ x.start
  ordered : x.start ≤ x.stop
  stop : x.stop ≤ hi

/-- Things that stand in a file between two offsets, each related to those that come behind it. -/
structure Row {α : Type} (span : α → Span) (R : α → α → Prop) (file : FileId) (lo hi : Nat)
    (xs : List α) : Prop where
  lies : ∀ x ∈ xs, Lies file lo hi (span x)
  related : xs.Pairwise R

/-- Things that stand one behind the other. -/
abbrev Queue {α : Type} (span : α → Span) : FileId → (lo hi : Nat) → List α → Prop :=
  Row span fun x y => (span x).stop ≤ (span y).start

section Row

variable {α : Type} {span : α → Span} {R : α → α → Prop} {file : FileId} {lo mid hi : Nat}
  {xs ys : List α}

theorem Lies.mono {x : Span} (h : Lies file lo hi x) {lo' hi' : Nat} (hlo : lo' ≤ lo)
    (hhi : hi ≤ hi') : Lies file lo' hi' x :=
  ⟨h.file, Nat.le_trans hlo h.start, h.ordered, Nat.le_trans h.stop hhi⟩

namespace Row

theorem nil : Row span R file lo hi [] := ⟨List.forall_mem_nil _, .nil⟩

theorem single {x : α} (h : Lies file lo hi (span x)) : Row span R file lo hi [x] :=
  ⟨List.forall_mem_singleton.mpr h, List.pairwise_singleton _ _⟩

theorem mono (h : Row span R file lo hi xs) {lo' hi' : Nat} (hlo : lo' ≤ lo) (hhi : hi ≤ hi') :
    Row span R file lo' hi' xs :=
  ⟨fun x hx => (h.lies x hx).mono hlo hhi, h.related⟩

/-- A row can be followed by one that starts no earlier than it ends. -/
theorem append (hR : ∀ x y, (span x).stop ≤ (span y).start → R x y)
    (h : Row span R file lo mid xs) (k : Row span R file mid hi ys) (hlo : lo ≤ mid)
    (hhi : mid ≤ hi) : Row span R file lo hi (xs ++ ys) := by
  refine ⟨fun x hx => ?_, List.pairwise_append.mpr ⟨h.related, k.related, fun x hx y hy => ?_⟩⟩
  · exact (List.mem_append.mp hx).elim (fun hx => (h.lies x hx).mono (Nat.le_refl _) hhi)
      fun hx => (k.lies x hx).mono hlo (Nat.le_refl _)
  · exact hR x y (Nat.le_trans (h.lies x hx).stop (k.lies y hy).start)

/-- The last thing in a row is related to every other one. -/
theorem eq_or_related (h : Row span R file lo hi xs) {last : α} (hlast : xs.getLast? = some last)
    {x : α} (hx : x ∈ xs) : x = last ∨ R x last := by
  obtain ⟨front, rfl⟩ := List.getLast?_eq_some_iff.mp hlast
  rcases List.mem_append.mp hx with hx | hx
  · exact .inr ((List.pairwise_append.mp h.related).2.2 x hx last List.mem_cons_self)
  · exact .inl (List.mem_singleton.mp hx)

end Row

end Row

/-! ## What is taken out -/

variable {s s' s'' : ParserState}

/-- What was collected between two states is a queue of diverts between the places where they
stand. -/
def Lifts (f : File) (s s' : ParserState) : Prop :=
  ∃ ds : List Divert, s'.lifted.toList = s.lifted.toList ++ ds
    ∧ Queue Divert.span f.id s.lexer.cursor.offset s'.lexer.cursor.offset ds

/-- Where nothing is collected. -/
theorem Lifts.of_lifted (h : s'.lifted = s.lifted) : Lifts f s s' := by
  refine ⟨[], ?_, .nil⟩
  rw [h, List.append_nil]

theorem Lifts.trans (h : Lifts f s s') (k : Lifts f s' s'') (hs : Reaches f s s')
    (hs' : Reaches f s' s'') : Lifts f s s'' := by
  obtain ⟨ds, hds, hqueue⟩ := h
  obtain ⟨es, hes, hqueue'⟩ := k
  refine ⟨ds ++ es, by rw [hes, hds, List.append_assoc], ?_⟩
  exact hqueue.append (fun _ _ => id) hqueue' hs.forward hs'.forward

theorem Lifts.size_le (h : Lifts f s s') : s.lifted.size ≤ s'.lifted.size := by
  obtain ⟨ds, hds, -⟩ := h
  have hlength := congrArg List.length hds
  simp only [List.length_append, Array.length_toList] at hlength
  omega

namespace Parse

variable {stop : Nat}

/-- A code span only moves on. -/
theorem codeSpan_moves :
    Ends (codeSpan stop) s fun _ s' => s'.log = s.log ∧ s'.lifted = s.lifted := by
  simp only [codeSpan, ends_bind, ends_cursor]
  split
  · exact ⟨rfl, rfl⟩
  · exact ⟨rfl, rfl⟩

/-- A script only moves on. -/
theorem scriptSpan_moves :
    Ends (scriptSpan stop) s fun _ s' => s'.log = s.log ∧ s'.lifted = s.lifted := by
  simp only [scriptSpan, ends_bind, ends_cursor]
  split
  · exact ⟨rfl, rfl⟩
  · exact ⟨rfl, rfl⟩

/-- A divert stands between the places where its reading starts and ends. -/
theorem lifts_inlineDivert (h : Stands f s) (stop : Nat)
    (hp : s.lexer.cursor.hasPrefix "<->" ∨ s.lexer.cursor.hasPrefix "->") :
    Ends (inlineDivert stop) s fun o s' =>
      Lifts f s s' ∧ (o = .parsed → s.lifted.size < s'.lifted.size) := by
  have hreaches := ends_inlineDivert h stop hp
  simp only [inlineDivert, ends_bind, ends_cursor, ends_moveTo] at hreaches ⊢
  generalize (if s.lexer.cursor.hasPrefix "<->" then _ else s.lexer.cursor.skip 2) = arrow
    at hreaches ⊢
  generalize max arrow.offset _ = start at hreaches ⊢
  generalize s.lexer.cursor.slice start _ = raw at hreaches ⊢
  by_cases hempty : raw.isEmpty
  · rw [if_pos hempty]
    exact ⟨.of_lifted rfl, fun hparsed => absurd hparsed Outcome.recovered_ne_parsed⟩
  · rw [if_neg hempty] at hreaches ⊢
    refine ⟨⟨[_], Array.toList_push, .single ?_⟩, fun _ => ?_⟩
    · exact ⟨h.cursor.file, Nat.le_refl _, hreaches.forward, Nat.le_refl _⟩
    · show s.lifted.size < (s.lifted.push _).size
      rw [Array.size_push]
      exact Nat.lt_succ_self _

/-! ## Texts -/

variable {inner : Style → Parse TextResult}

/-- An attempt at a styled text keeps the diverts inside it exactly if it succeeds. -/
theorem lifts_styledSpan (h : Stands f s) (stop : Nat) {style : Style}
    (hfit : s.lexer.cursor.offset + style.delimiter.length ≤ f.size)
    (hinner : ∀ style s, Stands f s →
      Ends (inner style) s fun _ s' => Reaches f s s' ∧ Lifts f s s') :
    Ends (styledSpan inner stop style) s fun _ s' => Lifts f s s' := by
  have hskip := Cursor.skip_ahead h.cursor hfit
  simp only [styledSpan, ends_bind, ends_get]
  split
  · exact .of_lifted rfl
  · have hm := h.moveTo (d := s.log) hskip.forward hskip.here.within
    have hopen : Lifts f s { s with
        lexer := s.lexer.moveTo (s.lexer.cursor.skip style.delimiter.length).offset } :=
      .of_lifted rfl
    simp only [ends_bind, ends_moveTo]
    refine (hinner style _ hm.stands).imp fun r s' hr => ?_
    split
    · exact hopen.trans hr.2 hm hr.1
    · exact .of_lifted rfl

theorem lifts_textStep (h : Stands f s) (hlt : s.lexer.cursor.offset < stop)
    (hstop : stop ≤ f.size) (draft : Draft)
    (hstand : ∀ style s, Stands f s → Ends (inner style) s (ReadText f s))
    (hinner : ∀ style s, Stands f s →
      Ends (inner style) s fun _ s' => Reaches f s s' ∧ Lifts f s s') :
    Ends (textStep inner stop draft) s fun _ s' => Lifts f s s' := by
  have hsize : s.lexer.cursor.offset < f.size := Nat.lt_of_lt_of_le hlt hstop
  have hfits := Opening.ofCursor_fits h.cursor hsize stop
  simp only [textStep, ends_bind, ends_cursor]
  -- only a divert lifts anything; the other starts move the cursor at most, or hand over to the
  -- text inside
  cases ho : Opening.ofCursor s.lexer.cursor stop with
  | literal | join => exact .of_lifted rfl
  | escape =>
    simp only
    split
    · exact .of_lifted rfl
    · exact .of_lifted rfl
  | styled style =>
    rw [ho] at hfits
    simp only [ends_bind]
    refine ((ends_styledSpan h stop hfits hstand).and (lifts_styledSpan h stop hfits hinner)).imp
      fun r s' hr => ?_
    cases r with
    | some p => exact hr.2
    -- the attempt was taken back, so nothing was lifted
    | none =>
      cases hr.1
      exact .of_lifted rfl
  | code =>
    simp only [ends_bind]
    refine codeSpan_moves.imp fun r s' hr => ?_
    cases r with
    | some e => exact .of_lifted hr.2
    | none => exact .of_lifted hr.2
  | script =>
    simp only [ends_bind]
    refine scriptSpan_moves.imp fun r s' hr => ?_
    cases r with
    | some e => exact .of_lifted hr.2
    | none => exact .of_lifted hr.2
  | divert =>
    rw [ho] at hfits
    simp only [ends_bind]
    refine ((ends_inlineDivert h stop hfits).and (lifts_inlineDivert h stop hfits)).imp
      fun o s' hr => ?_
    split
    -- the blanks that are passed behind it lift nothing
    · refine hr.2.1.trans (.of_lifted rfl) hr.1 (hr.1.stands.ahead ?_)
      have hskip := Cursor.skipWhile_ahead hr.1.stands.cursor Bytes.isGap
      refine hr.1.stands.cursor.ahead (Nat.le_max_left _ _) ?_
      have := hskip.here.within
      have := hr.1.stands.cursor.within
      omega
    · exact hr.2.1

theorem lifts_textFrom (hstop : stop ≤ f.size) (fuel : Nat) (h : Stands f s)
    (closer : Option Style) (start : Nat) {draft : Draft} (hd : draft.Exact f) (out : Outcome) :
    Ends (textFrom fuel stop closer start draft out) s fun _ s' => Lifts f s s' := by
  induction fuel generalizing s closer start draft out with
  | zero => exact .of_lifted rfl
  | succ fuel ih =>
    have hempty : Draft.Exact f {} := by simp [Draft.Exact, Inline.scriptsOf]
    simp only [textFrom, ends_bind, ends_cursor]
    split
    · exact .of_lifted rfl
    · next hlt =>
      split
      · exact .of_lifted rfl
      · rw [ends_bind]
        have hlt := Nat.lt_of_not_le hlt
        have hstand (style : Style) (s : ParserState) (hs : Stands f s) :=
          ends_textFrom hstop fuel hs (some style) s.lexer.cursor.offset hempty .parsed
        have hinner (style : Style) (s : ParserState) (hs : Stands f s) :
            Ends (textFrom fuel stop (some style) s.lexer.cursor.offset {} .parsed) s
              fun _ s' => Reaches f s s' ∧ Lifts f s s' :=
          ((hstand style s hs).and (ih hs (some style) s.lexer.cursor.offset hempty .parsed)).imp
            fun _ _ hr => ⟨hr.1.1, hr.2⟩
        refine ((ends_textStep h hlt hstop hd hstand).and
          (lifts_textStep h hlt hstop draft hstand hinner)).imp fun r s' hr => ?_
        refine ((ends_textFrom hstop fuel hr.1.1.stands closer start hr.1.2 _).and
          (ih hr.1.1.stands closer start hr.1.2 _)).imp fun r' s'' hr' => ?_
        exact hr.2.trans hr'.2 hr.1.1 hr'.1.1

/-- The diverts of a line stand on it, each behind the ones before it. -/
theorem queue_lineText (h : Stands f s) :
    Ends lineText s fun r s' =>
      Queue Divert.span f.id s.lexer.cursor.offset s'.lexer.cursor.offset r.2.1 := by
  simp only [lineText, ends_bind, ends_get, ends_textEnd, ends_offset]
  refine (lifts_textFrom (Lexer.textEnd_within h.cursor).2 _ h none _
    (by simp [Draft.Exact, Inline.scriptsOf]) _).imp fun r s' hr => ?_
  obtain ⟨ds, hds, hqueue⟩ := hr
  have hdrop : s'.lifted.toList.drop s.lifted.size = ds := by
    rw [hds, ← Array.length_toList, List.drop_left]
  simp only [ends_modify, ends_pure, hdrop]
  exact hqueue

end Parse

end Storyline.Markup
