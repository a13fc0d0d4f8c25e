import Mathlib.Data.List.Basic
import Mathlib.Data.List.Induction
import Storyline.Proofs.Script.Reading
import Storyline.Proofs.Script.Standing

/-!
# The tokens of a range cover it

Reading tokens from a range of a source uses every byte of it: the tokens stand in the range one
after the other, none of them is empty, each says what stands under its span, and between them
there is nothing but white space.  Behind the last one the end of the script comes again and again.

The tokens are asked for one by one, and the next one may be looked at any number of times before
it is taken.  `lexer_covers` says what any such sequence of requests gives: how many tokens are
taken decides which ones they are, and looking ahead neither changes them nor what is reported.
-/

namespace Storyline.Script

/-! ## Covering -/

/-- Tokens from a range of a source, not the end of the script, that cover all of it but white
space. -/
structure Window.Covers (w : Window) (lo : Nat) (ls : List Lexeme) : Prop where
  token : ∀ l ∈ ls, l.token.kind ≠ .endOfScript ∧ w.Stands l.token.span l.token.text
    ∧ lo ≤ l.token.span.start ∧ l.token.span.stop ≤ w.stop
  order : ls.Pairwise fun a b => a.token.span.stop ≤ b.token.span.start
  gaps : ∀ i, lo ≤ i → i < w.stop → (∀ l ∈ ls, l.token.span.contains i = false) →
    isSpace (w.source.getD i 0) = true

namespace Window.Covers

variable {w : Window} {lo : Nat} {ls : List Lexeme}

theorem nil (h : w.stop ≤ lo) : w.Covers lo [] where
  token := List.forall_mem_nil _
  order := .nil
  gaps i hlo hstop _ := absurd hstop (by omega)

/-- White space in front of what is covered. -/
theorem space (h : w.Covers (lo + 1) ls) (hb : isSpace (w.source.getD lo 0) = true) :
    w.Covers lo ls where
  token l hl := by
    obtain ⟨hkind, hstands, hstart, hstop⟩ := h.token l hl
    exact ⟨hkind, hstands, Nat.le_of_succ_le hstart, hstop⟩
  order := h.order
  gaps i hlo hstop hoff := by
    rcases Nat.eq_or_lt_of_le hlo with rfl | hlt
    · exact hb
    · exact h.gaps i hlt hstop hoff

/-- A token in front of what is covered. -/
theorem cons {l : Lexeme} (hkind : l.token.kind ≠ .endOfScript)
    (hstands : w.Stands l.token.span l.token.text) (hstop : l.token.span.stop ≤ w.stop)
    (h : w.Covers l.token.span.stop ls) : w.Covers l.token.span.start (l :: ls) where
  token := by
    have hne := hstands.nonempty
    refine List.forall_mem_cons.mpr ⟨⟨hkind, hstands, Nat.le_refl _, hstop⟩, fun m hm => ?_⟩
    obtain ⟨hkind', hstands', hstart', hstop'⟩ := h.token m hm
    exact ⟨hkind', hstands', by omega, hstop'⟩
  order := List.pairwise_cons.mpr ⟨fun m hm => (h.token m hm).2.2.1, h.order⟩
  gaps i hlo hi hoff := by
    obtain ⟨hout, hoff⟩ := List.forall_mem_cons.mp hoff
    refine h.gaps i ?_ hi hoff
    simp only [Span.contains, Bool.and_eq_false_iff, decide_eq_false_iff_not] at hout
    omega

end Window.Covers

/-- The byte at the front of a text that stands in a source. -/
theorem getD_at_front {source : Content} {b : UInt8} {s : Bytes} {pos : Nat}
    (h : b :: s <+: source.toList.drop pos) : source.getD pos 0 = b := by
  obtain ⟨more, hmore⟩ := h
  have hget : source.toList[pos]? = some b := by
    rw [← List.head?_drop, ← hmore]
    rfl
  rw [Array.getD_eq_getD_getElem?, ← Array.getElem?_toList, hget, Option.getD_some]

/-- The tokens of a text that ends with the window cover it. -/
theorem covers_lexemes {w : Window} {pos : Nat} {s : Bytes} (h : s <+: w.source.toList.drop pos)
    (hs : pos + s.length = w.stop) :
    ∃ ls, lexemes w.file pos s = ls ++ [lexemeEnd w.file w.stop] ∧ w.Covers pos ls := by
  -- By induction as the text is lexed: white space widens the gap, a token closes it.
  induction s using lexemes_induction generalizing pos with
  | nil =>
    obtain rfl : pos = w.stop := hs
    exact ⟨[], rfl, .nil (Nat.le_refl _)⟩
  | space b s hb ih =>
    rw [List.length_cons] at hs
    obtain ⟨ls, hls, hcovers⟩ := ih (prefix_drop 1 h) (by omega)
    refine ⟨ls, by rw [lexemes_space w.file pos s hb, hls], hcovers.space ?_⟩
    rw [getD_at_front h]
    exact hb
  | token s hne hb ih =>
    have hbounds := scan_bounds pos hne
    have hsame := (scan_alike pos 0 s).length
    have htail : s.drop (scan 0 s).length <+: w.source.toList.drop (pos + (scan pos s).length) := by
      rw [← hsame]
      exact prefix_drop _ h
    obtain ⟨ls, hls, hcovers⟩ := ih htail (by rw [List.length_drop, ← hsame]; omega)
    refine ⟨lexemeAt w.file pos s :: ls, ?_, ?_⟩
    · rw [lexemes_token w.file pos hne hb, hsame] at *
      rw [hls]
      rfl
    · have hinside := w.inside
      refine .cons (l := lexemeAt w.file pos s) (scan_kind_ne_end pos s)
        ⟨rfl, ?_, ?_, Window.slice_of_prefix h hbounds.2⟩ ?_ hcovers
      all_goals
        simp only [lexemeAt]
        omega

/-! ## Requests -/

/-- What a lexer can be asked: to show its next token, or to give it away. -/
inductive Request where
  | peek
  | next
deriving DecidableEq, Repr

open Parse (bind_run pure_run peek_run advance_run)

/-- The tokens that are taken by requests. -/
def Parse.taken : List Request → Parse (List Token)
  | [] => return []
  | .peek :: rs => do
    let _ ← peek
    taken rs
  | .next :: rs => do
    let t ← advance
    let ts ← taken rs
    return t :: ts

namespace Parse

theorem taken_peek (rs : List Request) (s : ParserState) :
    taken (.peek :: rs) s = taken rs s.look := by
  rw [taken, bind_run, peek_run]

theorem taken_next (rs : List Request) (s : ParserState) :
    taken (.next :: rs) s = (s.front :: (taken rs s.pass).1, (taken rs s.pass).2) := by
  rw [taken, bind_run, advance_run, bind_run, pure_run]

theorem taken_one_peek (s : ParserState) : taken [.peek] s = ([], s.look) := by
  rw [taken_peek, taken, pure_run]

theorem taken_one_next (s : ParserState) : taken [.next] s = ([s.front], s.pass) := by
  rw [taken_next, taken, pure_run]

theorem taken_append (rs rs' : List Request) (s : ParserState) :
    taken (rs ++ rs') s
      = ((taken rs s).1 ++ (taken rs' (taken rs s).2).1, (taken rs' (taken rs s).2).2) := by
  induction rs generalizing s with
  | nil => rfl
  | cons r rs ih =>
    cases r with
    | peek => rw [List.cons_append, taken_peek, ih, taken_peek]
    | next => rw [List.cons_append, taken_next, ih, taken_next, List.cons_append]

/-- Requests that only take tokens. -/
def onlyNext (n : Nat) : List Request := List.replicate n .next

theorem onlyNext_succ (n : Nat) : onlyNext (n + 1) = onlyNext n ++ [.next] :=
  List.replicate_succ'

/-- Looking ahead leaves no trace, but that the next token may have been looked at. -/
theorem taken_onlyNext (rs : List Request) (s : ParserState) :
    (taken rs s).1 = (taken (onlyNext (rs.count .next)) s).1
      ∧ ((taken rs s).2 = (taken (onlyNext (rs.count .next)) s).2
        ∨ (taken rs s).2 = (taken (onlyNext (rs.count .next)) s).2.look) := by
  induction rs using List.reverseRecOn with
  | nil => exact ⟨rfl, .inl rfl⟩
  | append_singleton rs r ih =>
    obtain ⟨htokens, hstate⟩ := ih
    rw [taken_append]
    cases r with
    | peek =>
      have hcount : (rs ++ [Request.peek]).count .next = rs.count .next := by simp
      rw [hcount, taken_one_peek, List.append_nil]
      refine ⟨htokens, .inr ?_⟩
      rcases hstate with hstate | hstate
      · rw [hstate]
      · rw [hstate, ParserState.look_look]
    | next =>
      have hcount : (rs ++ [Request.next]).count .next = rs.count .next + 1 := by simp
      rw [hcount, onlyNext_succ, taken_append, taken_one_next, taken_one_next, htokens]
      -- what was looked at is not read again
      rcases hstate with hstate | hstate
      · rw [hstate]
        exact ⟨rfl, .inl rfl⟩
      · rw [hstate, ParserState.look_front, ParserState.look_pass]
        exact ⟨rfl, .inl rfl⟩

/-- Where a token was taken nothing can be told of the looks ahead. -/
theorem taken_append_next (rs : List Request) (s : ParserState) :
    taken (rs ++ [.next]) s = taken (onlyNext (rs.count .next + 1)) s := by
  obtain ⟨htokens, hstate⟩ := taken_onlyNext rs s
  rw [onlyNext_succ, taken_append, taken_append, taken_one_next, taken_one_next, htokens]
  rcases hstate with hstate | hstate
  · rw [hstate]
  · rw [hstate, ParserState.look_front, ParserState.look_pass]

/-! ## The end of a script -/

variable {file : FileId} {stop : Nat} {s : ParserState}

theorem look_log_of_end (h : s.rest = [lexemeEnd file stop]) : s.look.log = s.log := by
  simp [ParserState.look, h, lexemeEnd, apply_ite ParserState.log]

/-- The end of a script stays, however often it is taken. -/
theorem taken_end (h : s.rest = [lexemeEnd file stop]) (n : Nat) :
    (taken (onlyNext n) s).1 = List.replicate n (lexemeEnd file stop).token
      ∧ (taken (onlyNext n) s).2.rest = [lexemeEnd file stop]
      ∧ (taken (onlyNext n) s).2.log = s.log := by
  induction n generalizing s with
  | zero => exact ⟨rfl, h, rfl⟩
  | succ n ih =>
    have hfront : s.front = (lexemeEnd file stop).token := by simp [ParserState.front, h]
    have hpass : s.pass = s.look := if_pos (by rw [hfront]; rfl)
    obtain ⟨htokens, hrest, hlog⟩ := ih (s := s.pass) (by rw [hpass, ParserState.look_rest, h])
    have hsucc : onlyNext (n + 1) = .next :: onlyNext n := rfl
    rw [hsucc, taken_next, htokens, hfront, List.replicate_succ]
    exact ⟨rfl, hrest, by rw [hlog, hpass, look_log_of_end h]⟩

/-- Tokens are taken one after the other, each with what is reported about it, and then the end. -/
theorem taken_run {ls : List Lexeme} (hkind : ∀ l ∈ ls, l.token.kind ≠ .endOfScript)
    (h : s.rest = ls ++ [lexemeEnd file stop]) (hseen : s.seen = false) (n : Nat) :
    -- one more token is asked for than was taken, until only the end of the script is left
    (taken (onlyNext n) s).1
        = (ls.map (·.token) ++ List.replicate n (lexemeEnd file stop).token).take n
      ∧ (ls.length ≤ n → (taken (onlyNext n) s).2.rest = [lexemeEnd file stop])
      ∧ (taken (onlyNext n) s).2.log.toList = s.log.toList ++ (ls.take n).flatMap (·.notices) := by
  induction ls generalizing s n with
  | nil =>
    obtain ⟨htokens, hrest, hlog⟩ := taken_end h n
    exact ⟨by simp [htokens], fun _ => hrest, by simp [hlog]⟩
  | cons l ls ih =>
    cases n with
    | zero => simp [onlyNext, taken, pure_run]
    | succ n =>
      obtain ⟨hl, hls⟩ := List.forall_mem_cons.mp hkind
      have hfront : s.front = l.token := by simp [ParserState.front, h]
      have hlook : s.look.log = s.log ++ l.notices := by simp [ParserState.look, h, hseen]
      -- the token in front is passed together with what was reported on it
      have hpass : s.pass.rest = ls ++ [lexemeEnd file stop] ∧ s.pass.seen = false
          ∧ s.pass.log = s.log ++ l.notices := by
        rw [ParserState.pass, hfront, if_neg hl]
        exact ⟨by simp [h], rfl, hlook⟩
      obtain ⟨htokens, hrest, hlog⟩ := ih hls hpass.1 hpass.2.1 n
      have hsucc : onlyNext (n + 1) = .next :: onlyNext n := rfl
      rw [hsucc, taken_next, htokens, hlog, hpass.2.2, hfront]
      refine ⟨?_, fun hle => hrest (Nat.le_of_succ_le_succ hle), by simp⟩
      -- of the ends behind the tokens one more is there than can be taken
      have hless : n ≤ (ls.map (·.token)
          ++ List.replicate n (lexemeEnd file stop).token).length := by simp
      rw [List.map_cons, List.cons_append, List.take_succ_cons, List.replicate_succ',
        ← List.append_assoc, List.take_append_of_le_length hless]

end Parse

/-! ## Ranges -/

/-- The lexer covers its range: there are finitely many tokens between two offsets of a source, none
of them empty, each the text under its span, one behind the other; every byte that is in none of
them is white space.  Whoever asks for the tokens, looking ahead as often as wanted, takes them in
this order and then the end of the script for ever.  Where one is taken nothing can be told of the
looks ahead, and once the end was taken everything was reported, once and in order. -/
theorem lexer_covers (source : Content) (file : FileId) {start stop : Nat} (hle : start ≤ stop)
    (hstop : stop ≤ source.size) :
    ∃ ls : List Lexeme, lexemesIn source file start stop = ls ++ [lexemeEnd file stop]
      ∧ (∀ l ∈ ls, l.token.kind ≠ .endOfScript ∧ l.token.span.file = file
        ∧ start ≤ l.token.span.start ∧ l.token.span.start < l.token.span.stop
        ∧ l.token.span.stop ≤ stop
        ∧ l.token.text = source.slice l.token.span.start l.token.span.stop)
      ∧ ls.Pairwise (fun a b => a.token.span.stop ≤ b.token.span.start)
      ∧ (∀ i, start ≤ i → i < stop → (∀ l ∈ ls, l.token.span.contains i = false) →
        isSpace (source.getD i 0) = true)
      ∧ ∀ s : ParserState, s.rest = lexemesIn source file start stop → s.seen = false →
        ∀ (rs : List Request) (n : Nat), rs.count .next = n →
          (Parse.taken rs s).1
              = (ls.map (·.token) ++ List.replicate n (lexemeEnd file stop).token).take n
            ∧ Parse.taken (rs ++ [.next]) s = Parse.taken (List.replicate (n + 1) .next) s
            ∧ (Parse.taken (List.replicate n .next) s).2.log.toList
              = s.log.toList ++ (ls.take n).flatMap (·.notices)
            ∧ (ls.length ≤ n →
              (Parse.taken rs s).2.log.toList = s.log.toList ++ ls.flatMap (·.notices)) := by
  let w : Window := ⟨source, file, stop, hstop⟩
  have htext : source.slice start stop <+: source.toList.drop start := by
    rw [slice_eq]
    exact List.take_prefix _ _
  have hlength : start + (source.slice start stop).length = stop := by
    rw [Content.length_slice]
    omega
  obtain ⟨ls, hls, hcovers⟩ := covers_lexemes (w := w) htext hlength
  refine ⟨ls, hls, fun l hl => ?_, hcovers.order, hcovers.gaps, fun s hrest hseen rs n hn => ?_⟩
  · obtain ⟨hkind, hstands, hlo, hhi⟩ := hcovers.token l hl
    exact ⟨hkind, hstands.file, hlo, hstands.nonempty, hhi, hstands.text.symm⟩
  · subst hn
    have hkind := fun l hl => (hcovers.token l hl).1
    obtain ⟨htokens, hstate⟩ := Parse.taken_onlyNext rs s
    obtain ⟨hfirst, hend, hlog⟩ := Parse.taken_run hkind (hrest.trans hls) hseen (rs.count .next)
    refine ⟨htokens.trans hfirst, Parse.taken_append_next rs s, hlog, fun hle => ?_⟩
    have hall : (Parse.taken rs s).2.log
        = (Parse.taken (Parse.onlyNext (rs.count .next)) s).2.log := by
      -- with every token taken, one more look at the end reports nothing
      rcases hstate with hstate | hstate
      · rw [hstate]
      · rw [hstate, Parse.look_log_of_end (hend hle)]
    rw [hall, hlog, List.take_of_length_le hle]

/-- In a range that ends behind a backslash in a string, which it leaves open: looking ahead twice
for the string changes nothing, and neither do looks at the end. -/
theorem lexer_covers_unclosed :
    ∃ s : ParserState, s.rest = lexemesIn ("x 1_ 'a\\' y" : Bytes).toArray 0 2 8
      ∧ Parse.taken [.next, .peek, .peek, .next] s = Parse.taken [.next, .next] s
      ∧ (Parse.taken [.next, .peek, .next, .next, .peek, .next] s).1.map (·.span)
        = [⟨0, 2, 4⟩, ⟨0, 5, 8⟩, ⟨0, 8, 8⟩, ⟨0, 8, 8⟩]
      ∧ (Parse.taken [.next, .peek, .next, .next, .peek, .next] s).2.log.toList.map (·.code)
        = [.trailingSeparator, .unterminatedString] := by
  obtain ⟨ls, hls, -, -, -, hrun⟩ :=
    lexer_covers ("x 1_ 'a\\' y" : Bytes).toArray 0 (by decide : 2 ≤ 8) (by decide +kernel)
  have hlexemes : lexemesIn ("x 1_ 'a\\' y" : Bytes).toArray 0 2 8
      = (lexemesIn ("x 1_ 'a\\' y" : Bytes).toArray 0 2 8).take 2 ++ [lexemeEnd 0 8] := by
    decide +kernel
  obtain rfl := List.append_cancel_right (hls.symm.trans hlexemes)
  refine ⟨⟨("x 1_ 'a\\' y" : Bytes).toArray, 0, 0,
    lexemesIn ("x 1_ 'a\\' y" : Bytes).toArray 0 2 8, false, ⟨0, 2, 2⟩, #[], 0⟩, rfl, ?_, ?_, ?_⟩
  · exact (hrun _ rfl rfl [.next, .peek, .peek] 1 (by decide)).2.1
  · rw [(hrun _ rfl rfl [.next, .peek, .next, .next, .peek, .next] 4 (by decide)).1]
    decide +kernel
  · rw [(hrun _ rfl rfl [.next, .peek, .next, .next, .peek, .next] 4 (by decide)).2.2.2
      (by decide +kernel)]
    decide +kernel

end Storyline.Script
