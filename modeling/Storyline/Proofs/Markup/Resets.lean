import Mathlib.Logic.Function.Iterate
import Storyline.Proofs.Markup.LineStarts

/-!
# Going back to a mark

A space belongs to the indentation as long as nothing else was read of its line.  The lexer remembers
whether that is so; when it goes back to a mark it works this out again, from the one byte before the
mark.  That byte tells what the token before the mark did, with two exceptions (`Token.Misleads`): a
space of the indentation leaves the lexer at the start of the line, although it is no line feed, and
in the layout of pairs a lone line feed is a byte of text.

Only a space is read differently at the start of a line and further on (`token_eq_iff`).  So
`reset_restores_iff` says when the tokens behind a mark come again: unless the token before it
misleads and a space stands behind it.
-/

namespace Storyline.Markup

variable {f : File} {layout : Layout} {l : Lexer}

/-! ## Reading on -/

namespace Lexer

/-- The lexer behind the next `n` tokens. -/
def after (l : Lexer) (n : Nat) : Lexer := (fun l => l.next.2)^[n] l

/-- The token with the number `n` among those that come next, counted from 0. -/
def token (l : Lexer) (n : Nat) : Token := (l.after n).next.1

theorem after_succ (l : Lexer) (n : Nat) : l.after (n + 1) = (l.after n).next.2 :=
  Function.iterate_succ_apply' _ n l

theorem token_succ (l : Lexer) (n : Nat) : l.token (n + 1) = l.next.2.token n := rfl

/-- At the end of the file the lexer stays where it is. -/
theorem next_of_atEnd (hend : l.cursor.atEnd = true) :
    l.next = (⟨.endOfFile, 0, l.cursor.spanFrom l.cursor.offset⟩, l) := by
  rw [next, if_pos hend]

end Lexer

/-! ## What a token tells -/

/-- A token behind which the last byte does not tell whether the line has only just started. -/
def Token.Misleads (t : Token) : Prop :=
  t.kind = .indentation ∨ t.kind = .character ∧ t.char = '\n'

instance (t : Token) : Decidable t.Misleads :=
  inferInstanceAs (Decidable (t.kind = .indentation ∨ t.kind = .character ∧ t.char = '\n'))

/-- What a token leaves behind it: the lexer is at the start of a line unless the token is a byte of
text, and the last byte is a line feed if the token ends the line or is one. -/
structure Token.Leaves (t : Token) (f : File) (layout : Layout) (l : Lexer) : Prop where
  lexer : l.In f layout
  moved : 0 < l.cursor.offset
  atLineStart : l.atLineStart = true ↔ t.kind ≠ .character
  lastByte : f.content.getD (l.cursor.offset - 1) 0 = '\n' ↔
    t.kind = .endOfLine ∨ t.kind = .character ∧ t.char = '\n'
  kind : t.kind ≠ .endOfFile

namespace Lexer

/-- The last byte of a line ending is a line feed. -/
theorem byteAt_lineEnding (h : l.cursor.In f) (hline : l.atLineEnding = true) :
    l.cursor.byteAt (l.cursor.offset + l.layout.lineEnding.width - 1) = '\n' := by
  have hmatch := (atLineEnding_iff h).mp hline
  cases hl : l.layout.lineEnding with
  | lf =>
    rw [Layout.isCrlf, hl] at hmatch
    exact Cursor.byteAt_of_matchesAt (p := []) hmatch
  | crlf =>
    rw [Layout.isCrlf, hl] at hmatch
    have hfeed : l.cursor.matchesAt (l.cursor.offset + 1) l.cursor.limit [10] = true :=
      (Bool.and_eq_true_iff.mp hmatch).2
    exact Cursor.byteAt_of_matchesAt hfeed

theorem leaves_next (h : l.In f layout) (hend : l.cursor.atEnd = false) :
    l.next.1.Leaves f layout l.next.2 := by
  have hlt : l.cursor.offset < f.size := by simpa [Cursor.atEnd, h.cursor.limit] using hend
  have hpeek : l.cursor.peek = f.content.getD l.cursor.offset 0 := by
    rw [Cursor.peek, hend, Cursor.byteAt, h.cursor.content]
    rfl
  rw [next, if_neg (by simp [hend])]
  by_cases hline : l.atLineEnding = true
  · have hfit := lineEnding_bound h.cursor hline
    have hwidth : 0 < l.layout.lineEnding.width := by cases l.layout.lineEnding <;> decide
    have hfeed := byteAt_lineEnding h.cursor hline
    rw [Cursor.byteAt, h.cursor.content] at hfeed
    rw [if_pos hline, Cursor.skip_eq h.cursor hfit]
    exact ⟨⟨h.cursor.moved hfit, h.layout⟩, Nat.add_pos_right _ hwidth, by simp, by simpa using hfeed,
      by simp⟩
  · rw [if_neg hline, Cursor.next_eq h.cursor hlt]
    have hin : Cursor.In { l.cursor with offset := l.cursor.offset + 1 } f := h.cursor.moved hlt
    dsimp only
    split
    · next hspace =>
      simp only [Bool.and_eq_true, decide_eq_true_eq] at hspace
      refine ⟨⟨hin, h.layout⟩, Nat.succ_pos _, by simp [hspace.2], ?_, by simp⟩
      simp [← hpeek, hspace.1, show ¬ (' ' : UInt8) = '\n' by decide]
    · exact ⟨⟨hin, h.layout⟩, Nat.succ_pos _, by simp, by simp [hpeek], by simp⟩

/-! ## Going back -/

theorem not_atEnd_of_space (hpeek : l.cursor.peek = ' ') : l.cursor.atEnd = false := by
  have hlt := ((Cursor.peek_eq_iff (by decide)).mp hpeek).1
  simpa [Cursor.atEnd] using hlt

/-- Only a space is read differently at the start of a line and further on. -/
theorem next_of_peek_ne (b : Bool) (hend : l.cursor.atEnd = false) (hpeek : l.cursor.peek ≠ ' ') :
    { l with atLineStart := b }.next = l.next := by
  have hline : { l with atLineStart := b }.atLineEnding = l.atLineEnding := rfl
  have hspace (c : Bool) : (l.cursor.peek = ' ' && c) = false := by simp [hpeek]
  simp only [next, hend, hline, hspace, Bool.false_eq_true, if_false]

theorem next_of_space (hpeek : l.cursor.peek = ' ') : l.next.1.kind = .indentation ↔
    l.atLineStart = true := by
  have hend := not_atEnd_of_space hpeek
  have hline : l.atLineEnding = false := by
    rw [atLineEnding, hpeek]
    cases l.layout.lineEnding <;> rfl
  cases hstart : l.atLineStart <;> simp [next, hend, hline, hpeek, hstart]

theorem token_of_atEnd (hend : l.cursor.atEnd = true) (n : Nat) :
    l.token n = ⟨.endOfFile, 0, l.cursor.spanFrom l.cursor.offset⟩ := by
  induction n with
  | zero => rw [token, after, Function.iterate_zero_apply, next_of_atEnd hend]
  | succ n ih => rw [token_succ, next_of_atEnd hend, ih]

/-- So it does not matter whether the line has only just started unless a space comes next. -/
theorem token_eq_iff {b : Bool} : (∀ n, token { l with atLineStart := b } n = l.token n) ↔
    (l.cursor.peek = ' ' → b = l.atLineStart) := by
  constructor
  · intro hsame hpeek
    have hkind : { l with atLineStart := b }.next.1.kind = l.next.1.kind :=
      congrArg Token.kind (hsame 0)
    have hleft : _ ↔ b = true := next_of_space (l := { l with atLineStart := b }) hpeek
    rw [hkind, next_of_space hpeek] at hleft
    exact Bool.eq_iff_iff.mpr hleft.symm
  · intro hflag n
    by_cases hpeek : l.cursor.peek = ' '
    · rw [hflag hpeek]
    cases hend : l.cursor.atEnd with
    | true =>
      rw [token_of_atEnd hend]
      exact token_of_atEnd (l := { l with atLineStart := b }) hend n
    | false =>
      have hnext := next_of_peek_ne b hend hpeek
      cases n with
      | zero => exact congrArg Prod.fst hnext
      | succ n => rw [token_succ, token_succ, hnext]

theorem in_next (h : l.In f layout) : l.next.2.In f layout := by
  cases hend : l.cursor.atEnd with
  | true => rwa [next_of_atEnd hend]
  | false => exact (leaves_next h hend).lexer

theorem in_after (h : l.In f layout) (n : Nat) : (l.after n).In f layout := by
  induction n with
  | zero => exact h
  | succ n ih =>
    rw [after_succ]
    exact in_next ih

/-- Going back depends on the mark alone. -/
theorem reset_eq {l' : Lexer} (h : l.In f layout) (h' : l'.In f layout) :
    l'.reset l.cursor.offset = { l with atLineStart :=
      l.cursor.offset = 0 || f.content.getD (l.cursor.offset - 1) 0 = '\n' } := by
  rw [h.eq, h'.eq]
  rfl

end Lexer

/-- The line start is worked out right unless the token before the mark misleads. -/
theorem Token.Leaves.flag_iff {t : Token} (h : t.Leaves f layout l) :
    (l.cursor.offset = 0 || f.content.getD (l.cursor.offset - 1) 0 = '\n') = l.atLineStart ↔
      ¬ t.Misleads := by
  have hzero : l.cursor.offset ≠ 0 := Nat.ne_of_gt h.moved
  rw [Bool.eq_iff_iff, h.atLineStart, Bool.or_eq_true, decide_eq_true_eq, decide_eq_true_eq,
    h.lastByte, Token.Misleads]
  have hkind := h.kind
  cases hk : t.kind <;> simp_all

open Lexer

/-- The tokens that come behind a mark come again when the lexer goes back to the mark from further
on, unless a space stands behind the mark and the token before it misleads. -/
theorem reset_restores_iff (f : File) (layout : Layout) (k j : Nat) (small : f.size < Word.modulus) :
    let l := Lexer.ofFile f layout
    let mark := (l.after k).cursor.offset
    (∀ n, ((l.after (k + j)).reset mark).token n = (l.after k).token n) ↔
      ((l.after k).cursor.peek = ' ' → ∀ n, k = n + 1 → ¬ (l.token n).Misleads) := by
  intro l mark
  have hl : l.In f layout := lexerAt_in small (Nat.zero_le _)
  rw [reset_eq (in_after hl k) (in_after hl (k + j)), token_eq_iff]
  refine imp_congr_right fun hpeek => ?_
  cases k with
  | zero => exact iff_of_true rfl fun n hn => absurd hn (Nat.succ_ne_zero n).symm
  | succ k =>
    have hend : (l.after k).cursor.atEnd = false := by
      by_contra hend
      rw [after_succ, next_of_atEnd (Bool.eq_true_of_not_eq_false hend)] at hpeek
      exact hend (not_atEnd_of_space hpeek)
    have hflag := (leaves_next (in_after hl k) hend).flag_iff
    rw [← after_succ] at hflag
    rw [hflag]
    exact ⟨fun h n hn => Nat.succ.inj hn ▸ h, fun h => h k rfl⟩

theorem reset_restores_behind_line :
    (File.ofBytes 0 "a.story" "a\n b").size < Word.modulus ∧
      let l := Lexer.ofFile (.ofBytes 0 "a.story" "a\n b") {};
      ∀ n, ((l.after (2 + 1)).reset (l.after 2).cursor.offset).token n = (l.after 2).token n := by
  refine ⟨by decide, (reset_restores_iff _ {} 2 1 (by decide)).mpr fun _ n hn => ?_⟩
  obtain rfl : n = 1 := (Nat.succ.inj hn).symm
  decide +kernel

/-- Going back into the indentation makes text of it, and in the layout of pairs going back behind a
lone line feed makes indentation of text. -/
theorem reset_misreads_spaces :
    (let l := Lexer.ofFile (.ofBytes 0 "a.story" "  x") {};
      ¬ ∀ n, ((l.after (1 + 1)).reset (l.after 1).cursor.offset).token n = (l.after 1).token n) ∧
    (let l := Lexer.ofFile (.ofBytes 0 "a.story" "\n x") { lineEnding := .crlf };
      ¬ ∀ n, ((l.after (1 + 1)).reset (l.after 1).cursor.offset).token n = (l.after 1).token n) :=
  ⟨fun h => absurd (h 0) (by decide +kernel), fun h => absurd (h 0) (by decide +kernel)⟩

end Storyline.Markup
