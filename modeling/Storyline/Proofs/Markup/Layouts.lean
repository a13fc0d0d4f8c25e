import Mathlib
import Storyline.Proofs.Markup.Running
import Storyline.Markup.Parser

/-!
# What every parser keeps

All that a parser does is to move its cursor, to report and to collect diverts, and an attempt that
fails puts everything back.  A relation between states that survives this (`Steady`) holds between
the start and the end of every run (`Keeps`).  Two of them are used: the layout of the file stays
as it was, and what was reported before a block stays reported.

Since the layout stays, one bound on the width of indentation is enough to keep the columns of every
line of the file from overflowing (`Lexer.indentDepth_nonneg`).
-/

namespace Storyline.Markup

namespace Lexer

theorem next_layout (l : Lexer) : l.next.2.layout = l.layout := by
  rw [next]
  split
  · rfl
  · split
    · rfl
    · dsimp only
      split
      · rfl
      · rfl

theorem eatLineEnding_layout (l : Lexer) : (l.eatLineEnding?.getD l).layout = l.layout := by
  rw [eatLineEnding?]
  split
  · rfl
  · exact l.next_layout

theorem skipLine_layout (l : Lexer) : l.skipLine.layout = l.layout := by
  rw [skipLine, eatLineEnding?]
  split
  · rfl
  · exact next_layout _

theorem skipBlankLines_layout (l : Lexer) : l.skipBlankLines.layout = l.layout := by
  rw [skipBlankLines]
  generalize l.cursor.limit - l.cursor.offset = count
  induction count generalizing l with
  | zero => rfl
  | succ count ih =>
    rw [skipBlankLines.go]
    split
    · exact (ih _).trans l.skipLine_layout
    · rfl

/-! ## Indentation -/

variable {f : File} {l : Lexer}

/-- Blanks take at most as many columns as the wider of a space and a tab. -/
theorem columns_le (width : Nat) (bs : Bytes) (n : Nat) :
    bs.foldl (fun n (b : UInt8) => if b = ' ' then n + 1 else n + width) n
      ≤ n + bs.length * max 1 width := by
  induction bs generalizing n with
  | nil => simp
  | cons b bs ih =>
    have hstep : (if b = ' ' then n + 1 else n + width) ≤ n + max 1 width := by
      split <;> omega
    calc
      _ ≤ (if b = ' ' then n + 1 else n + width) + bs.length * max 1 width := ih _
      _ ≤ n + (b :: bs).length * max 1 width := by
        rw [List.length_cons, Nat.add_mul, Nat.one_mul]
        omega

theorem indentDepth_of_atEnd (h : l.cursor.atEnd = true) : l.indentDepth = 0 := by
  have hempty : l.cursor.limit - l.cursor.offset = 0 := by
    simp only [Cursor.atEnd, decide_eq_true_eq] at h
    omega
  have hslice : l.cursor.slice l.cursor.offset
      (l.cursor.offset + l.cursor.runLength Bytes.isGap) = [] := by
    refine List.eq_nil_of_length_eq_zero ?_
    rw [Cursor.runLength, hempty, Cursor.runFrom, Cursor.slice, Content.length_slice]
    omega
  have hrun : l.indentRun = 0 := by
    unfold indentRun
    rw [hslice]
    simp
  rw [indentDepth, hrun, Int.zero_tdiv]

/-- As long as the columns of a whole file fit into a signed word, indentation is not negative. -/
theorem indentDepth_nonneg (h : l.cursor.In f) (hw : f.size * l.layout.indentWidth < 2 ^ 63) :
    0 ≤ l.indentDepth := by
  have hfit : f.size * max 1 l.layout.indentWidth < 2 ^ 63 := by
    have hsize : f.size < 2 ^ 32 := h.small
    rcases Nat.le_total l.layout.indentWidth 1 with hle | hle
    · rw [Nat.max_eq_left hle]
      omega
    · rwa [Nat.max_eq_right hle]
  unfold indentDepth indentRun
  generalize hbs : l.cursor.slice l.cursor.offset _ = bs
  have hlen : bs.length ≤ f.size := by
    rw [← hbs, Cursor.slice_eq_text h, File.length_text]
    omega
  have hmul := Nat.mul_le_mul_right (max 1 l.layout.indentWidth) hlen
  have hcolumns := columns_le l.layout.indentWidth bs 0
  dsimp only
  generalize bs.foldl _ 0 = columns at hcolumns ⊢
  have hbmod : Int.bmod columns 0x10000000000000000 = columns := by
    apply Int.bmod_eq_of_le
    · omega
    · omega
  rw [hbmod]
  exact Int.tdiv_nonneg (Int.natCast_nonneg _) (Int.natCast_nonneg _)

end Lexer

namespace Parse

variable {α β : Type}

/-- A relation between a state and a later one that neither moving within the layout nor reporting or
collecting diverts can break. -/
class Steady (R : ParserState → ParserState → Prop) : Prop where
  refl : ∀ s, R s s
  trans : ∀ {s s' s''}, R s s' → R s' s'' → R s s''
  moves : ∀ s {l : Lexer}, l.layout = s.lexer.layout → R s { s with lexer := l }
  reports : ∀ s d, R s { s with log := s.log.push d }
  lifts : ∀ s ds, R s { s with lifted := ds }

/-- A parser whose runs are in a relation. -/
def Keeps (R : ParserState → ParserState → Prop) (m : Parse α) : Prop :=
  ∀ s, Ends m s fun _ s' => R s s'

variable {R : ParserState → ParserState → Prop}

theorem Keeps.ite {c : Prop} [Decidable c] {m n : Parse α} (hm : Keeps R m)
    (hn : Keeps R n) : Keeps R (if c then m else n) := by
  split
  · exact hm
  · exact hn

variable [Steady R]

theorem Keeps.bind {m : Parse β} {k : β → Parse α} (hm : Keeps R m)
    (hk : ∀ b, Keeps R (k b)) : Keeps R (m >>= k) :=
  fun s => Steady.trans (hm s) (hk _ _)

theorem keeps_pure (a : α) : Keeps R (pure a) := Steady.refl

theorem keeps_get : Keeps R get := Steady.refl

theorem keeps_lexer : Keeps R lexer := Steady.refl

theorem keeps_cursor : Keeps R cursor := Steady.refl

theorem keeps_offset : Keeps R offset := Steady.refl

theorem keeps_textEnd : Keeps R textEnd := Steady.refl

theorem keeps_mapLexer {g : Lexer → Lexer} (h : ∀ l, (g l).layout = l.layout) :
    Keeps R (mapLexer g) := fun s => Steady.moves s (h s.lexer)

theorem keeps_moveTo (n : Nat) : Keeps R (moveTo n) := keeps_mapLexer fun _ => rfl

theorem keeps_mapCursor (g : Cursor → Cursor) : Keeps R (mapCursor g) := keeps_mapLexer fun _ => rfl

theorem keeps_report (d : Diagnostic) : Keeps R (report d) := fun s => Steady.reports s d

theorem keeps_unclosed (code : Code) (start width : Nat) : Keeps R (unclosed code start width) :=
  fun s => Steady.reports s _

theorem keeps_skipSpaces : Keeps R skipSpaces := keeps_mapCursor _

theorem keeps_finishLine : Keeps R finishLine := keeps_mapLexer Lexer.skipLine_layout

theorem keeps_eatLineEnding : Keeps R eatLineEnding := keeps_mapLexer Lexer.eatLineEnding_layout

theorem keeps_skipBlankLines : Keeps R (mapLexer Lexer.skipBlankLines) :=
  keeps_mapLexer Lexer.skipBlankLines_layout

theorem keeps_eat (b : UInt8) : Keeps R (eat b) := by
  refine .bind keeps_cursor fun c => ?_
  split
  · exact .bind (keeps_mapCursor _) fun _ => keeps_pure _
  · exact keeps_pure _

theorem keeps_restOfLine : Keeps R restOfLine := by
  refine .bind keeps_lexer fun l => .bind (keeps_moveTo _) fun _ => ?_
  exact .ite (keeps_pure _) (keeps_pure _)

/-! ## Attributes -/

theorem keeps_parameters : Keeps R parameters := by
  refine .bind keeps_lexer fun l => ?_
  dsimp only
  split
  · exact .bind (keeps_moveTo _) fun _ => keeps_pure _
  · exact .bind (keeps_unclosed _ _ _) fun _ =>
      .bind (keeps_moveTo _) fun _ => keeps_pure _

theorem keeps_takeAttribute : Keeps R takeAttribute := by
  refine .bind keeps_cursor fun c => .ite (keeps_pure _) ?_
  refine .bind (keeps_moveTo _) fun _ => .ite ?_ (keeps_pure _)
  exact .bind keeps_parameters fun _ => .bind keeps_offset fun _ => keeps_pure _

/-- An attempt that is undone leaves the state as it was. -/
theorem keeps_attributeLine : Keeps R attributeLine := by
  intro s
  simp only [attributeLine, ends_bind, ends_get]
  have hindent : Keeps R (mapLexer Lexer.skipIndent) := keeps_mapLexer fun _ => rfl
  refine (hindent s).imp fun _ s₁ h₁ => ?_
  refine (keeps_takeAttribute (R := R) s₁).imp fun r s₂ h₂ => ?_
  cases r with
  | none =>
    change R s s
    exact Steady.refl s
  | some found =>
    simp only [ends_bind, ends_offset, ends_textEnd]
    refine (keeps_skipSpaces (R := R) s₂).imp fun _ s₃ h₃ => ?_
    split
    · exact Steady.trans h₁ (Steady.trans h₂ (Steady.trans h₃ (keeps_finishLine s₃)))
    · change R s s
      exact Steady.refl s

theorem keeps_attributeLines (fuel depth : Nat) :
    Keeps R (attributeLines fuel depth) := by
  induction fuel with
  | zero => exact keeps_pure _
  | succ fuel ih =>
    refine .bind keeps_skipBlankLines fun _ => .bind keeps_lexer fun l => ?_
    refine .ite (keeps_pure _) (.bind keeps_attributeLine fun r => ?_)
    cases r with
    | none => exact keeps_pure _
    | some found => exact .bind ih fun _ => keeps_pure _

/-! ## Texts -/

theorem keeps_codeSpan (stop : Nat) : Keeps R (codeSpan stop) := by
  refine .bind keeps_cursor fun c => ?_
  dsimp only
  split
  · exact keeps_pure _
  · exact .bind (keeps_moveTo _) fun _ => keeps_pure _

theorem keeps_scriptSpan (stop : Nat) : Keeps R (scriptSpan stop) := by
  refine .bind keeps_cursor fun c => ?_
  dsimp only
  split
  · exact keeps_pure _
  · exact .bind (keeps_moveTo _) fun _ => keeps_pure _

theorem keeps_inlineDivert (stop : Nat) : Keeps R (inlineDivert stop) := by
  refine .bind keeps_cursor fun c => .bind (keeps_moveTo _) fun _ => .ite ?_ ?_
  · exact .bind (fun s => Steady.reports s _) fun _ => keeps_pure _
  · exact .bind (fun s => Steady.lifts s _) fun _ => keeps_pure _

theorem keeps_literalOpening (draft : Draft) (code : Code) (delimiter : Bytes) :
    Keeps R (literalOpening draft code delimiter) :=
  .bind keeps_offset fun _ => .bind (keeps_unclosed _ _ _) fun _ =>
    .bind (keeps_mapCursor _) fun _ => keeps_pure _

variable {inner : Style → Parse TextResult}

theorem keeps_styledSpan (stop : Nat) (style : Style) (hinner : ∀ style, Keeps R (inner style)) :
    Keeps R (styledSpan inner stop style) := by
  intro s
  simp only [styledSpan, ends_bind, ends_get]
  split
  · exact Steady.refl s
  · have hopen : R s { s with
        lexer := s.lexer.moveTo (s.lexer.cursor.skip style.delimiter.length).offset } :=
      Steady.moves s rfl
    simp only [ends_bind, ends_moveTo]
    refine (hinner style _).imp fun r s' hr => ?_
    split
    · exact Steady.trans hopen hr
    · exact Steady.refl s

theorem keeps_textStep (stop : Nat) (draft : Draft) (hinner : ∀ style, Keeps R (inner style)) :
    Keeps R (textStep inner stop draft) := by
  refine .bind keeps_cursor fun c => ?_
  split
  · exact .bind (keeps_mapCursor _) fun _ => keeps_pure _
  · exact .ite (.bind (keeps_moveTo _) fun _ => keeps_pure _)
      (.bind (keeps_moveTo _) fun _ => keeps_pure _)
  · refine .bind (keeps_styledSpan stop _ hinner) fun r => ?_
    split
    · exact keeps_pure _
    · exact .bind (keeps_literalOpening _ _ _) fun _ => keeps_pure _
  · refine .bind (keeps_codeSpan stop) fun r => ?_
    split
    · exact keeps_pure _
    · exact .bind (keeps_literalOpening _ _ _) fun _ => keeps_pure _
  · refine .bind (keeps_scriptSpan stop) fun r => ?_
    split
    · exact keeps_pure _
    · exact .bind (keeps_literalOpening _ _ _) fun _ => keeps_pure _
  · exact .bind (keeps_mapCursor _) fun _ => .bind keeps_offset fun _ => keeps_pure _
  · refine .bind (keeps_inlineDivert stop) fun o => .ite ?_ (keeps_pure _)
    exact .bind (keeps_mapCursor _) fun _ => keeps_pure _

theorem keeps_textFrom (stop fuel : Nat) (closer : Option Style) (start : Nat) (draft : Draft)
    (out : Outcome) : Keeps R (textFrom fuel stop closer start draft out) := by
  induction fuel generalizing closer start draft out with
  | zero => exact .bind keeps_cursor fun _ => keeps_pure _
  | succ fuel ih =>
    refine .bind keeps_cursor fun c => .ite (keeps_pure _) ?_
    split
    · exact .bind (keeps_mapCursor _) fun _ => keeps_pure _
    · exact .bind (keeps_textStep stop draft fun style => .bind keeps_offset fun _ =>
        ih (some style) _ _ _) fun r => ih closer start r.1 _

theorem keeps_lineText : Keeps R lineText := by
  refine .bind keeps_get fun _ => .bind keeps_textEnd fun _ => .bind keeps_offset fun _ =>
    .bind (keeps_textFrom _ _ _ _ _ _) fun _ => ?_
  exact .bind keeps_get fun _ => .bind (fun s => Steady.lifts s _) fun _ => keeps_pure _

/-! ## Blocks -/

theorem keeps_paragraph : Keeps R paragraph :=
  .bind keeps_cursor fun _ => .bind keeps_lineText fun _ =>
    .bind keeps_offset fun _ => .bind keeps_finishLine fun _ => keeps_pure _

theorem keeps_codeBlock : Keeps R codeBlock := by
  refine .bind keeps_cursor fun c => .bind (keeps_mapCursor _) fun _ =>
    .bind keeps_restOfLine fun _ => .bind keeps_eatLineEnding fun _ =>
    .bind keeps_cursor fun inner => ?_
  dsimp only
  split
  · exact .bind (keeps_moveTo _) fun _ => .bind keeps_finishLine fun _ =>
      keeps_pure _
  · exact .bind (keeps_unclosed _ _ _) fun _ => .bind (keeps_moveTo _) fun _ =>
      keeps_pure _

theorem keeps_matchCondition : Keeps R matchCondition := by
  refine .bind keeps_lexer fun l => ?_
  dsimp only
  split
  · exact .bind (keeps_moveTo _) fun _ => keeps_pure _
  · exact .bind (keeps_unclosed _ _ _) fun _ => .bind (keeps_moveTo _) fun _ =>
      keeps_pure _

theorem keeps_matchMode (modifier : Bytes) (span : Span) :
    Keeps R (matchMode modifier span) := by
  refine .ite (keeps_pure _) (.ite (keeps_pure _) (.ite (keeps_pure _) ?_))
  exact .bind (keeps_report _) fun _ => keeps_pure _

theorem keeps_choiceAttribute (head : ChoiceHead) (a : Attribute) :
    Keeps R (choiceAttribute head a) := by
  refine .ite (.ite ?_ (keeps_pure _)) (keeps_pure _)
  exact .bind (keeps_report _) fun _ => keeps_pure _

theorem keeps_choiceHead (fuel : Nat) (head : ChoiceHead) :
    Keeps R (choiceHead fuel head) := by
  induction fuel generalizing head with
  | zero => exact keeps_pure _
  | succ fuel ih =>
    refine .bind keeps_takeAttribute fun r => ?_
    cases r with
    | none => exact keeps_pure _
    | some found =>
      exact .bind (keeps_choiceAttribute _ _) fun _ =>
        .bind keeps_skipSpaces fun _ => ih _

theorem keeps_nextChoice (depth : Nat) : Keeps R (nextChoice depth) := by
  intro s
  simp only [nextChoice, ends_bind, ends_mapLexer, ends_lexer]
  split
  · exact Steady.moves s s.lexer.skipBlankLines_layout
  · exact Steady.moves s s.lexer.skipBlankLines_layout

variable {body : BodyParser} (hbody : ∀ depth stop, Keeps R (body depth stop))

include hbody

theorem keeps_header (depth : Nat) : Keeps R (header body depth) :=
  .bind keeps_cursor fun _ => .bind (keeps_mapCursor _) fun _ =>
    .bind (keeps_eat _) fun _ => .bind keeps_restOfLine fun _ =>
    .bind keeps_offset fun _ => .bind keeps_eatLineEnding fun _ =>
    .bind (hbody _ _) fun _ => keeps_pure _

theorem keeps_branch (depth : Nat) : Keeps R (branch body depth) :=
  .bind keeps_cursor fun _ => .bind keeps_matchCondition fun _ =>
    .bind keeps_restOfLine fun _ => .bind (keeps_matchMode _ _) fun _ =>
    .bind keeps_offset fun _ => .bind keeps_eatLineEnding fun _ =>
    .bind (hbody _ _) fun _ => keeps_pure _

theorem keeps_choice (depth : Nat) : Keeps R (choice body depth) := by
  refine .bind keeps_cursor fun _ => .bind (keeps_mapCursor _) fun _ =>
    .bind keeps_skipSpaces fun _ => .bind (keeps_choiceHead _ _) fun _ =>
    .bind keeps_lineText fun _ => .bind keeps_offset fun _ =>
    .bind keeps_finishLine fun _ => ?_
  exact .ite (.bind (keeps_report _) fun _ => .bind (hbody _ _) fun _ => keeps_pure _)
    (.bind (hbody _ _) fun _ => keeps_pure _)

theorem keeps_choiceList (fuel depth : Nat) : Keeps R (choiceList body fuel depth) := by
  induction fuel with
  | zero => exact keeps_pure _
  | succ fuel ih =>
    refine .bind (keeps_choice hbody depth) fun _ =>
      .bind (keeps_nextChoice depth) fun _ => ?_
    exact .ite (.bind ih fun _ => keeps_pure _) (keeps_pure _)

theorem keeps_openedBlock (depth : Nat) : Keeps R (openedBlock body depth) := by
  refine .bind keeps_cursor fun c => ?_
  split
  · exact .bind (keeps_header hbody depth) fun _ => keeps_pure _
  · exact .bind keeps_codeBlock fun _ => keeps_pure _
  · exact .bind (keeps_branch hbody depth) fun _ => keeps_pure _
  · refine .bind (.bind keeps_cursor fun _ => ?_) fun _ => keeps_pure _
    exact .bind (keeps_choiceList hbody _ depth) fun _ => keeps_pure _
  · exact keeps_paragraph

theorem keeps_block (depth : Nat) : Keeps R (block body depth) := by
  refine .bind keeps_cursor fun _ => .bind (keeps_attributeLines _ _) fun r =>
    .bind keeps_lexer fun _ => .ite ?_ ?_
  · dsimp only
    split
    · exact .bind (keeps_report _) fun _ => keeps_pure _
    · exact keeps_pure _
  · refine .bind (keeps_mapLexer fun _ => rfl) fun _ => ?_
    exact .bind (keeps_openedBlock hbody depth) fun _ => keeps_pure _

omit hbody

theorem keeps_sequence (fuel depth stop : Nat) : Keeps R (sequence fuel depth stop) := by
  induction fuel generalizing depth stop with
  | zero => exact keeps_pure _
  | succ fuel ih =>
    have hrest : Keeps R (sequence fuel depth stop) := ih depth stop
    refine .bind keeps_skipBlankLines fun _ => .bind keeps_lexer fun _ =>
      .ite (keeps_pure _) (.bind (keeps_block ih depth) fun _ =>
        .bind keeps_offset fun _ => ?_)
    exact .ite (.bind keeps_finishLine fun _ => .bind hrest fun _ => keeps_pure _)
      (.bind hrest fun _ => keeps_pure _)

/-! ## What is kept -/

/-- The layout is the same. -/
def SameLayout (s s' : ParserState) : Prop := s'.lexer.layout = s.lexer.layout

/-- What was reported in the first state still stands in front of what is in the second. -/
def StillReported (s s' : ParserState) : Prop := s.log.toList <+: s'.log.toList

instance : Steady SameLayout where
  refl _ := rfl
  trans h h' := h'.trans h
  moves _ _ h := h
  reports _ _ := rfl
  lifts _ _ := rfl

instance : Steady StillReported where
  refl _ := List.prefix_rfl
  trans h h' := h.trans h'
  moves _ _ _ := List.prefix_rfl
  reports _ _ := by
    rw [StillReported, Array.toList_push]
    exact List.prefix_append _ _
  lifts _ _ := List.prefix_rfl

/-- If nothing was reported up to the last of three states, nothing was up to the second one. -/
theorem StillReported.quiet {s s' s'' : ParserState} (h : StillReported s s')
    (k : StillReported s' s'') (hlog : s''.log = s.log) : s'.log = s.log := by
  have hback : s'.log.toList <+: s.log.toList := hlog ▸ k
  exact Array.toList_inj.mp (hback.eq_of_length_le h.length_le)

end Parse

end Storyline.Markup
