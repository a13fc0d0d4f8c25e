import Storyline.Proofs.Markup.Layouts
import Storyline.Proofs.Markup.Progress
import Storyline.Proofs.Markup.Unbounded

/-!
# The markup parser ends

Without any fuel the parser ends, for every file of fewer than 2^32 bytes and in every layout, and
the fuels that the parser does have are never used up (`parse_completes`).  The measure is what is
left of the file.  A text moves on with every step, and a style is read from behind its delimiter;
an attribute, a choice and a block each take at least one byte, and what is below a block is read
from behind the byte that the block opens with.  An attempt that fails is undone as a whole.

The whole file is read unless the indentation of some line is counted below zero.  This takes a
layout so wide that the columns of the file do not fit into a signed word.
-/

namespace Storyline.Markup

variable {f : File} {s s' : ParserState}

/-! ## Rounds -/

namespace Parse

theorem bind_run {α β : Type} (m : Parse α) (k : α → Parse β) (s : ParserState) :
    (m >>= k) s = k (m s).1 (m s).2 := rfl

theorem lexer_run (s : ParserState) : lexer s = (s.lexer, s) := rfl

/-- One round of `sequence`, for any parser of the blocks below. -/
def round (body : BodyParser) (depth : Nat) : Parse (List Block × Outcome) := do
  let start ← offset
  let (bs, o) ← block body depth
  if (← offset) = start then finishLine
  return (bs, o)

/-- Blocks in sequence are read in rounds. -/
theorem sequence_succ (fuel depth stop : Nat) : sequence (fuel + 1) depth stop =
    mapLexer Lexer.skipBlankLines >>= fun _ => lexer >>= fun l =>
      if l.cursor.atEnd || l.indentDepth < depth || (0 < l.headerDepth && l.headerDepth ≤ stop) then
        pure ([], .parsed)
      else round (sequence fuel) depth >>= fun r =>
        sequence fuel depth stop >>= fun r' => pure (r.1 ++ r'.1, r.2.worse r'.2) := by
  rw [sequence]
  refine bind_congr fun _ => funext fun s => ?_
  rw [bind_run, bind_run, lexer_run]
  split
  · rfl
  · -- the round starts where the lexer was looked at
    calc
      _ = (block (sequence fuel) depth >>= fun r => offset >>= fun now =>
            (if now = s.lexer.cursor.offset then finishLine >>= fun _ => pure r else pure r) >>=
              fun r => sequence fuel depth stop >>= fun r' =>
                pure (r.1 ++ r'.1, r.2.worse r'.2)) s := by
        refine congrFun (bind_congr fun r => bind_congr fun now => ?_) s
        split
        · rfl
        · rfl
      _ = _ := rfl

end Parse

/-! ## Steps of both parsers -/

namespace Unbounded

open Storyline.Unbounded (Returns Ends)

-- most proofs below open a call; its equations are derived here, once
attribute [local simp] LineCall.answer BlockCall.answer

variable {α β : Type} {post : β → ParserState → Prop}

section Steps

/-- What always ends is judged as it is. -/
theorem returns_after {m : Parse α} {P : α → ParserState → Prop} {u : α → Unbounded ParserState β}
    {g : α → Parse β} (h : Parse.Ends m s P)
    (hrest : ∀ a s', P a s' → Returns (u a) (g a) s' post) :
    Returns (liftM m >>= u) (m >>= g) s post :=
  hrest _ _ h

@[simp] theorem returns_get {u : ParserState → Unbounded ParserState β}
    {g : ParserState → Parse β} :
    Returns (get >>= u) (get >>= g) s post ↔ Returns (u s) (g s) s post := Iff.rfl

@[simp] theorem returns_lexer {u : Lexer → Unbounded ParserState β} {g : Lexer → Parse β} :
    Returns (liftM Parse.lexer >>= u) (Parse.lexer >>= g) s post
      ↔ Returns (u s.lexer) (g s.lexer) s post := Iff.rfl

@[simp] theorem returns_cursor {u : Cursor → Unbounded ParserState β} {g : Cursor → Parse β} :
    Returns (liftM Parse.cursor >>= u) (Parse.cursor >>= g) s post
      ↔ Returns (u s.lexer.cursor) (g s.lexer.cursor) s post := Iff.rfl

theorem returns_cursor_right {u : Unbounded ParserState β} {g : Cursor → Parse β} :
    Returns u (Parse.cursor >>= g) s post ↔ Returns u (g s.lexer.cursor) s post := Iff.rfl

@[simp] theorem returns_offset {u : Nat → Unbounded ParserState β} {g : Nat → Parse β} :
    Returns (liftM Parse.offset >>= u) (Parse.offset >>= g) s post
      ↔ Returns (u s.lexer.cursor.offset) (g s.lexer.cursor.offset) s post := Iff.rfl

@[simp] theorem returns_textEnd {u : Nat → Unbounded ParserState β} {g : Nat → Parse β} :
    Returns (liftM Parse.textEnd >>= u) (Parse.textEnd >>= g) s post
      ↔ Returns (u s.lexer.textEnd) (g s.lexer.textEnd) s post := Iff.rfl

@[simp] theorem returns_mapLexer {k : Lexer → Lexer} {u : Unit → Unbounded ParserState β}
    {g : Unit → Parse β} :
    Returns (liftM (Parse.mapLexer k) >>= u) (Parse.mapLexer k >>= g) s post
      ↔ Returns (u ()) (g ()) { s with lexer := k s.lexer } post := Iff.rfl

@[simp] theorem returns_mapCursor {k : Cursor → Cursor} {u : Unit → Unbounded ParserState β}
    {g : Unit → Parse β} :
    Returns (liftM (Parse.mapCursor k) >>= u) (Parse.mapCursor k >>= g) s post
      ↔ Returns (u ()) (g ())
        { s with lexer := { s.lexer with cursor := k s.lexer.cursor } } post := Iff.rfl

@[simp] theorem returns_moveTo {n : Nat} {u : Unit → Unbounded ParserState β}
    {g : Unit → Parse β} :
    Returns (liftM (Parse.moveTo n) >>= u) (Parse.moveTo n >>= g) s post
      ↔ Returns (u ()) (g ()) { s with lexer := s.lexer.moveTo n } post := Iff.rfl

theorem liftM_bind {m : Parse α} {u : α → Unbounded ParserState β} {a : α} (h : m s = (a, s')) :
    ((liftM m : Unbounded ParserState α) >>= u) s = u a s' := by
  show u (m s).1 (m s).2 = _
  rw [h]

end Steps

/-! ## Attributes -/

theorem finishes_attributeLines (fuel depth : Nat) (h : Stands f s)
    (hfuel : f.size < s.lexer.cursor.offset + fuel) :
    Returns (attributeLines depth) (Parse.attributeLines fuel depth) s fun _ => Reaches f s := by
  induction fuel generalizing s with
  | zero =>
    have := h.cursor.within
    omega
  | succ fuel ih =>
    have hblank := h.ahead (d := s.log) (Lexer.skipBlankLines_ahead h.cursor)
    rw [attributeLines, LineCall.answer, Parse.attributeLines, returns_mapLexer, returns_lexer]
    refine .ite (fun _ => .pure hblank) fun _ => ?_
    refine returns_after (Parse.attempts_attributeLine hblank.stands) fun r s₁ h₁ => ?_
    cases r with
    | none =>
      rw [show s₁ = _ from h₁]
      exact .pure hblank
    | some found =>
      have h₁ : Passes f s s₁ := hblank.passes h₁
      have := h₁.onward
      exact (ih h₁.stands (by omega)).bind fun r s₂ h₂ => .pure (h₁.trans h₂).reaches

theorem finishes_choiceHead (fuel : Nat) (head : Parse.ChoiceHead) (h : Stands f s)
    (hfuel : f.size ≤ s.lexer.cursor.offset + fuel) :
    Returns (choiceHead head) (Parse.choiceHead fuel head) s fun _ => Reaches f s := by
  induction fuel generalizing s head with
  | zero =>
    -- there is no attribute at the end of the file
    have hpeek : s.lexer.cursor.peek ≠ '@' := by
      intro hat
      have := Cursor.lt_of_peek h.cursor hat (by decide)
      omega
    obtain ⟨hnone, hsame⟩ := Parse.ends_takeAttribute_of_ne hpeek
    rw [choiceHead, LineCall.answer]
    exact ⟨liftM_bind (Prod.ext hnone hsame), .refl h⟩
  | succ fuel ih =>
    rw [choiceHead, LineCall.answer, Parse.choiceHead]
    refine returns_after (Parse.attempts_takeAttribute h) fun r s₁ h₁ => ?_
    cases r with
    | none =>
      rw [show s₁ = s from h₁]
      exact .pure (.refl h)
    | some found =>
      have h₁ : Passes f s s₁ := h₁
      refine returns_after (Parse.reaches_choiceAttribute h₁.stands _ _) fun head s₂ h₂ => ?_
      refine returns_after (Parse.ends_skipSpaces h₂.stands) fun _ s₃ h₃ => ?_
      have h₃ := h₁.trans (h₂.trans h₃)
      have := h₃.onward
      exact (ih head h₃.stands (by omega)).imp fun _ s₄ h₄ => (h₃.trans h₄).reaches

/-! ## Texts -/

variable {fuel stop : Nat}

/-- The text of a style, as the parser with fuel reads it. -/
def inside (fuel stop : Nat) (style : Style) : Parse TextResult := do
  Parse.textFrom fuel stop (some style) (← Parse.offset) {} .parsed

/-- Every text behind `s` that reaches up to `stop` is read to its end. -/
def FinishesBehind (f : File) (fuel stop : Nat) (s : ParserState) : Prop :=
  ∀ s₁, Passes f s s₁ → ∀ closer start draft out,
    Returns (textFrom stop closer start draft out)
      (Parse.textFrom fuel stop closer start draft out) s₁ fun _ => Reaches f s₁

theorem finishes_inside (ih : FinishesBehind f fuel stop s) (h : Passes f s s') (style : Style) :
    Returns (textInside stop style) (inside fuel stop style) s' fun _ => Reaches f s' := by
  rw [textInside, LineCall.answer, inside, returns_offset]
  exact ih s' h _ _ _ _

theorem finishes_styledSpan (h : Stands f s) {style : Style}
    (hfit : s.lexer.cursor.offset + style.delimiter.length ≤ f.size)
    (ih : FinishesBehind f fuel stop s) :
    Returns (styledSpan stop style) (Parse.styledSpan (inside fuel stop) stop style) s
      (Attempts f s) := by
  have hskip := Cursor.skip_offset h.cursor hfit
  have hwidth := Style.delimiter_pos style
  rw [styledSpan, LineCall.answer, Parse.styledSpan, returns_get]
  refine .ite (fun _ => .pure rfl) fun _ => returns_moveTo.mpr ?_
  have hm := h.moveOn (d := s.log) (n := (s.lexer.cursor.skip style.delimiter.length).offset)
    (by omega) (by omega)
  refine (finishes_inside ih hm style).bind fun r s₁ h₁ => ?_
  exact .ite (fun _ => returns_offset.mpr (.pure (hm.trans h₁))) fun _ => ⟨rfl, rfl⟩

/-- The delimiter of an element that is not closed is taken as literal text. -/
theorem finishes_literal (h : Stands f s) (draft : Draft) (code : Code) {delimiter : Bytes}
    (hpos : 0 < delimiter.length) (hfit : s.lexer.cursor.offset + delimiter.length ≤ f.size) :
    Returns (liftM (Parse.literalOpening draft code delimiter) >>= fun d => pure (d, .recovered))
      (Parse.literalOpening draft code delimiter >>= fun d => pure (d, Outcome.recovered)) s
      fun _ => Passes f s :=
  returns_after (Parse.passes_literalOpening h draft code hpos hfit) fun _ _ h₁ => .pure h₁

/-- An element without text inside of it, if it is closed. -/
theorem finishes_element (h : Stands f s) (draft : Draft) (code : Code)
    {m : Parse (Option Inline)} {b : UInt8} (hlt : s.lexer.cursor.offset < f.size)
    (attempt : Parse.Ends m s (Attempts f s)) :
    Returns
      (liftM m >>= fun r => match r with
        | some e => pure (draft.insert e, .parsed)
        | none => liftM (Parse.literalOpening draft code [b]) >>= fun d => pure (d, .recovered))
      (m >>= fun r => match r with
        | some e => pure (draft.insert e, Outcome.parsed)
        | none => Parse.literalOpening draft code [b] >>= fun d => pure (d, .recovered)) s
      fun _ => Passes f s := by
  refine returns_after attempt fun r s₁ h₁ => ?_
  cases r with
  | some e => exact .pure h₁
  | none =>
    rw [show s₁ = s from h₁]
    exact finishes_literal h draft code Nat.one_pos hlt

/-- Every step of a text gets on. -/
theorem finishes_textStep (h : Stands f s) (hlt : s.lexer.cursor.offset < stop)
    (hstop : stop ≤ f.size) (draft : Draft) (ih : FinishesBehind f fuel stop s) :
    Returns (textStep stop draft) (Parse.textStep (inside fuel stop) stop draft) s
      fun _ => Passes f s := by
  have hsize : s.lexer.cursor.offset < f.size := Nat.lt_of_lt_of_le hlt hstop
  have hfits := Opening.ofCursor_fits h.cursor hsize stop
  have hnext := Cursor.next_offset h.cursor hsize
  have hin := (Cursor.next_ahead h.cursor).here
  rw [textStep, LineCall.answer, Parse.textStep, returns_cursor]
  -- By what may start here; each branch passes at least the byte at the cursor.
  cases ho : Opening.ofCursor s.lexer.cursor stop with
  | literal =>
    refine returns_mapCursor.mpr (.pure ⟨⟨hin, h.lifted⟩, ?_⟩)
    show s.lexer.cursor.offset < s.lexer.cursor.next.offset
    omega
  | escape =>
    refine .ite (fun hlt' => returns_moveTo.mpr (.pure (h.moveOn ?_ ?_)))
      fun _ => returns_moveTo.mpr (.pure (h.moveOn ?_ ?_))
    · exact Nat.lt_of_lt_of_le (by omega) (Cursor.next_ahead hin).forward
    · exact (Cursor.next_ahead hin).here.within
    · omega
    · omega
  | styled style =>
    rw [ho] at hfits
    refine (finishes_styledSpan h hfits ih).bind fun r s₁ h₁ => ?_
    cases r with
    | some found => exact .pure h₁
    | none =>
      -- an attempt that failed has put the cursor back
      rw [show s₁ = s from h₁]
      exact finishes_literal h draft _ (Style.delimiter_pos style) hfits
  | code => exact finishes_element h draft _ hsize (Parse.attempts_codeSpan h stop)
  | script => exact finishes_element h draft _ hsize (Parse.attempts_scriptSpan h stop)
  | join =>
    rw [ho] at hfits
    exact returns_mapCursor.mpr (returns_offset.mpr (.pure (h.skipOn Nat.two_pos hfits)))
  | divert =>
    rw [ho] at hfits
    refine returns_after (Parse.passes_inlineDivert h stop hfits) fun o s₁ h₁ => ?_
    refine .ite (fun _ => returns_mapCursor.mpr (.pure (h₁.trans (h₁.stands.ahead ?_))))
      fun _ => .pure h₁
    have := (Cursor.skipWhile_ahead h₁.stands.cursor Bytes.isGap).here.within
    refine h₁.stands.cursor.ahead (Nat.le_max_left _ _) ?_
    have := h₁.stands.cursor.within
    omega

theorem finishes_textFrom (hstop : stop ≤ f.size) (fuel : Nat) (h : Stands f s)
    (hfuel : stop < s.lexer.cursor.offset + fuel) (closer : Option Style) (start : Nat)
    (draft : Draft) (out : Outcome) :
    Returns (textFrom stop closer start draft out)
      (Parse.textFrom fuel stop closer start draft out) s fun _ => Reaches f s := by
  induction fuel generalizing s closer start draft out with
  | zero =>
    have hle : stop ≤ s.lexer.cursor.offset := Nat.le_of_lt hfuel
    rw [textFrom, LineCall.answer, Parse.textFrom, returns_cursor, if_pos hle]
    exact .pure (.refl h)
  | succ fuel ih =>
    have hbehind : FinishesBehind f fuel stop s := by
      intro s₁ h₁ closer start draft out
      have := h₁.onward
      exact ih h₁.stands (by omega) closer start draft out
    rw [textFrom, LineCall.answer, Parse.textFrom, returns_cursor]
    refine .ite (fun _ => .pure (.refl h)) fun hlt => ?_
    have hlt := Nat.lt_of_not_le hlt
    cases hc : closer.filter (Style.closesAt s.lexer.cursor) with
    | some style =>
      have hfit := Style.closesAt_fits h.cursor (Option.filter_eq_some_iff.mp hc).2
      exact returns_mapCursor.mpr (.pure (h.ahead (Cursor.skip_ahead h.cursor hfit)))
    | none =>
      refine (finishes_textStep h hlt hstop draft hbehind).bind fun r s₁ h₁ => ?_
      exact (hbehind s₁ h₁ closer start _ _).imp fun _ s₂ h₂ => (h₁.trans h₂).reaches

theorem finishes_lineText (h : Stands f s) :
    Returns lineText Parse.lineText s fun _ => Reaches f s := by
  have hstop := Lexer.textEnd_within h.cursor
  rw [lineText, Parse.lineText, returns_get, returns_textEnd, returns_offset]
  refine (finishes_textFrom hstop.2 _ h ?_ none _ _ _).bind fun r s₁ h₁ => ?_
  · omega
  · exact ⟨rfl, ⟨h₁.stands.cursor, h.lifted⟩, h₁.forward⟩

theorem finishes_paragraph (h : Stands f s) :
    Returns paragraph Parse.paragraph s fun _ => Reaches f s := by
  rw [paragraph, Parse.paragraph, returns_cursor]
  refine (finishes_lineText h).bind fun r s₁ h₁ => returns_offset.mpr ?_
  exact returns_after (Parse.ends_finishLine h₁.stands) fun _ s₂ h₂ => .pure (h₁.trans h₂)

/-! ## Blocks -/

/-- Wherever in the file it is started behind `s`, the parser of the blocks below ends as the one
without fuel does. -/
def BodyFinishes (f : File) (body : BodyParser) (s : ParserState) : Prop :=
  ∀ depth stop s₁, Passes f s s₁ →
    Returns (sequence depth stop) (body depth stop) s₁ fun _ => Reaches f s₁

variable {body : BodyParser}

theorem finishes_header (h : Stands f s) (depth : Nat) (hmark : s.lexer.cursor.peek = '#')
    (hbody : BodyFinishes f body s) :
    Returns (header depth) (Parse.header body depth) s fun _ => Passes f s := by
  have hskip : Passes f s { s with lexer := { s.lexer with
      cursor := s.lexer.cursor.skip (s.lexer.cursor.runLength (· = '#')) } } :=
    h.skipOn (Cursor.runLength_marks hmark) (Cursor.runLength_bound h.cursor _)
  rw [header, BlockCall.answer, Parse.header]
  simp only [returns_cursor, returns_mapCursor]
  refine returns_after (Parse.ends_eat hskip.stands ' ') fun _ s₁ h₁ => ?_
  refine returns_after (Parse.ends_restOfLine h₁.stands) fun line s₂ h₂ => ?_
  refine returns_offset.mpr (returns_after (Parse.ends_eatLineEnding h₂.stands) fun _ s₃ h₃ => ?_)
  have h₃ := ((hskip.trans h₁).trans h₂).trans h₃
  exact (hbody depth _ s₃ h₃).bind fun below s₄ h₄ => .pure (h₃.trans h₄)

theorem finishes_branch (h : Stands f s) (depth : Nat)
    (hp : s.lexer.cursor.hasPrefix [0x40, 0x7B]) (hbody : BodyFinishes f body s) :
    Returns (branch depth) (Parse.branch body depth) s fun _ => Passes f s := by
  rw [branch, BlockCall.answer, Parse.branch, returns_cursor]
  refine returns_after (Parse.passes_matchCondition h hp) fun condition s₁ h₁ => ?_
  refine returns_after (Parse.ends_restOfLine h₁.stands) fun line s₂ h₂ => ?_
  refine returns_after (Parse.ends_matchMode h₂.stands _ _) fun mode s₃ h₃ => ?_
  refine returns_offset.mpr (returns_after (Parse.ends_eatLineEnding h₃.stands) fun _ s₄ h₄ => ?_)
  have h₄ := ((h₁.trans h₂).trans h₃).trans h₄
  exact (hbody (depth + 1) 0 s₄ h₄).bind fun below s₅ h₅ => .pure (h₄.trans h₅)

theorem finishes_choice (h : Stands f s) (depth : Nat) (hdash : s.lexer.cursor.offset < f.size)
    (hbody : BodyFinishes f body s) :
    Returns (choice depth) (Parse.choice body depth) s fun _ => Passes f s := by
  have hnext := h.nextOn hdash
  rw [choice, BlockCall.answer, Parse.choice]
  simp only [returns_cursor, returns_mapCursor]
  refine returns_after (Parse.ends_skipSpaces hnext.stands) fun _ s₁ h₁ => ?_
  have h₁ := hnext.trans h₁
  have := h₁.onward
  refine (finishes_choiceHead _ {} h₁.stands ?_).bind fun head s₂ h₂ => ?_
  · rw [h.cursor.limit]
    omega
  refine (finishes_lineText h₂.stands).bind fun line s₃ h₃ => returns_offset.mpr ?_
  refine returns_after (Parse.ends_finishLine h₃.stands) fun _ s₄ h₄ => ?_
  have h₄ := ((h₁.trans h₂).trans h₃).trans h₄
  have hbelow := fun s₅ (h₅ : Reaches f s₄ s₅) => hbody (depth + 1) 0 s₅ (h₄.trans h₅)
  refine .ite (fun _ => ?_) fun _ => ?_
  · refine returns_after (P := fun _ => Reaches f s₄) (h₄.stands.ahead (.refl h₄.stands.cursor))
      fun _ s₅ h₅ => ?_
    exact (hbelow s₅ h₅).bind fun below s₆ h₆ => .pure (h₄.trans (h₅.trans h₆))
  · exact (hbelow s₄ (.refl h₄.stands)).bind fun below s₅ h₅ => .pure (h₄.trans h₅)

theorem finishes_choiceList (fuel depth : Nat) (h : Stands f s)
    (hdash : s.lexer.cursor.offset < f.size) (hfuel : f.size ≤ s.lexer.cursor.offset + fuel)
    (hbody : BodyFinishes f body s) :
    Returns (choiceList depth) (Parse.choiceList body fuel depth) s fun _ => Passes f s := by
  induction fuel generalizing s with
  | zero => omega
  | succ fuel ih =>
    rw [choiceList, BlockCall.answer, Parse.choiceList]
    refine (finishes_choice h depth hdash hbody).bind fun c s₁ h₁ => ?_
    refine returns_after ((Parse.ends_nextChoice h₁.stands depth).and
      (Parse.nextChoice_lt_size h₁.stands depth)) fun more s₂ h₂ => ?_
    refine .ite (fun hmore => ?_) fun _ => .pure (h₁.trans h₂.1)
    have h₂' := h₁.trans h₂.1
    have := h₂'.onward
    refine (ih h₂'.stands (h₂.2 hmore) (by omega) ?_).bind fun cs s₃ h₃ => ?_
    · exact fun depth stop s₃ h₃ => hbody depth stop s₃ (h₂'.trans h₃.reaches)
    · exact .pure (h₂'.trans h₃.reaches)

theorem finishes_choices (h : Stands f s) (depth : Nat) (hdash : s.lexer.cursor.offset < f.size)
    (hbody : BodyFinishes f body s) :
    Returns (choices depth) (Parse.choices body depth) s fun _ => Passes f s := by
  rw [choices, BlockCall.answer, Parse.choices, returns_cursor]
  refine (finishes_choiceList _ depth h hdash ?_ hbody).bind fun cs s₁ h₁ => .pure h₁
  rw [h.cursor.limit]
  omega

theorem finishes_openedBlock (h : Stands f s) (depth : Nat) (hbody : BodyFinishes f body s) :
    Returns (openedBlock depth) (Parse.openedBlock body depth) s fun _ => Reaches f s := by
  have hfits := BlockOpening.ofCursor_fits s.lexer.cursor
  have hmarked := BlockOpening.ofCursor_marked s.lexer.cursor
  rw [openedBlock, BlockCall.answer, Parse.openedBlock, returns_cursor]
  cases ho : BlockOpening.ofCursor s.lexer.cursor with
  | header =>
    have hmark := BlockOpening.peek_of_header ho
    exact (finishes_header h depth hmark hbody).bind fun b s₁ h₁ => .pure h₁.reaches
  | code =>
    rw [ho] at hfits
    exact returns_after (Parse.ends_codeBlock h hfits) fun b s₁ h₁ => .pure h₁.1
  | branch =>
    rw [ho] at hfits
    exact (finishes_branch h depth hfits hbody).bind fun b s₁ h₁ => .pure h₁.reaches
  | choices =>
    rw [ho] at hmarked
    have hdash := Cursor.lt_of_peek h.cursor hmarked (by decide)
    exact (finishes_choices h depth hdash hbody).bind fun b s₁ h₁ => .pure h₁.reaches
  | paragraph => exact finishes_paragraph h

theorem finishes_block (h : Stands f s) (depth : Nat) (hbody : BodyFinishes f body s) :
    Returns (block depth) (Parse.block body depth) s fun _ => Reaches f s := by
  rw [block, BlockCall.answer, Parse.block, returns_cursor_right]
  refine (finishes_attributeLines _ depth h ?_).bind fun attrs s₁ h₁ => returns_lexer.mpr ?_
  · rw [h.cursor.limit]
    omega
  refine .ite (fun _ => ?_) fun _ => returns_mapLexer.mpr ?_
  · cases attrs.1.getLast? with
    | none => exact .pure h₁
    | some a => exact ⟨rfl, h₁.trans (h₁.stands.ahead (.refl h₁.stands.cursor))⟩
  · have hindent := h₁.trans (h₁.stands.ahead (d := s₁.log)
      (Lexer.skipIndent_ahead h₁.stands.cursor))
    refine (finishes_openedBlock hindent.stands depth ?_).bind fun blocks s₂ h₂ =>
      .pure (hindent.trans h₂)
    exact fun depth stop s₃ h₃ => hbody depth stop s₃ (hindent.passes h₃)

/-- One round gets on. -/
theorem finishes_round (h : Stands f s) (hlt : s.lexer.cursor.offset < f.size) (depth : Nat)
    (hbody : BodyFinishes f body s) :
    Returns (round depth) (Parse.round body depth) s fun _ => Passes f s := by
  rw [round, BlockCall.answer, Parse.round, returns_offset]
  refine (finishes_block h depth hbody).bind fun bs s₁ h₁ => returns_offset.mpr ?_
  refine .ite (fun hsame => ?_) fun hne => .pure (h₁.onward hne)
  exact returns_after (Parse.passes_finishLine h₁.stands (hsame ▸ hlt)) fun _ s₂ h₂ =>
    .pure (h₁.passes h₂)

/-- Where `sequence` does not go on. -/
def StopsAt (depth stop : Nat) (l : Lexer) : Prop :=
  l.cursor.atEnd = true ∨ l.indentDepth < depth ∨ 0 < l.headerDepth ∧ l.headerDepth ≤ stop

theorem finishes_sequence (fuel depth stop : Nat) (h : Stands f s)
    (hfuel : f.size < s.lexer.cursor.offset + fuel) :
    Returns (sequence depth stop) (Parse.sequence fuel depth stop) s fun _ s' =>
      Reaches f s s' ∧ StopsAt depth stop s'.lexer := by
  induction fuel generalizing s depth stop with
  | zero =>
    have := h.cursor.within
    omega
  | succ fuel ih =>
    have hblank := h.ahead (d := s.log) (Lexer.skipBlankLines_ahead h.cursor)
    have hforward := hblank.forward
    rw [sequence, BlockCall.answer, Parse.sequence_succ, returns_mapLexer, returns_lexer]
    refine .ite (fun hstop => .pure ⟨hblank, ?_⟩) fun hgo => ?_
    · simpa [StopsAt, or_assoc] using hstop
    · simp only [Bool.or_eq_true, not_or, Bool.not_eq_true] at hgo
      have hlt := (Lexer.not_atEnd_iff hblank.stands.cursor).mp hgo.1.1
      have hbody : BodyFinishes f (Parse.sequence fuel)
          { s with lexer := s.lexer.skipBlankLines } := by
        intro depth stop s₁ h₁
        have := h₁.onward
        exact (ih depth stop h₁.stands (by omega)).imp fun _ _ h₂ => h₂.1
      refine (finishes_round hblank.stands hlt depth hbody).bind fun r s₁ h₁ => ?_
      have := h₁.onward
      refine (ih depth stop h₁.stands (by omega)).bind fun r' s₂ h₂ => .pure ⟨?_, h₂.2⟩
      exact hblank.trans (h₁.trans h₂.1).reaches

/-! ## Every function ends -/

/-- From a state in the file every function ends at this place or behind it, inside the file; a step
of a text, a block behind its opening and a round of `sequence` end behind it; what was tried in
vain has changed nothing; and no blank line is left when blank lines are skipped. -/
structure EndsFrom (f : File) (s : ParserState) : Prop where
  blankLines : (!s.lexer.skipBlankLines.cursor.atEnd && s.lexer.skipBlankLines.isBlankLine) = false
  takeAttribute : Ends (liftM Parse.takeAttribute) s (Attempts f s)
  attributeLine : Ends (liftM Parse.attributeLine) s (Attempts f s)
  attributeLines : ∀ depth, Ends (attributeLines depth) s fun _ => Reaches f s
  codeSpan : ∀ stop, Ends (liftM (Parse.codeSpan stop)) s (Attempts f s)
  scriptSpan : ∀ stop, Ends (liftM (Parse.scriptSpan stop)) s (Attempts f s)
  styledSpan : ∀ stop ≤ f.size, ∀ style : Style,
    s.lexer.cursor.offset + style.delimiter.length ≤ f.size →
      Ends (styledSpan stop style) s (Attempts f s)
  textStep : ∀ stop ≤ f.size, ∀ draft, s.lexer.cursor.offset < stop →
    Ends (textStep stop draft) s fun _ => Passes f s
  textFrom : ∀ stop ≤ f.size, ∀ closer start draft out,
    Ends (textFrom stop closer start draft out) s fun _ => Reaches f s
  lineText : Ends lineText s fun _ => Reaches f s
  paragraph : Ends paragraph s fun _ => Reaches f s
  codeBlock : s.lexer.cursor.hasPrefix [0x60, 0x60, 0x60] →
    Ends (liftM Parse.codeBlock) s fun _ => Reaches f s
  header : ∀ depth, s.lexer.cursor.peek = '#' → Ends (header depth) s fun _ => Passes f s
  branch : ∀ depth, s.lexer.cursor.hasPrefix [0x40, 0x7B] →
    Ends (branch depth) s fun _ => Passes f s
  choiceHead : ∀ head, Ends (choiceHead head) s fun _ => Reaches f s
  choice : ∀ depth, s.lexer.cursor.peek = '-' → Ends (choice depth) s fun _ => Passes f s
  choiceList : ∀ depth, s.lexer.cursor.peek = '-' → Ends (choiceList depth) s fun _ => Passes f s
  choices : ∀ depth, s.lexer.cursor.peek = '-' → Ends (choices depth) s fun _ => Passes f s
  openedBlock : ∀ depth, Ends (openedBlock depth) s fun _ => Reaches f s
  block : ∀ depth, Ends (block depth) s fun _ => Reaches f s
  round : ∀ depth, s.lexer.cursor.offset < f.size → Ends (round depth) s fun _ => Passes f s
  sequence : ∀ depth stop, Ends (sequence depth stop) s fun _ => Reaches f s

theorem endsFrom (h : Stands f s) : EndsFrom f s := by
  -- the fuel of the whole file lasts for every body in it
  have hbody : BodyFinishes f (Parse.sequence (f.size + 1)) s := fun depth stop s₁ h₁ =>
    (finishes_sequence _ depth stop h₁.stands (by omega)).imp fun _ _ h₂ => h₂.1
  have hbehind (stop : Nat) (hstop : stop ≤ f.size) : FinishesBehind f (f.size + 1) stop s :=
    fun s₁ h₁ closer start draft out =>
      finishes_textFrom hstop _ h₁.stands (by omega) closer start draft out
  have hdash (hp : s.lexer.cursor.peek = '-') := Cursor.lt_of_peek h.cursor hp (by decide)
  exact {
    blankLines := Lexer.skipBlankLines_stops h.cursor
    takeAttribute := (Returns.last (Parse.attempts_takeAttribute h)).ends
    attributeLine := (Returns.last (Parse.attempts_attributeLine h)).ends
    attributeLines := fun depth => (finishes_attributeLines (f.size + 1) depth h (by omega)).ends
    codeSpan := fun stop => (Returns.last (Parse.attempts_codeSpan h stop)).ends
    scriptSpan := fun stop => (Returns.last (Parse.attempts_scriptSpan h stop)).ends
    styledSpan := fun stop hstop _ hfit => (finishes_styledSpan h hfit (hbehind stop hstop)).ends
    textStep := fun stop hstop draft hlt =>
      (finishes_textStep h hlt hstop draft (hbehind stop hstop)).ends
    textFrom := fun stop hstop closer start draft out =>
      (finishes_textFrom hstop (f.size + 1) h (by omega) closer start draft out).ends
    lineText := (finishes_lineText h).ends
    paragraph := (finishes_paragraph h).ends
    codeBlock := fun hp => (Returns.last ((Parse.ends_codeBlock h hp).imp fun _ _ h₁ => h₁.1)).ends
    header := fun depth hp => (finishes_header h depth hp hbody).ends
    branch := fun depth hp => (finishes_branch h depth hp hbody).ends
    choiceHead := fun head => (finishes_choiceHead f.size head h (by omega)).ends
    choice := fun depth hp => (finishes_choice h depth (hdash hp) hbody).ends
    choiceList := fun depth hp =>
      (finishes_choiceList f.size depth h (hdash hp) (by omega) hbody).ends
    choices := fun depth hp => (finishes_choices h depth (hdash hp) hbody).ends
    openedBlock := fun depth => (finishes_openedBlock h depth hbody).ends
    block := fun depth => (finishes_block h depth hbody).ends
    round := fun depth hlt => (finishes_round h hlt depth hbody).ends
    sequence := fun depth stop =>
      ((finishes_sequence (f.size + 1) depth stop h (by omega)).imp fun _ _ h₂ => h₂.1).ends }

end Unbounded

/-- Every file of fewer than 2^32 bytes is parsed in every layout: without fuel, and so with any
fuel above its size.  Every function ends from every state in the file, each at or behind the place
where it started, and every round over the blocks gets on (`EndsFrom`).  The whole file is read if
and only if parsing does not stop at a line whose indentation is counted below zero, and so whenever
the columns of the file fit into a signed word. -/
theorem parse_completes (f : File) (layout : Layout) (maxErrors : Nat)
    (small : f.size < Word.modulus) :
    let start := ParserState.atStart f layout
    let final := (Parse.sequence (f.size + 1) 0 0 start).2.lexer
    Unbounded.parse f layout maxErrors = some (parse f layout maxErrors)
      ∧ (∀ fuel, f.size < fuel →
        Unbounded.sequence 0 0 start = some (Parse.sequence fuel 0 0 start))
      ∧ (∀ s, Stands f s → Unbounded.EndsFrom f s)
      ∧ (final.cursor.offset = f.size ↔ 0 ≤ final.indentDepth)
      ∧ (f.size * layout.indentWidth < 2 ^ 63 → final.cursor.offset = f.size) := by
  intro start final
  have hstands : Stands f start := .ofFile layout small
  have hall (fuel : Nat) (hfuel : f.size < fuel) :=
    Unbounded.finishes_sequence fuel 0 0 hstands (Nat.lt_of_lt_of_le hfuel (Nat.le_add_left _ _))
  obtain ⟨hreach, hstops⟩ : Reaches f start (Parse.sequence (f.size + 1) 0 0 start).2
      ∧ Unbounded.StopsAt 0 0 final := (hall _ (Nat.lt_succ_self _)).2
  have hin : final.cursor.In f := hreach.stands.cursor
  -- a sequence stops at the end, at a line that is too shallow, or at a header; only the first is
  -- possible once the indentation is not negative
  have hconsumed : final.cursor.offset = f.size ↔ 0 ≤ final.indentDepth := by
    constructor
    · intro hend
      have hat : final.cursor.atEnd = true := by simp [Cursor.atEnd, hin.limit, hend]
      exact Int.le_of_eq (Lexer.indentDepth_of_atEnd hat).symm
    · intro hdepth
      rcases hstops with hend | hshallow | hheader
      · have := hin.within
        simp only [Cursor.atEnd, decide_eq_true_eq, hin.limit] at hend
        omega
      · omega
      · omega
  refine ⟨?_, fun fuel hfuel => (hall fuel hfuel).1, fun s hs => Unbounded.endsFrom hs, hconsumed,
    fun hwidth => hconsumed.mpr (Lexer.indentDepth_nonneg hin ?_)⟩
  · rw [Unbounded.parse, (hall _ (Nat.lt_succ_self _)).1]
    rfl
  · have hkeeps := Parse.keeps_sequence (R := Parse.SameLayout) (f.size + 1) 0 0 start
    rwa [show final.layout = layout from hkeeps]

/-- A choice below a header, attributes that are not alone on their line, and a style that is not
closed: all of the file is read. -/
theorem parse_completes_unclosed :
    let f := File.ofBytes 0 "a.story" "# A\n@x y\n- **b\n\tc\n"
    let final := (Parse.sequence (f.size + 1) 0 0 (.atStart f {})).2.lexer
    f.size < Word.modulus ∧ final.cursor.offset = f.size
      ∧ Unbounded.parse f {} 0 = some (parse f {} 0)
      ∧ (parse f {} 0).document.blocks.length = 1 :=
  ⟨by decide +kernel, (parse_completes _ {} 0 (by decide +kernel)).2.2.2.2 (by decide +kernel),
    (parse_completes _ {} 0 (by decide +kernel)).1, by decide +kernel⟩

/-- In a layout of 2^62 columns a line behind two tabs is indented by less than nothing.  It is not
read, and nothing is reported. -/
theorem overflow_drops_file :
    let f := File.ofBytes 0 "a.story" "\t\tx\n"
    let layout : Layout := { indentWidth := 2 ^ 62 }
    f.size < Word.modulus
      ∧ (Parse.sequence (f.size + 1) 0 0 (.atStart f layout)).2.lexer.cursor.offset ≠ f.size
      ∧ (parse f layout).document.blocks = [] ∧ (parse f layout).diagnostics = [] := by
  refine ⟨?_, ?_, ?_, ?_⟩
  all_goals decide +kernel

end Storyline.Markup
