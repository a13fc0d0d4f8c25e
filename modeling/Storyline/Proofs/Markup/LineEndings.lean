import Storyline.Proofs.Markup.Agreement
import Storyline.Proofs.Markup.Extents
import Storyline.Proofs.Markup.OpenEnds
import Storyline.Proofs.Markup.TwoRuns

/-!
# Both layouts read the same

A text without carriage returns whose line feeds are all replaced by pairs of a carriage return and
a line feed is read the same in either layout: the documents agree up to the ends of headers and
matches, and outcomes and reports agree altogether (`parse_agrees_in_lf`).

Between lines the two runs stand at the same place (`Beside`), which is not between the two bytes of
a pair (`Settled`).  Only where the rest of a line was taken without its ending do they stand one
byte apart until they go past the ending (`Waits`).
-/

namespace Storyline.Markup

variable {f : File} {s s' t : ParserState}

/-! ## Where both runs stand -/

/-- A state in the layout of pairs, inside a paired file and not between the two bytes of a pair. -/
structure Settled (f : File) (s : ParserState) : Prop where
  stands : Stands f s
  clear : s.lexer.Clear f

theorem Settled.log (h : Settled f s) (d : Array Diagnostic) : Settled f { s with log := d } :=
  ⟨⟨h.stands.cursor, h.stands.lifted⟩, h.clear⟩

/-- Moving inside the text of a line. -/
theorem Settled.of_within (h : Settled f s) (ht : Stands f t)
    (forward : s.lexer.cursor.offset ≤ t.lexer.cursor.offset)
    (hle : t.lexer.cursor.offset ≤ s.lexer.lineEnd) (hlayout : t.lexer.layout = s.lexer.layout) :
    Settled f t := by
  have hmoved := (h.clear.moveTo forward hle).apart
  refine ⟨ht, ht.cursor, h.clear.paired, hlayout ▸ h.clear.crlf, ?_⟩
  rw [Cursor.Apart, Cursor.byteAt] at hmoved ⊢
  rwa [ht.cursor.content, ← h.stands.cursor.content]

theorem Settled.moveTo (h : Settled f s) {n : Nat} (forward : s.lexer.cursor.offset ≤ n)
    (hle : n ≤ s.lexer.lineEnd) : Settled f { s with lexer := s.lexer.moveTo n } :=
  h.of_within (h.stands.moveTo forward (Nat.le_trans hle h.clear.lineEnd.within)).stands forward hle
    rfl

/-- Bytes that take part in no line ending belong to the line. -/
theorem Settled.le_lineEnd (h : Settled f s) {n : Nat}
    (hn : s.lexer.cursor.offset + n ≤ f.size)
    (plain : ∀ j < n, Cursor.isPlain (s.lexer.cursor.byteAt (s.lexer.cursor.offset + j))) :
    s.lexer.cursor.offset + n ≤ s.lexer.lineEnd := by
  rw [← h.clear.textEnd]
  exact Lexer.le_textEnd h.stands.cursor hn plain

/-- Moving behind a byte that is not a carriage return. -/
theorem Settled.moveBehind (h : Settled f s) {i : Nat} (hne : s.lexer.cursor.byteAt i ≠ '\r')
    (forward : s.lexer.cursor.offset ≤ i + 1) (hle : i + 1 ≤ f.size) :
    Settled f { s with lexer := s.lexer.moveTo (i + 1) } := by
  have hm := (h.stands.moveTo (d := s.log) forward hle).stands
  exact ⟨hm, hm.cursor, h.clear.paired, h.clear.crlf,
    .of_before h.stands.cursor h.clear.paired rfl hne⟩

/-- Moving to the end of the file. -/
theorem Settled.moveToSize (h : Settled f s) :
    Settled f { s with lexer := s.lexer.moveTo f.size } := by
  have hm := (h.stands.moveTo (d := s.log) h.stands.cursor.within (Nat.le_refl _)).stands
  refine ⟨hm, hm.cursor, h.clear.paired, h.clear.crlf, ?_⟩
  show s.lexer.cursor.byteAt f.size ≠ '\n'
  rw [Cursor.byteAt_eq_zero h.stands.cursor (Nat.le_refl _)]
  decide

/-- Two states at the same place, the second one in the layout of line feeds. -/
def Beside (f : File) (s s' : ParserState) : Prop := Settled f s ∧ s' = s.inLf

/-- The state with the text of its line behind it. -/
def ParserState.atLineEnd (s : ParserState) : ParserState :=
  { s with lexer := s.lexer.moveTo s.lexer.lineEnd }

/-- Two states in front of the ending of the same line, which starts one byte later in the layout of
line feeds. -/
def Waits (f : File) (s s' : ParserState) : Prop :=
  ∃ t, Settled f t ∧ s = t.atLineEnd ∧ s' = t.inLf.atLineEnd

theorem Waits.report (h : Waits f s s') (d : Diagnostic) :
    Waits f { s with log := s.log.push d } { s' with log := s'.log.push d } := by
  obtain ⟨t, ht, rfl, rfl⟩ := h
  exact ⟨{ t with log := t.log.push d }, ht.log _, rfl, rfl⟩

namespace Parse

variable {α : Type}

/-- The same result from both runs, which go on from the same place. -/
def Same (f : File) (a a' : α) (t t' : ParserState) : Prop := a' = a ∧ Beside f t t'

/-- A blind parser that stays on its line. -/
theorem Blind.same {m : Parse α} (hm : Blind m) (h : Settled f s)
    (hreach : Ends m s fun _ t => Reaches f s t)
    (hle : Ends m s fun _ t => t.lexer.cursor.offset ≤ s.lexer.lineEnd) :
    Pairs m m s s.inLf (Same f) := by
  refine ((hm s).ends (hreach.and hle)).imp fun a a' t t' ht => ?_
  obtain ⟨⟨ha, ht', hlayout⟩, hreach, hle⟩ := ht
  exact ⟨ha, h.of_within hreach.stands hreach.forward hle hlayout, ht'⟩

/-! ## Lines -/

theorem pairs_skipSpaces (h : Settled f s) : Pairs skipSpaces skipSpaces s s.inLf (Same f) := by
  refine (blind_mapCursor _).same h (ends_skipSpaces h.stands) ?_
  exact h.clear.run_le fun _ => Lexer.isPlain_of_isGap

theorem pairs_skipIndent (h : Settled f s) :
    Pairs (mapLexer Lexer.skipIndent) (mapLexer Lexer.skipIndent) s s.inLf (Same f) :=
  ⟨rfl, ⟨(h.stands.ahead (Lexer.skipIndent_ahead h.stands.cursor)).stands, h.clear.skipIndent⟩, rfl⟩

theorem pairs_skipBlankLines (h : Settled f s) :
    Pairs (mapLexer Lexer.skipBlankLines) (mapLexer Lexer.skipBlankLines) s s.inLf (Same f) := by
  refine ⟨rfl, ⟨(h.stands.ahead (Lexer.skipBlankLines_ahead h.stands.cursor)).stands,
    h.clear.skipBlankLines⟩, ?_⟩
  show { s.inLf with lexer := s.lexer.inLf.skipBlankLines } = _
  rw [h.clear.inLf_skipBlankLines]
  rfl

theorem pairs_finishLine (h : Settled f s) : Pairs finishLine finishLine s s.inLf (Same f) := by
  refine ⟨rfl, ⟨(ends_finishLine h.stands).stands, h.clear.skipLine⟩, ?_⟩
  show { s.inLf with lexer := s.lexer.inLf.skipLine } = _
  rw [h.clear.inLf_skipLine]
  rfl

theorem blind_eat (b : UInt8) : Blind (eat b) := by
  refine .bind blind_cursor fun c => ?_
  split
  · exact .bind (blind_mapCursor _) fun _ => blind_pure _
  · exact blind_pure _

theorem pairs_eat (h : Settled f s) {b : UInt8} (hb : Cursor.isPlain b) :
    Pairs (eat b) (eat b) s s.inLf (Same f) := by
  refine (blind_eat b).same h (ends_eat h.stands b) ?_
  rw [eat, ends_bind, ends_cursor]
  cases he : s.lexer.cursor.eatByte? b with
  | none => exact h.clear.lineEnd.ahead
  | some c =>
    show c.offset ≤ _
    have hsize := (Cursor.eatByte?_ahead h.stands.cursor he).here.within
    rw [Cursor.eatByte?] at he
    split at he
    · next hc =>
      cases he
      simp only [Bool.and_eq_true, Bool.not_eq_true', decide_eq_true_eq] at hc
      refine h.le_lineEnd hsize fun j hj => ?_
      obtain rfl : j = 0 := by omega
      rwa [Nat.add_zero, hc.2]
    · cases he

/-- The rest of a line is the same text in both layouts. -/
theorem pairs_restOfLine (h : Settled f s) :
    Pairs restOfLine restOfLine s s.inLf fun r r' t t' => r' = r ∧ Waits f t t' := by
  have hwaits : Waits f s.atLineEnd s.inLf.atLineEnd := ⟨s, h, rfl, rfl⟩
  simp only [restOfLine, pairs_bind, pairs_lexer, ParserState.inLf_lexer, Lexer.inLf_cursor,
    h.clear.inLf_textEnd, pairs_moveTo]
  exact .ite Iff.rfl (fun _ => ⟨rfl, hwaits⟩) fun _ => ⟨rfl, hwaits⟩

/-- Behind the ending of the line both runs stand at the same place again. -/
theorem pairs_eatLineEnding (h : Waits f s s') :
    Pairs eatLineEnding eatLineEnding s s' (Same f) := by
  obtain ⟨t, ht, rfl, rfl⟩ := h
  have hm := (ht.stands.moveTo (d := t.log) ht.clear.lineEnd.ahead ht.clear.lineEnd.within).stands
  have hstands := (ends_eatLineEnding hm).stands
  refine ⟨rfl, ?_⟩
  show Beside f { t with lexer := (t.lexer.moveTo t.lexer.lineEnd).eatLineEnding?.getD _ }
    { t.inLf with lexer := (t.lexer.inLf.moveTo t.lexer.inLf.lineEnd).eatLineEnding?.getD _ }
  have heat := ht.clear.eat_pair
  refine ⟨⟨hstands, ?_⟩, ?_⟩
  · show Lexer.Clear f ((t.lexer.moveTo t.lexer.lineEnd).eatLineEnding?.getD _)
    rw [heat]
    split
    · exact ht.clear.moveTo ht.clear.lineEnd.ahead (Nat.le_refl _)
    · exact ht.clear.nextLine
  · have hlf := ht.clear.inLf_lineEnd
    rw [heat, ht.clear.eat_feed]
    split
    · next heq =>
      rw [if_pos heq] at hlf
      simp only [ParserState.atLineEnd, ParserState.inLf_lexer, hlf, heq]
      rfl
    · rfl

/-- The text of a line is the same in both layouts. -/
theorem pairs_lineText (h : Settled f s) : Pairs lineText lineText s s.inLf (Same f) := by
  have hlayout : Pairs lineText lineText s s.inLf (Alike s.lexer.layout) := by
    simp only [lineText, pairs_bind, pairs_get, pairs_textEnd, pairs_offset, ParserState.inLf_lexer,
      Lexer.inLf_cursor, h.clear.inLf_textEnd]
    refine (blind_textFrom _ _ _ _ _ _ s).imp fun r r' t t' ht => ?_
    obtain ⟨rfl, rfl, hlayout⟩ := ht
    exact ⟨rfl, rfl, hlayout⟩
  refine (hlayout.ends ((ends_lineText h.stands).and (lineText_le h.stands))).imp
    fun r r' t t' ht => ?_
  obtain ⟨⟨hr, ht', hlayout⟩, ⟨hreach, -⟩, hle⟩ := ht
  refine ⟨hr, h.of_within hreach.stands hreach.forward ?_ hlayout, ht'⟩
  rw [← h.clear.textEnd]
  exact hle

/-! ## Attributes -/

theorem pairs_parameters (h : Settled f s) (hp : s.lexer.cursor.peek = '(') :
    Pairs parameters parameters s s.inLf (Same f) := by
  have hreach := (ends_parameters h.stands hp).imp fun _ _ hr => hr.1
  have hlt := Cursor.lt_of_peek h.stands.cursor hp (by decide)
  have hnext := Cursor.next_offset h.stands.cursor hlt
  have hend := h.clear.textEnd
  have hwithin := (Lexer.textEnd_within h.stands.cursor).1
  simp only [parameters, pairs_bind, pairs_lexer, ParserState.inLf_lexer, Lexer.inLf_cursor,
    h.clear.inLf_textEnd]
  cases hc : s.lexer.cursor.next.closeOffset? '(' ')' s.lexer.textEnd with
  | some close =>
    have hclose := Cursor.closeOffset?_lt hc
    exact ⟨rfl, h.moveTo (by omega) (by omega), rfl⟩
  | none =>
    refine ⟨rfl, ?_, rfl⟩
    exact (h.log _).moveTo hwithin (Nat.le_of_eq hend)

theorem pairs_takeAttribute (h : Settled f s) :
    Pairs takeAttribute takeAttribute s s.inLf (Same f) := by
  simp only [takeAttribute, pairs_bind, pairs_cursor]
  refine .ite Iff.rfl (fun _ => ⟨rfl, h, rfl⟩) fun hc => ?_
  have hat : s.lexer.cursor.peek = '@' := by simp at hc; exact hc.1
  have hlt := Cursor.lt_of_peek h.stands.cursor hat (by decide)
  have hbyte := Cursor.byteAt_of_peek h.stands.cursor hat (by decide)
  have hnext := Cursor.next_eq h.stands.cursor hlt
  -- first behind the sign, then behind the name
  have hsign := h.moveBehind (by rw [hbyte]; decide) (Nat.le_succ _) hlt
  have hname := hsign.moveTo (n := (s.lexer.cursor.next.skipWhile isNamePart).offset)
    (by rw [hnext]; exact Nat.le_add_right _ _)
    (by rw [hnext]; exact hsign.clear.run_le fun _ => Lexer.isPlain_of_isNamePart)
  have hcursor : (s.lexer.moveTo (s.lexer.cursor.next.skipWhile isNamePart).offset).cursor
      = s.lexer.cursor.next.skipWhile isNamePart := by
    rw [hnext]
    rfl
  rw [pairs_bind, pairs_moveTo]
  refine .ite Iff.rfl (fun hp => ?_) fun _ => ⟨rfl, hname, rfl⟩
  rw [pairs_bind]
  refine (pairs_parameters hname (by rw [← hp]; exact congrArg Cursor.peek hcursor)).imp
    fun r r' t t' ht => ?_
  obtain ⟨rfl, ht, rfl⟩ := ht
  exact ⟨rfl, ht, rfl⟩

theorem pairs_attributeLine (h : Settled f s) :
    Pairs attributeLine attributeLine s s.inLf (Same f) := by
  simp only [attributeLine, pairs_bind, pairs_get]
  refine (pairs_skipIndent h).imp fun _ _ t t' ht => ?_
  obtain ⟨-, ht, rfl⟩ := ht
  refine (pairs_takeAttribute ht).imp fun r r' t₁ t₁' h₁ => ?_
  obtain ⟨rfl, h₁, rfl⟩ := h₁
  cases r' with
  | none => exact ⟨rfl, h, rfl⟩
  | some found =>
    simp only [pairs_bind, pairs_offset, pairs_textEnd]
    refine (pairs_skipSpaces h₁).imp fun _ _ t₂ t₂' h₂ => ?_
    obtain ⟨-, h₂, rfl⟩ := h₂
    refine .ite ?_ (fun _ => ?_) fun _ => ⟨rfl, h, rfl⟩
    · rw [ParserState.inLf_lexer, h₂.clear.inLf_textEnd]
      rfl
    · rw [pairs_bind]
      exact (pairs_finishLine h₂).imp fun _ _ t₃ t₃' h₃ => ⟨rfl, h₃.2⟩

theorem pairs_attributeLines (fuel depth : Nat) (h : Settled f s) :
    Pairs (attributeLines fuel depth) (attributeLines fuel depth) s s.inLf (Same f) := by
  induction fuel generalizing s with
  | zero => exact ⟨rfl, h, rfl⟩
  | succ fuel ih =>
    simp only [attributeLines, pairs_bind]
    refine (pairs_skipBlankLines h).imp fun _ _ t t' ht => ?_
    obtain ⟨-, ht, rfl⟩ := ht
    rw [pairs_lexer]
    refine .ite Iff.rfl (fun _ => ⟨rfl, ht, rfl⟩) fun _ => ?_
    rw [pairs_bind]
    refine (pairs_attributeLine ht).imp fun r r' t₁ t₁' h₁ => ?_
    obtain ⟨rfl, h₁, rfl⟩ := h₁
    cases r' with
    | none => exact ⟨rfl, h₁, rfl⟩
    | some found =>
      simp only [pairs_bind]
      refine (ih h₁).imp fun r r' t₂ t₂' h₂ => ?_
      obtain ⟨rfl, h₂⟩ := h₂
      exact ⟨rfl, h₂⟩

/-! ## Single blocks -/

/-- Blocks that agree up to the ends of headers and matches, from runs that go on from the same
place. -/
def SameBlocks (f : File) (r r' : List Block × Outcome) (t t' : ParserState) : Prop :=
  blocksWithoutEnds r.1 = blocksWithoutEnds r'.1 ∧ r'.2 = r.2 ∧ Beside f t t'

/-- A block that agrees up to the ends of headers and matches. -/
def SameBlock (f : File) (r r' : Block × Outcome) (t t' : ParserState) : Prop :=
  r.1.withoutEnds = r'.1.withoutEnds ∧ r'.2 = r.2 ∧ Beside f t t'

/-- A parser of the blocks below that reads the same in both layouts. -/
def BodyAgrees (f : File) (body : BodyParser) : Prop :=
  ∀ depth stop s, Settled f s → Pairs (body depth stop) (body depth stop) s s.inLf (SameBlocks f)

variable {body : BodyParser}

theorem pairs_header (h : Settled f s) (depth : Nat) (hbody : BodyAgrees f body) :
    Pairs (header body depth) (header body depth) s s.inLf (SameBlock f) := by
  have hmarks : s.lexer.cursor.skip (s.lexer.cursor.runLength (· = '#')) = { s.lexer.cursor with
      offset := s.lexer.cursor.offset + s.lexer.cursor.runLength (· = '#') } :=
    Cursor.skip_eq h.stands.cursor (Cursor.runLength_bound h.stands.cursor _)
  have hskip := h.moveTo (Nat.le_add_right _ _) (h.clear.run_le (p := (· = '#')) fun b hb => by
    rw [of_decide_eq_true hb]
    rfl)
  simp only [header, pairs_bind, pairs_cursor, pairs_mapCursor, pairs_offset, ParserState.inLf_lexer,
    Lexer.inLf_cursor, hmarks]
  refine (pairs_eat hskip (by decide)).imp fun _ _ t₁ t₁' h₁ => ?_
  obtain ⟨-, h₁, rfl⟩ := h₁
  refine (pairs_restOfLine h₁).imp fun r r' t₂ t₂' h₂ => ?_
  obtain ⟨rfl, h₂⟩ := h₂
  refine (pairs_eatLineEnding h₂).imp fun _ _ t₃ t₃' h₃ => ?_
  obtain ⟨-, h₃, rfl⟩ := h₃
  refine (hbody depth _ t₃ h₃).imp fun r r' t₄ t₄' h₄ => ?_
  exact ⟨header_congr h₄.1 { title := _, titleSpan := _, depth := _, span := default } _ _ _ _, h₄.2⟩

theorem pairs_codeBlock (h : Settled f s) (hp : s.lexer.cursor.hasPrefix [0x60, 0x60, 0x60]) :
    Pairs codeBlock codeBlock s s.inLf (SameBlock f) := by
  have hfit := Cursor.hasPrefix_bound h.stands.cursor hp
  have hfence : s.lexer.cursor.skip 3 = { s.lexer.cursor with offset := s.lexer.cursor.offset + 3 } :=
    Cursor.skip_eq h.stands.cursor hfit
  have hplain {c : Cursor} {i stop : Nat} (hm : c.matchesAt i stop [0x60, 0x60, 0x60]) :
      ∀ j < 3, Cursor.isPlain (c.byteAt (i + j)) = true :=
    Cursor.matchesAt_plain hm (by decide)
  have hskip := h.moveTo (Nat.le_add_right _ 3)
    (h.le_lineEnd hfit (hplain (by simpa [Cursor.hasPrefix] using hp)))
  simp only [codeBlock, pairs_bind, pairs_cursor, pairs_mapCursor, ParserState.inLf_lexer,
    Lexer.inLf_cursor, hfence]
  refine (pairs_restOfLine hskip).imp fun r r' t₁ t₁' h₁ => ?_
  obtain ⟨rfl, h₁⟩ := h₁
  refine (pairs_eatLineEnding h₁).imp fun _ _ t₂ t₂' h₂ => ?_
  obtain ⟨-, h₂, rfl⟩ := h₂
  have hin := h₂.stands.cursor
  simp only [ParserState.inLf_lexer, Lexer.inLf_cursor]
  -- with its closing fence the block ends in both readings behind the same one, without it at the
  -- end of the file
  cases hc : t₂.lexer.cursor.consumeUntil? [0x60, 0x60, 0x60] with
  | some found =>
    rw [Cursor.consumeUntil?, Option.map_eq_some_iff] at hc
    obtain ⟨i, hi, rfl⟩ := hc
    obtain ⟨hle, hm, -⟩ := Cursor.positionOf?_bound hi
    have hsize := (Cursor.positionOf?_within hin hi).2
    -- a fence ends in no carriage return, so that the place behind it is one the two readings share
    have hne : t₂.lexer.cursor.byteAt (i + 2) ≠ '\r' := by
      intro hreturn
      have := hplain hm 2 (by decide)
      rw [hreturn] at this
      cases this
    have hbehind := h₂.moveBehind hne (Nat.le_trans hle (Nat.le_add_right i 3)) hsize
    simp only [pairs_bind, pairs_moveTo]
    exact (pairs_finishLine hbehind).imp fun _ _ t₃ t₃' h₃ => ⟨rfl, rfl, h₃.2⟩
  | none =>
    have hrest : (t₂.lexer.cursor.rest t₂.lexer.cursor.limit).2.offset = f.size := by
      have := hin.within
      rw [Cursor.rest, Nat.min_self, hin.limit]
      split
      · show t₂.lexer.cursor.offset = f.size
        omega
      · rfl
    refine ⟨rfl, rfl, ?_, rfl⟩
    show Settled f { t₂ with lexer := t₂.lexer.moveTo _, log := _ }
    rw [hrest]
    exact h₂.moveToSize.log _

theorem pairs_matchCondition (h : Settled f s) (hp : s.lexer.cursor.hasPrefix [0x40, 0x7B]) :
    Pairs matchCondition matchCondition s s.inLf (Same f) := by
  have hfit := Cursor.hasPrefix_bound h.stands.cursor hp
  have hskip : (s.lexer.cursor.skip 2).offset = s.lexer.cursor.offset + 2 :=
    Cursor.skip_offset h.stands.cursor hfit
  have hend := h.clear.textEnd
  have hwithin := (Lexer.textEnd_within h.stands.cursor).1
  simp only [matchCondition, pairs_bind, pairs_lexer, ParserState.inLf_lexer, Lexer.inLf_cursor,
    h.clear.inLf_textEnd]
  cases hc : (s.lexer.cursor.skip 2).closeOffset? 0x7B 0x7D s.lexer.textEnd with
  | some close =>
    have hclose := Cursor.closeOffset?_lt hc
    exact ⟨rfl, h.moveTo (by omega) (by omega), rfl⟩
  | none => exact ⟨rfl, (h.log _).moveTo hwithin (Nat.le_of_eq hend), rfl⟩

theorem pairs_matchMode (h : Waits f s s') (modifier : Bytes) (span : Span) :
    Pairs (matchMode modifier span) (matchMode modifier span) s s'
      fun r r' t t' => r' = r ∧ Waits f t t' :=
  .ite Iff.rfl (fun _ => ⟨rfl, h⟩) fun _ => .ite Iff.rfl (fun _ => ⟨rfl, h⟩) fun _ =>
    .ite Iff.rfl (fun _ => ⟨rfl, h⟩) fun _ => ⟨rfl, h.report _⟩

theorem pairs_branch (h : Settled f s) (depth : Nat) (hp : s.lexer.cursor.hasPrefix [0x40, 0x7B])
    (hbody : BodyAgrees f body) :
    Pairs (branch body depth) (branch body depth) s s.inLf (SameBlock f) := by
  simp only [branch, pairs_bind, pairs_cursor, pairs_offset]
  refine (pairs_matchCondition h hp).imp fun r r' t₁ t₁' h₁ => ?_
  obtain ⟨rfl, h₁, rfl⟩ := h₁
  refine (pairs_restOfLine h₁).imp fun r r' t₂ t₂' h₂ => ?_
  obtain ⟨rfl, h₂⟩ := h₂
  refine (pairs_matchMode h₂ _ _).imp fun r r' t₃ t₃' h₃ => ?_
  obtain ⟨rfl, h₃⟩ := h₃
  refine (pairs_eatLineEnding h₃).imp fun _ _ t₄ t₄' h₄ => ?_
  obtain ⟨-, h₄, rfl⟩ := h₄
  refine (hbody (depth + 1) 0 t₄ h₄).imp fun r r' t₅ t₅' h₅ => ?_
  refine ⟨?_, congrArg (Outcome.worse _) h₅.2.1, h₅.2.2⟩
  exact branch_congr h₅.1
    { condition := _, conditionSpan := _, modifier := _, mode := _, span := default } _ _ _ _

theorem pairs_paragraph (h : Settled f s) :
    Pairs paragraph paragraph s s.inLf (Same f) := by
  simp only [paragraph, pairs_bind, pairs_cursor, pairs_offset]
  refine (pairs_lineText h).imp fun r r' t₁ t₁' h₁ => ?_
  obtain ⟨rfl, h₁, rfl⟩ := h₁
  exact (pairs_finishLine h₁).imp fun _ _ t₂ t₂' h₂ => ⟨rfl, h₂.2⟩

/-! ## Choices -/

theorem pairs_choiceAttribute (h : Settled f s) (head : ChoiceHead) (a : Attribute) :
    Pairs (choiceAttribute head a) (choiceAttribute head a) s s.inLf (Same f) :=
  .ite Iff.rfl
    (fun _ => .ite Iff.rfl (fun _ => ⟨rfl, h.log _, rfl⟩) fun _ => ⟨rfl, h, rfl⟩)
    fun _ => ⟨rfl, h, rfl⟩

theorem pairs_choiceHead (fuel : Nat) (h : Settled f s) (head : ChoiceHead) :
    Pairs (choiceHead fuel head) (choiceHead fuel head) s s.inLf (Same f) := by
  induction fuel generalizing s head with
  | zero => exact ⟨rfl, h, rfl⟩
  | succ fuel ih =>
    simp only [choiceHead, pairs_bind]
    refine (pairs_takeAttribute h).imp fun r r' t₁ t₁' h₁ => ?_
    obtain ⟨rfl, h₁, rfl⟩ := h₁
    cases r' with
    | none => exact ⟨rfl, h₁, rfl⟩
    | some found =>
      simp only [pairs_bind]
      refine (pairs_choiceAttribute h₁ _ _).imp fun r r' t₂ t₂' h₂ => ?_
      obtain ⟨rfl, h₂, rfl⟩ := h₂
      refine (pairs_skipSpaces h₂).imp fun _ _ t₃ t₃' h₃ => ?_
      obtain ⟨-, h₃, rfl⟩ := h₃
      exact ih h₃ _

/-- A choice that agrees up to the ends of headers and matches. -/
def SameChoice (f : File) (r r' : Choice × Outcome) (t t' : ParserState) : Prop :=
  r.1.withoutEnds = r'.1.withoutEnds ∧ r'.2 = r.2 ∧ Beside f t t'

theorem peek_of_choices {c : Cursor} (h : BlockOpening.ofCursor c = .choices) : c.peek = '-' := by
  rw [BlockOpening.ofCursor] at h
  split at h
  · cases h
  split at h
  · cases h
  split at h
  · cases h
  split at h
  · next hc => exact (by simpa using hc : c.peek = '-' ∧ _).1
  · cases h

theorem pairs_choice (h : Settled f s) (depth : Nat) (hp : s.lexer.cursor.peek = '-')
    (hbody : BodyAgrees f body) :
    Pairs (choice body depth) (choice body depth) s s.inLf (SameChoice f) := by
  have hlt := Cursor.lt_of_peek h.stands.cursor hp (by decide)
  have hbyte := Cursor.byteAt_of_peek h.stands.cursor hp (by decide)
  have hdash := h.moveBehind (by rw [hbyte]; decide) (Nat.le_succ _) hlt
  simp only [choice, pairs_bind, pairs_cursor, pairs_mapCursor, pairs_offset, ParserState.inLf_lexer,
    Lexer.inLf_cursor, Cursor.next_eq h.stands.cursor hlt]
  refine (pairs_skipSpaces hdash).imp fun _ _ t₁ t₁' h₁ => ?_
  obtain ⟨-, h₁, rfl⟩ := h₁
  refine (pairs_choiceHead _ h₁ {}).imp fun head head' t₂ t₂' h₂ => ?_
  obtain ⟨rfl, h₂, rfl⟩ := h₂
  refine (pairs_lineText h₂).imp fun r r' t₃ t₃' h₃ => ?_
  obtain ⟨rfl, h₃, rfl⟩ := h₃
  refine (pairs_finishLine h₃).imp fun _ _ t₄ t₄' h₄ => ?_
  obtain ⟨-, h₄, rfl⟩ := h₄
  have hbelow {t₅ : ParserState} (h₅ : Settled f t₅) :
      Pairs (body (depth + 1) 0) (body (depth + 1) 0) t₅ t₅.inLf fun q q' t t' =>
        let made (q : List Block × Outcome) : Choice × Outcome :=
          (.mk { text := r'.1, condition := head'.condition, attrs := head'.attrs.toList
                 span := s.lexer.cursor.spanAt s.lexer.cursor.offset
                  (reach t₃.lexer.cursor.offset q.1) }
            (r'.2.1.map .divert ++ q.1), (head'.outcome.worse r'.2.2).worse q.2)
        SameChoice f (made q) (made q') t t' := by
    refine (hbody (depth + 1) 0 t₅ h₅).imp fun q q' t t' ht => ?_
    refine ⟨?_, congrArg (Outcome.worse _) ht.2.1, ht.2.2⟩
    exact choice_congr ht.1
      { text := r'.1, condition := head'.condition, attrs := head'.attrs.toList, span := default }
      _ _ _ _
  exact .ite Iff.rfl (fun _ => hbelow (h₄.log _)) fun _ => hbelow h₄

theorem pairs_nextChoice (h : Settled f s) (depth : Nat) :
    Pairs (nextChoice depth) (nextChoice depth) s s.inLf fun more more' t t' =>
      Same f more more' t t' ∧ (more = true → t.lexer.cursor.peek = '-') := by
  simp only [nextChoice, pairs_bind]
  refine (pairs_skipBlankLines h).imp fun _ _ t t' ht => ?_
  obtain ⟨-, ht, rfl⟩ := ht
  rw [pairs_lexer]
  refine .ite Iff.rfl (fun hc => ?_) fun _ => ⟨⟨rfl, ht, rfl⟩, nofun⟩
  have hdash : BlockOpening.ofCursor t.lexer.skipIndent.cursor = .choices := by
    simp only [Bool.and_eq_true, decide_eq_true_eq] at hc
    exact hc.2
  exact ⟨⟨rfl, (pairs_skipIndent ht).2.1, rfl⟩, fun _ => peek_of_choices hdash⟩

theorem pairs_choiceList (fuel depth : Nat) (h : Settled f s) (hp : s.lexer.cursor.peek = '-')
    (hbody : BodyAgrees f body) :
    Pairs (choiceList body fuel depth) (choiceList body fuel depth) s s.inLf fun r r' t t' =>
      choicesWithoutEnds r.1 = choicesWithoutEnds r'.1 ∧ r'.2 = r.2 ∧ Beside f t t' := by
  induction fuel generalizing s with
  | zero => exact ⟨rfl, rfl, h, rfl⟩
  | succ fuel ih =>
    simp only [choiceList, pairs_bind]
    refine (pairs_choice h depth hp hbody).imp fun r r' t₁ t₁' h₁ => ?_
    obtain ⟨hc, ho, h₁, rfl⟩ := h₁
    refine (pairs_nextChoice h₁ depth).imp fun more more' t₂ t₂' h₂ => ?_
    obtain ⟨⟨rfl, h₂, rfl⟩, hdash⟩ := h₂
    refine .ite Iff.rfl (fun hmore => ?_) fun _ => ?_
    · rw [pairs_bind]
      refine (ih h₂ (hdash hmore)).imp fun r r' t₃ t₃' h₃ => ?_
      obtain ⟨hcs, ho', h₃⟩ := h₃
      exact ⟨congrArg₂ List.cons hc hcs, congrArg₂ Outcome.worse ho ho', h₃⟩
    · exact ⟨congrArg ([·]) hc, ho, h₂, rfl⟩

theorem pairs_choices (h : Settled f s) (depth : Nat) (hp : s.lexer.cursor.peek = '-')
    (hbody : BodyAgrees f body) :
    Pairs (choices body depth) (choices body depth) s s.inLf (SameBlock f) := by
  simp only [choices, pairs_bind, pairs_cursor]
  refine (pairs_choiceList _ depth h hp hbody).imp fun r r' t t' ht => ?_
  exact ⟨choices_congr ht.1 _ _, ht.2⟩

/-! ## Sequences -/

theorem pairs_openedBlock (h : Settled f s) (depth : Nat) (hbody : BodyAgrees f body) :
    Pairs (openedBlock body depth) (openedBlock body depth) s s.inLf (SameBlocks f) := by
  have single {m : Parse (Block × Outcome)} (hm : Pairs m m s s.inLf (SameBlock f)) :
      Pairs m m s s.inLf fun r r' t t' => SameBlocks f ([r.1], r.2) ([r'.1], r'.2) t t' :=
    hm.imp fun _ _ _ _ hr => ⟨congrArg ([·]) hr.1, hr.2⟩
  have hfits := BlockOpening.ofCursor_fits s.lexer.cursor
  rw [openedBlock, pairs_bind, pairs_cursor, ParserState.inLf_lexer, Lexer.inLf_cursor]
  cases ho : BlockOpening.ofCursor s.lexer.cursor with
  | header =>
    rw [pairs_bind]
    exact single (pairs_header h depth hbody)
  | code =>
    rw [ho] at hfits
    rw [pairs_bind]
    exact single (pairs_codeBlock h hfits)
  | branch =>
    rw [ho] at hfits
    rw [pairs_bind]
    exact single (pairs_branch h depth hfits hbody)
  | choices =>
    rw [pairs_bind]
    exact single (pairs_choices h depth (peek_of_choices ho) hbody)
  | paragraph =>
    refine (pairs_paragraph h).imp fun r r' t t' ht => ?_
    obtain ⟨rfl, ht⟩ := ht
    exact ⟨rfl, rfl, ht⟩

theorem pairs_block (h : Settled f s) (depth : Nat) (hbody : BodyAgrees f body) :
    Pairs (block body depth) (block body depth) s s.inLf (SameBlocks f) := by
  simp only [block, pairs_bind, pairs_cursor]
  refine (pairs_attributeLines _ depth h).imp fun r r' t₁ t₁' h₁ => ?_
  obtain ⟨rfl, h₁, rfl⟩ := h₁
  rw [pairs_lexer]
  refine .ite Iff.rfl (fun _ => ?_) fun _ => ?_
  · cases r'.1.getLast? with
    | none => exact ⟨rfl, rfl, h₁, rfl⟩
    | some a => exact ⟨rfl, rfl, h₁.log _, rfl⟩
  · rw [pairs_bind]
    refine (pairs_skipIndent h₁).imp fun _ _ t₂ t₂' h₂ => ?_
    obtain ⟨-, h₂, rfl⟩ := h₂
    rw [pairs_bind]
    refine (pairs_openedBlock h₂ depth hbody).imp fun r r' t₃ t₃' h₃ => ?_
    obtain ⟨hbs, ho, h₃⟩ := h₃
    refine ⟨?_, congrArg (Outcome.worse _) ho, h₃⟩
    exact (blocksWithoutEnds_attach _ _).trans
      ((congrArg (attach _) hbs).trans (blocksWithoutEnds_attach _ _).symm)

theorem pairs_sequence (fuel : Nat) : BodyAgrees f (sequence fuel) := by
  induction fuel with
  | zero => exact fun _ _ _ h => ⟨rfl, rfl, h, rfl⟩
  | succ fuel ih =>
    intro depth stop s h
    simp only [sequence, pairs_bind]
    refine (pairs_skipBlankLines h).imp fun _ _ t t' ht => ?_
    obtain ⟨-, ht, rfl⟩ := ht
    rw [pairs_lexer]
    refine .ite Iff.rfl (fun _ => ⟨rfl, rfl, ht, rfl⟩) fun _ => ?_
    rw [pairs_bind]
    refine (pairs_block ht depth ih).imp fun r r' t₁ t₁' h₁ => ?_
    obtain ⟨hbs, ho, h₁, rfl⟩ := h₁
    have hrest {t₂ : ParserState} (h₂ : Settled f t₂) :
        Pairs (sequence fuel depth stop) (sequence fuel depth stop) t₂ t₂.inLf fun q q' t t' =>
          SameBlocks f (r.1 ++ q.1, r.2.worse q.2) (r'.1 ++ q'.1, r'.2.worse q'.2) t t' := by
      refine (ih depth stop t₂ h₂).imp fun q q' t₃ t₃' h₃ => ?_
      refine ⟨?_, congrArg₂ Outcome.worse ho h₃.2.1, h₃.2.2⟩
      simp only [blocksWithoutEnds_append, hbs, h₃.1]
    rw [pairs_bind, pairs_offset]
    refine .ite Iff.rfl (fun _ => ?_) fun _ => hrest h₁
    rw [pairs_bind]
    refine (pairs_finishLine h₁).imp fun _ _ t₂ t₂' h₂ => ?_
    obtain ⟨-, h₂, rfl⟩ := h₂
    exact hrest h₂

end Parse

/-! ## Whole files -/

/-- Replacing every line feed by a pair gives pairs only. -/
theorem paired_replaceByte {text : Bytes} (noReturn : ('\r' : UInt8) ∉ text) :
    (∀ i, (Bytes.replaceByte '\n' "\r\n" text).getD i 0 = '\n' →
      0 < i ∧ (Bytes.replaceByte '\n' "\r\n" text).getD (i - 1) 0 = '\r') ∧
    ∀ i, (Bytes.replaceByte '\n' "\r\n" text).getD i 0 = '\r' →
      (Bytes.replaceByte '\n' "\r\n" text).getD (i + 1) 0 = '\n' := by
  -- By induction on the text; a line feed becomes two bytes, all else stays one byte.
  induction text with
  | nil =>
    have hnil (i : Nat) : ([] : Bytes).getD i 0 = 0 := rfl
    exact ⟨fun i h => absurd ((hnil i).symm.trans h) (by decide),
      fun i h => absurd ((hnil i).symm.trans h) (by decide)⟩
  | cons b text ih =>
    rw [List.mem_cons, not_or] at noReturn
    obtain ⟨feed, carriage⟩ := ih noReturn.2
    have hcons : Bytes.replaceByte '\n' "\r\n" (b :: text)
        = (if b = '\n' then ("\r\n" : Bytes) else [b]) ++ Bytes.replaceByte '\n' "\r\n" text := rfl
    rw [hcons]
    generalize Bytes.replaceByte '\n' "\r\n" text = rest at feed carriage
    split
    · constructor
      · rintro (_ | _ | i) h
        · cases h
        · exact ⟨Nat.one_pos, rfl⟩
        · obtain ⟨hpos, hreturn⟩ := feed i h
          obtain ⟨j, rfl⟩ := Nat.exists_eq_succ_of_ne_zero (Nat.ne_of_gt hpos)
          exact ⟨Nat.succ_pos _, hreturn⟩
      · rintro (_ | _ | i) h
        · rfl
        · cases h
        · exact carriage i h
    · next hb =>
      constructor
      · rintro (_ | i) h
        · exact absurd h hb
        · obtain ⟨hpos, hreturn⟩ := feed i h
          obtain ⟨j, rfl⟩ := Nat.exists_eq_succ_of_ne_zero (Nat.ne_of_gt hpos)
          exact ⟨Nat.succ_pos _, hreturn⟩
      · rintro (_ | i) h
        · exact absurd h.symm noReturn.1
        · exact carriage i h

theorem File.paired_of_bytes {text : Bytes} (hbytes : f.bytes = Bytes.replaceByte '\n' "\r\n" text)
    (noReturn : ('\r' : UInt8) ∉ text) : f.Paired := by
  obtain ⟨feed, carriage⟩ := paired_replaceByte noReturn
  have hget (i : Nat) : f.content.getD i 0 = f.bytes.getD i 0 := by
    simp [File.bytes, Array.getD_eq_getD_getElem?, List.getD_eq_getElem?_getD]
  rw [← hbytes] at feed carriage
  constructor
  · intro i hi
    rw [hget] at hi ⊢
    exact feed i hi
  · intro i hi
    rw [hget] at hi ⊢
    exact carriage i hi

/-- A file that comes from a text without carriage returns by putting a pair of a carriage return
and a line feed for every line feed is parsed alike in both layouts: the documents agree up to the
ends of headers, of matches and of what encloses them, and outcome and reports are the same. -/
theorem parse_agrees_in_lf (f : File) (text : Bytes)
    (hbytes : f.bytes = Bytes.replaceByte '\n' "\r\n" text) (noReturn : ('\r' : UInt8) ∉ text)
    (small : f.size < Word.modulus) (indentWidth maxErrors : Nat) :
    let crlf := parse f ⟨.crlf, indentWidth⟩ maxErrors
    let lf := parse f ⟨.lf, indentWidth⟩ maxErrors
    crlf.document.withoutEnds = lf.document.withoutEnds ∧ crlf.outcome = lf.outcome ∧
      crlf.diagnostics = lf.diagnostics := by
  have hpaired := File.paired_of_bytes hbytes noReturn
  have hin : Cursor.In (.ofFile f) f := ⟨rfl, rfl, rfl, Nat.zero_le _, small⟩
  have hstart : Settled f { lexer := .ofFile f ⟨.crlf, indentWidth⟩ } := by
    refine ⟨⟨hin, fun d hd => by simp at hd⟩, hin, hpaired, rfl, fun hfeed => ?_⟩
    exact absurd (hpaired.feed 0 hfeed).1 (Nat.lt_irrefl 0)
  obtain ⟨hblocks, houtcome, -, hstate⟩ := Parse.pairs_sequence (f.size + 1) 0 0 _ hstart
  refine ⟨?_, houtcome.symm, ?_⟩
  · exact congrArg (Document.mk f.id) hblocks
  · have hlog := congrArg (fun s => keepErrors maxErrors s.log.toList) hstate
    exact hlog.symm

/-- A header with a choice, a match with an arm, an attribute, a fenced block and a report. -/
theorem parse_agrees_in_lf_mixed :
    let text : Bytes := "# Day\n- @if(a) b -> c\n@\x7bx\x7d if\n  - d\n@tag(1\n```\ne\n```\n"
    let f := File.ofBytes 0 "a.story" (Bytes.replaceByte '\n' "\r\n" text)
    let crlf := parse f ⟨.crlf, 2⟩ 0
    let lf := parse f ⟨.lf, 2⟩ 0
    f.bytes = Bytes.replaceByte '\n' "\r\n" text ∧ ('\r' : UInt8) ∉ text ∧ f.size < Word.modulus ∧
      crlf.document.withoutEnds = lf.document.withoutEnds ∧ crlf.outcome = lf.outcome ∧
        crlf.diagnostics = lf.diagnostics :=
  ⟨rfl, by decide +kernel, by decide +kernel,
    parse_agrees_in_lf _ _ rfl (by decide +kernel) (by decide +kernel) 2 0⟩

end Storyline.Markup
