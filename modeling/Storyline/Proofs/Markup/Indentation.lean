import Storyline.Proofs.Markup.Agreement
import Storyline.Proofs.Markup.Extents
import Storyline.Proofs.Markup.Lifted
import Storyline.Proofs.Markup.LineStarts
import Storyline.Proofs.Markup.Termination

/-!
# Indentation decides nesting

Blocks that are read at a depth begin on lines that are indented by at least as many levels, and
what is below a choice or a match begins on lines that are indented by one level more
(`Block.Indented`); only the diverts taken out of a choice's own line stay on it.  Reading leaves off
where the file ends, or at the start of a line with text on it that is indented less or starts with
a header that belongs further up (`Parse.sequence_indented`).

Every parser starts on a line and leaves off at the start of one (`Fresh`), wherever on the line it
was when it was done with its text.  In between it stays on its line (`Amid`), so that the depth that
was looked at when the line started is the depth of the line that its block begins on.
-/

namespace Storyline.Markup

variable {f : File} {layout : Layout} {s t : ParserState} {start : Nat}

/-! ## Blocks on indented lines -/

/-- A span that begins on a line of at least `depth` levels. -/
def Span.Indented (f : File) (layout : Layout) (depth : Nat) (span : Span) : Prop :=
  (depth : Int) ≤ lineDepth f layout span.start

mutual

/-- A block that was read at a depth, with everything below it: it begins on a line that is indented
by at least that many levels. -/
inductive Block.Indented (f : File) (layout : Layout) : (depth : Nat) → Block → Prop
  | paragraph {depth : Nat} {p : Paragraph} (here : Span.Indented f layout depth p.span) :
    Block.Indented f layout depth (.paragraph p)
  | code {depth : Nat} {c : CodeBlock} (here : Span.Indented f layout depth c.span) :
    Block.Indented f layout depth (.code c)
  | divert {depth : Nat} {d : Divert} (here : Span.Indented f layout depth d.span) :
    Block.Indented f layout depth (.divert d)
  | choices {depth : Nat} {cs : List Choice} {as : List Attribute} {span : Span}
      (here : Span.Indented f layout depth span)
      (all : ∀ c ∈ cs, Choice.Indented f layout depth c) :
    Block.Indented f layout depth (.choices cs as span)
  /-- What is below a match was read one level deeper. -/
  | branch {depth : Nat} {line : MatchLine} {arms : List Choice} {children : List Block}
      (here : Span.Indented f layout depth line.span)
      (inArms : ∀ c ∈ arms, Choice.Indented f layout (depth + 1) c)
      (below : ∀ b ∈ children, Block.Indented f layout (depth + 1) b) :
    Block.Indented f layout depth (.branch line arms children)
  | header {depth : Nat} {heading : Heading} {children : List Block}
      (here : Span.Indented f layout depth heading.span)
      (below : ∀ b ∈ children, Block.Indented f layout depth b) :
    Block.Indented f layout depth (.header heading children)

/-- A choice that was read at a depth: the diverts of its own line come before the blocks below it,
which were read one level deeper. -/
inductive Choice.Indented (f : File) (layout : Layout) : (depth : Nat) → Choice → Prop
  | mk {depth : Nat} {line : ChoiceLine} {lifted : List Divert} {children : List Block}
      (here : Span.Indented f layout depth line.span)
      (own : ∀ d ∈ lifted, lineStart f layout d.span.start = lineStart f layout line.span.start)
      (below : ∀ b ∈ children, Block.Indented f layout (depth + 1) b) :
    Choice.Indented f layout depth (.mk line (lifted.map .divert ++ children))

end

/-- Blocks that were read at a depth. -/
def AllIndented (f : File) (layout : Layout) (depth : Nat) (bs : List Block) : Prop :=
  ∀ b ∈ bs, b.Indented f layout depth

variable {depth : Nat} {bs : List Block}

theorem Block.Indented.withAttrs {b : Block} (h : b.Indented f layout depth) (as : List Attribute) :
    (b.withAttrs as).Indented f layout depth := by
  cases h with
  | paragraph here => exact .paragraph here
  | code here => exact .code here
  | divert here => exact .divert here
  | choices here all => exact .choices here all
  | branch here inArms below => exact .branch here inArms below
  | header here below => exact .header here below

namespace AllIndented

theorem nil : AllIndented f layout depth [] := List.forall_mem_nil _

theorem single {b : Block} (h : b.Indented f layout depth) : AllIndented f layout depth [b] :=
  List.forall_mem_singleton.mpr h

theorem append {cs : List Block} (hb : AllIndented f layout depth bs)
    (hc : AllIndented f layout depth cs) : AllIndented f layout depth (bs ++ cs) :=
  fun b h => (List.mem_append.mp h).elim (hb b) (hc b)

theorem attach (h : AllIndented f layout depth bs) (as : List Attribute) :
    AllIndented f layout depth (Parse.attach as bs) := by
  cases bs with
  | nil => exact h
  | cons b bs =>
    obtain ⟨hb, hbs⟩ := List.forall_mem_cons.mp h
    exact List.forall_mem_cons.mpr ⟨hb.withAttrs as, hbs⟩

/-- The arms of a match are the choices below it. -/
theorem arms (h : AllIndented f layout depth bs) :
    ∀ c ∈ bs.flatMap fun | .choices cs .. => cs | _ => [], c.Indented f layout depth := by
  intro c hc
  obtain ⟨b, hb, hc⟩ := List.mem_flatMap.mp hc
  cases h b hb with
  | choices here all => exact all c hc
  | paragraph | code | divert | branch | header => cases hc

end AllIndented

/-! ## States on lines -/

/-- A state in a file that is read in a layout. -/
structure Sits (f : File) (layout : Layout) (s : ParserState) : Prop where
  stands : Stands f s
  reads : s.lexer.layout = layout

/-- A state where a line starts or the file ends. -/
structure Fresh (f : File) (layout : Layout) (s : ParserState) : Prop extends Sits f layout s where
  begins : Begins f layout s.lexer.cursor.offset

/-- A state on the line that starts at `start`. -/
structure Amid (f : File) (layout : Layout) (start : Nat) (s : ParserState) : Prop
    extends Sits f layout s where
  onLine : OnLine f layout start s.lexer.cursor.offset

/-- A state behind the text of a line. -/
structure Done (f : File) (layout : Layout) (s : ParserState) : Prop extends Sits f layout s where
  ended : s.lexer.atLineEnd = true

/-- A state on a line of at least `depth` levels. -/
def Opens (f : File) (layout : Layout) (depth : Nat) (s : ParserState) : Prop :=
  ∃ start, Amid f layout start s ∧ (depth : Int) ≤ (lexerAt f layout start).indentDepth

theorem Sits.lexer (h : Sits f layout s) : s.lexer.In f layout := ⟨h.stands.cursor, h.reads⟩

/-- On its line a state can be left for a later one. -/
theorem Amid.move (h : Amid f layout start s) (ht : Sits f layout t)
    (hle : s.lexer.cursor.offset ≤ t.lexer.cursor.offset)
    (hn : t.lexer.cursor.offset ≤ s.lexer.lineEnd) : Amid f layout start t :=
  ⟨ht, h.onLine.move h.lexer hle hn⟩

/-- What begins on the line of a state is indented as the line is. -/
theorem Amid.indented (h : Amid f layout start s)
    (hdeep : (depth : Int) ≤ (lexerAt f layout start).indentDepth) {span : Span}
    (hspan : OnLine f layout start span.start) : Span.Indented f layout depth span := by
  rwa [Span.Indented, hspan.lineDepth_eq h.stands.cursor.small]

theorem Opens.indented (h : Opens f layout depth s) (stop : Nat) :
    Span.Indented f layout depth (s.lexer.cursor.spanAt s.lexer.cursor.offset stop) := by
  obtain ⟨start, hs, hdeep⟩ := h
  exact hs.indented hdeep hs.onLine

theorem Opens.sits (h : Opens f layout depth s) : Sits f layout s := by
  obtain ⟨start, hs, -⟩ := h
  exact hs.toSits

theorem Fresh.log (h : Fresh f layout s) (d : Array Diagnostic) :
    Fresh f layout { s with log := d } :=
  ⟨⟨⟨h.stands.cursor, h.stands.lifted⟩, h.reads⟩, h.begins⟩

/-- Blank lines are skipped up to the start of a line. -/
theorem Fresh.skipBlankLines (h : Fresh f layout s) :
    Fresh f layout { s with lexer := s.lexer.skipBlankLines } where
  stands := (h.stands.ahead (d := s.log) (Lexer.skipBlankLines_ahead h.stands.cursor)).stands
  reads := s.lexer.skipBlankLines_layout.trans h.reads
  begins := h.lexer.begins_skipBlankLines h.begins

/-- The indentation is on the line that it starts. -/
theorem Fresh.skipIndent (h : Fresh f layout s) (hend : s.lexer.cursor.atEnd = false)
    (hdeep : (depth : Int) ≤ s.lexer.indentDepth) :
    Opens f layout depth { s with lexer := s.lexer.skipIndent } := by
  have hlt := (Lexer.not_atEnd_iff h.stands.cursor).mp hend
  have hstarts := h.begins.resolve_right (Nat.ne_of_lt hlt)
  have hline : Amid f layout s.lexer.cursor.offset s := ⟨h.toSits, h.lexer.onLine hstarts⟩
  have hindent := h.stands.ahead (d := s.log) (Lexer.skipIndent_ahead h.stands.cursor)
  refine ⟨_, hline.move ⟨hindent.stands, h.reads⟩ hindent.forward ?_, ?_⟩
  · exact Lexer.run_le h.stands.cursor fun _ => Lexer.isPlain_of_isGap
  · rwa [← h.lexer.indentDepth]

namespace Parse

/-! ## Lines -/

variable {α : Type} {m : Parse α}

/-- A run keeps the file and the layout. -/
theorem sits_run (h : Sits f layout s) (hm : Ends m s fun _ t => Reaches f s t)
    (hk : Keeps SameLayout m) : Ends m s fun _ t => Sits f layout t :=
  (hm.and (hk s)).imp fun _ _ ht => ⟨ht.1.stands, ht.2.trans h.reads⟩

/-- A run that goes no further than the end of its line stays on it. -/
theorem amid_run (h : Amid f layout start s) (hm : Ends m s fun _ t => Reaches f s t)
    (hk : Keeps SameLayout m) (hle : Ends m s fun _ t => EndsBy s.lexer.lineEnd t) :
    Ends m s fun _ t => Amid f layout start t :=
  (((sits_run h.toSits hm hk).and hm).and hle).imp fun _ _ ht => h.move ht.1.1 ht.1.2.forward ht.2

theorem amid_skipSpaces (h : Amid f layout start s) :
    Ends skipSpaces s fun _ t => Amid f layout start t :=
  amid_run h (ends_skipSpaces h.stands) keeps_skipSpaces
    (Lexer.run_le h.stands.cursor fun _ => Lexer.isPlain_of_isGap)

theorem fresh_finishLine (h : Sits f layout s) : Ends finishLine s fun _ t => Fresh f layout t :=
  ⟨sits_run h (ends_finishLine h.stands) keeps_finishLine, h.lexer.begins_skipLine⟩

theorem done_restOfLine (h : Sits f layout s) : Ends restOfLine s fun _ t => Done f layout t := by
  have hended : Ends restOfLine s fun _ t => t.lexer.atLineEnd = true := by
    simp only [restOfLine, ends_bind, ends_lexer, ends_moveTo]
    split
    · exact Lexer.atLineEnd_lineEnd h.stands.cursor
    · exact Lexer.atLineEnd_lineEnd h.stands.cursor
  exact ((sits_run h (ends_restOfLine h.stands) keeps_restOfLine).and hended).imp
    fun _ _ ht => ⟨ht.1, ht.2⟩

theorem done_matchMode (h : Done f layout s) (modifier : Bytes) (span : Span) :
    Ends (matchMode modifier span) s fun _ t => Done f layout t := by
  have hended : Ends (matchMode modifier span) s fun _ t => t.lexer.atLineEnd = true := by
    rw [matchMode]
    split
    · exact h.ended
    split
    · exact h.ended
    split
    · exact h.ended
    · exact h.ended
  exact ((sits_run h.toSits (ends_matchMode h.stands _ _) (keeps_matchMode _ _)).and hended).imp
    fun _ _ ht => ⟨ht.1, ht.2⟩

theorem fresh_eatLineEnding (h : Done f layout s) :
    Ends eatLineEnding s fun _ t => Fresh f layout t :=
  ⟨sits_run h.toSits (ends_eatLineEnding h.stands) keeps_eatLineEnding,
    h.lexer.begins_eatLineEnding h.ended⟩

/-! ## Attributes -/

theorem reaches_takeAttribute (h : Stands f s) :
    Ends takeAttribute s fun _ t => Reaches f s t := by
  refine (ends_takeAttribute h).imp fun r t ht => ?_
  cases r with
  | none =>
    rw [show t = s from ht]
    exact .refl h
  | some found => exact ht.1

/-- Parameters end on their line. -/
theorem parameters_le : Ends parameters s fun _ t => EndsBy s.lexer.textEnd t := by
  simp only [parameters, ends_bind, ends_lexer]
  split
  · next close hc => exact (Cursor.closeOffset?_lt hc).2
  · exact Nat.le_refl s.lexer.textEnd

/-- An attribute ends on the line that it starts on. -/
theorem takeAttribute_le (h : Stands f s) :
    Ends takeAttribute s fun _ t => EndsBy s.lexer.lineEnd t := by
  simp only [takeAttribute, ends_bind, ends_cursor]
  split
  · exact (Lexer.lineEnd_within h.cursor).1
  · next hc =>
    have hat : s.lexer.cursor.peek = '@' := by simp at hc; exact hc.1
    have hlt := Cursor.lt_of_peek h.cursor hat (by decide)
    have hsign := Nat.le_trans (Lexer.succ_le_textEnd h.cursor hat (by decide) (by decide))
      s.lexer.textEnd_le_lineEnd
    have hin : (s.lexer.moveTo (s.lexer.cursor.offset + 1)).cursor.In f := h.cursor.moved hlt
    have hname : (s.lexer.cursor.next.skipWhile isNamePart).offset ≤ s.lexer.lineEnd := by
      rw [Cursor.next_eq h.cursor hlt, ← Lexer.lineEnd_moveTo h.cursor (Nat.le_succ _) hsign]
      exact Lexer.run_le hin fun _ => Lexer.isPlain_of_isNamePart
    have hbehind : s.lexer.cursor.offset ≤ (s.lexer.cursor.next.skipWhile isNamePart).offset :=
      ((Cursor.next_ahead h.cursor).trans
        (Cursor.skipWhile_ahead (Cursor.next_ahead h.cursor).here isNamePart)).forward
    rw [ends_bind, ends_moveTo]
    split
    · rw [ends_bind, ← Lexer.lineEnd_moveTo h.cursor hbehind hname]
      exact parameters_le.imp fun _ _ ht => Nat.le_trans ht (Lexer.textEnd_le_lineEnd _)
    · exact hname

theorem amid_takeAttribute (h : Amid f layout start s) :
    Ends takeAttribute s fun _ t => Amid f layout start t :=
  amid_run h (reaches_takeAttribute h.stands) keeps_takeAttribute (takeAttribute_le h.stands)

theorem fresh_attributeLine (h : Fresh f layout s) :
    Ends attributeLine s fun _ t => Fresh f layout t := by
  have hindent := h.stands.ahead (d := s.log) (Lexer.skipIndent_ahead h.stands.cursor)
  have hsits : Sits f layout { s with lexer := s.lexer.skipIndent } := ⟨hindent.stands, h.reads⟩
  simp only [attributeLine, ends_bind, ends_get, ends_mapLexer]
  refine (sits_run hsits (reaches_takeAttribute hsits.stands) keeps_takeAttribute).imp
    fun r s₁ h₁ => ?_
  cases r with
  | none => exact h
  | some found =>
    simp only [ends_bind, ends_offset, ends_textEnd]
    refine (sits_run h₁ (ends_skipSpaces h₁.stands) keeps_skipSpaces).imp fun _ s₂ h₂ => ?_
    split
    · exact fresh_finishLine h₂
    · exact h

theorem fresh_attributeLines (fuel depth : Nat) (h : Fresh f layout s) :
    Ends (attributeLines fuel depth) s fun _ t => Fresh f layout t := by
  induction fuel generalizing s with
  | zero => exact h
  | succ fuel ih =>
    simp only [attributeLines, ends_bind, ends_mapLexer, ends_lexer]
    split
    · exact h.skipBlankLines
    · rw [ends_bind]
      refine (fresh_attributeLine h.skipBlankLines).imp fun r s₁ h₁ => ?_
      cases r with
      | none => exact h₁
      | some found => exact ih h₁

/-! ## Text -/

/-- The rest of a line is read without leaving it, and the diverts taken out of it are on it. -/
theorem amid_lineText (h : Amid f layout start s) :
    Ends lineText s fun r t =>
      Amid f layout start t ∧ ∀ d ∈ r.2.1, OnLine f layout start d.span.start := by
  have hle := (lineText_le h.stands).imp fun _ _ ht => Nat.le_trans ht s.lexer.textEnd_le_lineEnd
  have hreach := (ends_lineText h.stands).imp fun _ _ ht => ht.1
  refine (((amid_run h hreach keeps_lineText hle).and (queue_lineText h.stands)).and hle).imp
    fun r t ht => ⟨ht.1.1, fun d hd => ?_⟩
  have hlies := ht.1.2.lies d hd
  exact h.onLine.move h.lexer hlies.start
    (Nat.le_trans hlies.ordered (Nat.le_trans hlies.stop ht.2))

/-! ## Single blocks -/

/-- A parser of blocks that starts and leaves off where lines start, and reads at a depth. -/
def Indents (f : File) (layout : Layout) (body : BodyParser) : Prop :=
  ∀ depth stop s, Fresh f layout s →
    Ends (body depth stop) s fun r t => Fresh f layout t ∧ AllIndented f layout depth r.1

variable {body : BodyParser}

theorem indents_header (h : Opens f layout depth s) (hbody : Indents f layout body) :
    Ends (header body depth) s fun r t => Fresh f layout t ∧ r.1.Indented f layout depth := by
  have hs := h.sits
  have hskip := hs.stands.ahead (d := s.log) (l := { s.lexer with cursor := s.lexer.cursor.skip _ })
    (Cursor.skip_ahead hs.stands.cursor (Cursor.runLength_bound hs.stands.cursor (· = '#')))
  have hmarks : Sits f layout _ := ⟨hskip.stands, hs.reads⟩
  simp only [header, ends_bind, ends_cursor, ends_mapCursor, ends_offset]
  refine (sits_run hmarks (ends_eat hmarks.stands ' ') (keeps_eat _)).imp fun _ s₁ h₁ => ?_
  refine (done_restOfLine h₁).imp fun _ s₂ h₂ => ?_
  refine (fresh_eatLineEnding h₂).imp fun _ s₃ h₃ => ?_
  refine (hbody depth _ s₃ h₃).imp fun r s₄ h₄ => ⟨h₄.1, .header ?_ h₄.2⟩
  exact h.indented _

theorem indents_codeBlock (h : Opens f layout depth s)
    (hp : s.lexer.cursor.hasPrefix [0x60, 0x60, 0x60]) :
    Ends codeBlock s fun r t => Fresh f layout t ∧ r.1.Indented f layout depth := by
  have hs := h.sits
  have hskip := hs.stands.ahead (d := s.log) (l := { s.lexer with cursor := s.lexer.cursor.skip 3 })
    (Cursor.skip_ahead hs.stands.cursor (Cursor.hasPrefix_bound hs.stands.cursor hp))
  have hfence : Sits f layout _ := ⟨hskip.stands, hs.reads⟩
  simp only [codeBlock, ends_bind, ends_cursor, ends_mapCursor]
  refine (done_restOfLine hfence).imp fun _ s₁ h₁ => ?_
  refine (fresh_eatLineEnding h₁).imp fun _ s₂ h₂ => ?_
  have hin := h₂.stands.cursor
  -- with a closing fence the next line is read next, without one the file is at its end
  split
  · next code behind hc =>
    rw [Cursor.consumeUntil?, Option.map_eq_some_iff] at hc
    obtain ⟨i, hi, hc⟩ := hc
    obtain ⟨-, rfl⟩ := Prod.mk.inj hc
    obtain ⟨hle, hfit⟩ := Cursor.positionOf?_within hin hi
    have hm := h₂.stands.moveTo (d := s₂.log) (Nat.le_trans hle (Nat.le_add_right i 3)) hfit
    simp only [ends_bind, ends_moveTo]
    refine (fresh_finishLine ⟨hm.stands, h₂.reads⟩).imp fun _ s₃ h₃ => ⟨h₃, .code ?_⟩
    exact h.indented _
  · have hrest := Cursor.rest_ahead hin s₂.lexer.cursor.limit
    have hend : (s₂.lexer.cursor.rest s₂.lexer.cursor.limit).2.offset = f.size := by
      have := hin.within
      rw [Cursor.rest, Nat.min_self, hin.limit]
      split
      · show s₂.lexer.cursor.offset = f.size
        omega
      · rfl
    have hm := h₂.stands.moveTo (d := s₂.log) hrest.forward hrest.here.within
    simp only [ends_bind, ends_unclosed, ends_complain, ends_moveTo, ends_pure]
    exact ⟨⟨⟨⟨hm.stands.cursor, hm.stands.lifted⟩, h₂.reads⟩, .inr hend⟩, .code (h.indented _)⟩

theorem indents_branch (h : Opens f layout depth s) (hp : s.lexer.cursor.hasPrefix [0x40, 0x7B])
    (hbody : Indents f layout body) :
    Ends (branch body depth) s fun r t => Fresh f layout t ∧ r.1.Indented f layout depth := by
  have hs := h.sits
  have hcondition := (ends_matchCondition hs.stands hp).imp fun _ _ ht => ht.1
  simp only [branch, ends_bind, ends_cursor, ends_offset]
  refine (sits_run hs hcondition keeps_matchCondition).imp fun _ s₁ h₁ => ?_
  refine (done_restOfLine h₁).imp fun _ s₂ h₂ => ?_
  refine (done_matchMode h₂ _ _).imp fun _ s₃ h₃ => ?_
  refine (fresh_eatLineEnding h₃).imp fun _ s₄ h₄ => ?_
  refine (hbody (depth + 1) 0 s₄ h₄).imp fun r s₅ h₅ => ⟨h₅.1, .branch ?_ h₅.2.arms ?_⟩
  · exact h.indented _
  · exact fun b hb => h₅.2 b (List.mem_of_mem_filter hb)

theorem indents_paragraph (h : Opens f layout depth s) :
    Ends paragraph s fun r t => Fresh f layout t ∧ AllIndented f layout depth r.1 := by
  obtain ⟨start, hs, hdeep⟩ := h
  simp only [paragraph, ends_bind, ends_cursor, ends_offset]
  refine (amid_lineText hs).imp fun r s₁ h₁ => ?_
  refine (fresh_finishLine h₁.1.toSits).imp fun _ s₂ h₂ => ⟨h₂, .append ?_ ?_⟩
  · split
    · exact .nil
    · exact .single (.paragraph (hs.indented hdeep hs.onLine))
  · intro b hb
    obtain ⟨d, hd, rfl⟩ := List.mem_map.mp hb
    exact .divert (hs.indented hdeep (h₁.2 d hd))

/-! ## Choices -/

theorem amid_choiceAttribute (h : Amid f layout start s) (head : ChoiceHead) (a : Attribute) :
    Ends (choiceAttribute head a) s fun _ t => Amid f layout start t := by
  refine amid_run h (reaches_choiceAttribute h.stands head a) (keeps_choiceAttribute head a) ?_
  have hle := (Lexer.lineEnd_within h.stands.cursor).1
  rw [choiceAttribute]
  split
  · split
    · exact hle
    · exact hle
  · exact hle

theorem amid_choiceHead (fuel : Nat) (h : Amid f layout start s) (head : ChoiceHead) :
    Ends (choiceHead fuel head) s fun _ t => Amid f layout start t := by
  induction fuel generalizing s head with
  | zero => exact h
  | succ fuel ih =>
    simp only [choiceHead, ends_bind]
    refine (amid_takeAttribute h).imp fun r s₁ h₁ => ?_
    cases r with
    | none => exact h₁
    | some found =>
      simp only [ends_bind]
      refine (amid_choiceAttribute h₁ _ _).imp fun head s₂ h₂ => ?_
      exact (amid_skipSpaces h₂).imp fun _ s₃ h₃ => ih h₃ head

theorem indents_choice (h : Opens f layout depth s) (hdash : s.lexer.cursor.peek = '-')
    (hbody : Indents f layout body) :
    Ends (choice body depth) s fun r t => Fresh f layout t ∧ r.1.Indented f layout depth := by
  obtain ⟨start, hs, hdeep⟩ := h
  have hlt := Cursor.lt_of_peek hs.stands.cursor hdash (by decide)
  have hnext := hs.stands.nextOn hlt
  have hbehind := hs.move ⟨hnext.stands, hs.reads⟩ (Nat.le_of_lt hnext.onward) (by
    show s.lexer.cursor.next.offset ≤ s.lexer.lineEnd
    rw [Cursor.next_offset hs.stands.cursor hlt]
    exact Nat.le_trans (Lexer.succ_le_textEnd hs.stands.cursor hdash (by decide) (by decide))
      s.lexer.textEnd_le_lineEnd)
  simp only [choice, ends_bind, ends_cursor, ends_mapCursor, ends_offset]
  refine (amid_skipSpaces hbehind).imp fun _ s₁ h₁ => ?_
  refine (amid_choiceHead _ h₁ {}).imp fun head s₂ h₂ => ?_
  refine (amid_lineText h₂).imp fun r s₃ h₃ => ?_
  refine (fresh_finishLine h₃.1.toSits).imp fun _ s₄ h₄ => ?_
  -- the blocks below are one deeper than the dash
  have hbelow (s₅ : ParserState) (h₅ : Fresh f layout s₅) :
      Ends (body (depth + 1) 0) s₅ fun b t => Fresh f layout t ∧ Choice.Indented f layout depth (.mk
        { text := r.1, condition := head.condition, attrs := head.attrs.toList
          span := s.lexer.cursor.spanAt s.lexer.cursor.offset
            (reach s₃.lexer.cursor.offset b.1) }
        (r.2.1.map .divert ++ b.1)) := by
    refine (hbody (depth + 1) 0 s₅ h₅).imp fun b s₆ h₆ => ⟨h₆.1, .mk ?_ (fun d hd => ?_) h₆.2⟩
    · exact hs.indented hdeep hs.onLine
    · have hsmall := hs.stands.cursor.small
      exact ((h₃.2 d hd).lineStart_eq hsmall).trans (hs.onLine.lineStart_eq hsmall).symm
  split
  · exact hbelow _ (h₄.log _)
  · exact hbelow _ h₄

/-- A further choice starts on a line of the same depth; where there is none a line starts. -/
theorem opens_nextChoice (h : Fresh f layout s) (depth : Nat) :
    Ends (nextChoice depth) s fun more t =>
      if more then Opens f layout depth t ∧ t.lexer.cursor.peek = '-' else Fresh f layout t := by
  have hblank := h.skipBlankLines
  simp only [nextChoice, ends_bind, ends_mapLexer, ends_lexer]
  split
  · next hc =>
    simp only [Bool.and_eq_true, Bool.not_eq_true', decide_eq_true_eq] at hc
    obtain ⟨⟨hend, hdepth⟩, hopening⟩ := hc
    have hmarked := BlockOpening.ofCursor_marked s.lexer.skipBlankLines.skipIndent.cursor
    rw [hopening] at hmarked
    exact ⟨hblank.skipIndent hend (Int.le_of_eq hdepth.symm), hmarked⟩
  · exact hblank

/-- A choice takes at least its dash. -/
theorem passes_choice (h : Stands f s) (hdash : s.lexer.cursor.peek = '-')
    (hstand : ∀ depth stop s, Stands f s → Ends (body depth stop) s (ReadBlocks f s)) :
    Ends (choice body depth) s fun _ t => Passes f s t := by
  have hnext := h.nextOn (Cursor.lt_of_peek h.cursor hdash (by decide))
  simp only [choice, ends_bind, ends_cursor, ends_mapCursor, ends_offset]
  refine (ends_skipSpaces hnext.stands).imp fun _ s₁ h₁ => ?_
  refine (ends_choiceHead _ h₁.stands ChoiceHead.known_empty).imp fun head s₂ h₂ => ?_
  refine (ends_lineText h₂.1.stands).imp fun r s₃ h₃ => ?_
  refine (ends_finishLine h₃.1.stands).imp fun _ s₄ h₄ => ?_
  have hline := (((hnext.trans h₁).trans h₂.1).trans h₃.1).trans h₄
  have hbelow (s₅ : ParserState) (h₅ : Reaches f s₄ s₅) :
      Ends (body (depth + 1) 0) s₅ fun _ t => Passes f s t :=
    (hstand (depth + 1) 0 s₅ h₅.stands).imp fun _ _ h₆ => hline.trans (h₅.trans h₆.1)
  split
  · exact hbelow _ (h₄.stands.ahead (.refl h₄.stands.cursor))
  · exact hbelow _ (.refl h₄.stands)

theorem indents_choiceList (fuel : Nat) (h : Opens f layout depth s)
    (hdash : s.lexer.cursor.peek = '-') (hfuel : f.size ≤ s.lexer.cursor.offset + fuel)
    (hstand : ∀ depth stop s, Stands f s → Ends (body depth stop) s (ReadBlocks f s))
    (hbody : Indents f layout body) :
    Ends (choiceList body fuel depth) s fun r t =>
      Fresh f layout t ∧ ∀ c ∈ r.1, c.Indented f layout depth := by
  have hs := h.sits.stands
  have hlt := Cursor.lt_of_peek hs.cursor hdash (by decide)
  -- By induction on the fuel; every choice moves on, so that it lasts.
  induction fuel generalizing s with
  | zero => omega
  | succ fuel ih =>
    simp only [choiceList, ends_bind]
    refine ((indents_choice h hdash hbody).and (passes_choice hs hdash hstand)).imp
      fun r s₁ h₁ => ?_
    refine ((opens_nextChoice h₁.1.1 depth).and (ends_nextChoice h₁.2.stands depth)).imp
      fun more s₂ h₂ => ?_
    split
    · next hmore =>
      obtain ⟨hopens, hdash'⟩ := (if_pos hmore).mp h₂.1
      have := (h₁.2.trans h₂.2).onward
      have hlt' := Cursor.lt_of_peek hopens.sits.stands.cursor hdash' (by decide)
      rw [ends_bind]
      refine (ih hopens hdash' (by omega) hopens.sits.stands hlt').imp fun r' s₃ h₃ => ?_
      exact ⟨h₃.1, List.forall_mem_cons.mpr ⟨h₁.1.2, h₃.2⟩⟩
    -- without another choice the list is done, at its own depth
    · next hmore =>
      exact ⟨(if_neg hmore).mp h₂.1, List.forall_mem_singleton.mpr h₁.1.2⟩

theorem indents_choices (h : Opens f layout depth s) (hdash : s.lexer.cursor.peek = '-')
    (hstand : ∀ depth stop s, Stands f s → Ends (body depth stop) s (ReadBlocks f s))
    (hbody : Indents f layout body) :
    Ends (choices body depth) s fun r t => Fresh f layout t ∧ r.1.Indented f layout depth := by
  simp only [choices, ends_bind, ends_cursor]
  refine (indents_choiceList _ h hdash ?_ hstand hbody).imp fun r s₁ h₁ =>
    ⟨h₁.1, .choices (h.indented _) h₁.2⟩
  rw [h.sits.stands.cursor.limit]
  omega

/-! ## Sequences -/

theorem indents_openedBlock (h : Opens f layout depth s)
    (hstand : ∀ depth stop s, Stands f s → Ends (body depth stop) s (ReadBlocks f s))
    (hbody : Indents f layout body) :
    Ends (openedBlock body depth) s fun r t =>
      Fresh f layout t ∧ AllIndented f layout depth r.1 := by
  have single {m : Parse (Block × Outcome)}
      (hm : Ends m s fun r t => Fresh f layout t ∧ r.1.Indented f layout depth) :
      Ends m s fun r t => Fresh f layout t ∧ AllIndented f layout depth [r.1] :=
    hm.imp fun _ _ hr => ⟨hr.1, .single hr.2⟩
  have hfits := BlockOpening.ofCursor_fits s.lexer.cursor
  have hmarked := BlockOpening.ofCursor_marked s.lexer.cursor
  rw [openedBlock, ends_bind, ends_cursor]
  generalize BlockOpening.ofCursor s.lexer.cursor = o at hfits hmarked ⊢
  cases o with
  | header =>
    rw [ends_bind]
    exact single (indents_header h hbody)
  | code =>
    rw [ends_bind]
    exact single (indents_codeBlock h hfits)
  | branch =>
    rw [ends_bind]
    exact single (indents_branch h hfits hbody)
  | choices =>
    rw [ends_bind]
    exact single (indents_choices h hmarked hstand hbody)
  | paragraph => exact indents_paragraph h

theorem indents_block (h : Fresh f layout s) (depth : Nat)
    (hstand : ∀ depth stop s, Stands f s → Ends (body depth stop) s (ReadBlocks f s))
    (hbody : Indents f layout body) :
    Ends (block body depth) s fun r t => Fresh f layout t ∧ AllIndented f layout depth r.1 := by
  simp only [block, ends_bind, ends_cursor, ends_lexer]
  refine (fresh_attributeLines _ depth h).imp fun r s₁ h₁ => ?_
  split
  · split
    · exact ⟨h₁.log _, .nil⟩
    · exact ⟨h₁, .nil⟩
  · next hgo =>
    simp only [Bool.or_eq_true, decide_eq_true_eq, not_or, Bool.not_eq_true, Int.not_lt] at hgo
    simp only [ends_bind, ends_mapLexer]
    refine (indents_openedBlock (h₁.skipIndent hgo.1 hgo.2) hstand hbody).imp fun bs s₂ h₂ => ?_
    exact ⟨h₂.1, h₂.2.attach _⟩

theorem indents_sequence (fuel : Nat) : Indents f layout (sequence fuel) := by
  induction fuel with
  | zero => exact fun _ _ _ h => ⟨h, .nil⟩
  | succ fuel ih =>
    intro depth stop s h
    have hblank := h.skipBlankLines
    simp only [sequence, ends_bind, ends_mapLexer, ends_lexer]
    split
    · exact ⟨hblank, .nil⟩
    · simp only [ends_bind, ends_offset]
      refine (indents_block hblank depth (fun depth stop s hs => ends_sequence fuel depth stop hs)
        ih).imp fun r s₁ h₁ => ?_
      -- whatever ends this block, what follows is read at the same depth
      have hrest (s₂ : ParserState) (h₂ : Fresh f layout s₂) : Ends (sequence fuel depth stop) s₂
          fun r' t => Fresh f layout t ∧ AllIndented f layout depth (r.1 ++ r'.1) :=
        (ih depth stop s₂ h₂).imp fun r' s₃ h₃ => ⟨h₃.1, h₁.2.append h₃.2⟩
      split
      · rw [ends_bind]
        exact (fresh_finishLine h₁.1.toSits).imp fun _ s₂ h₂ => hrest s₂ h₂
      · exact hrest s₁ h₁.1

/-- With enough fuel reading stops in front of a line that is not blank. -/
theorem sequence_stops (fuel depth stop : Nat) (h : Stands f s)
    (hfuel : f.size < s.lexer.cursor.offset + fuel) :
    Ends (sequence fuel depth stop) s fun _ t =>
      (!t.lexer.cursor.atEnd && t.lexer.isBlankLine) = false := by
  induction fuel generalizing s with
  | zero =>
    have := h.cursor.within
    omega
  | succ fuel ih =>
    have hblank := h.ahead (d := s.log) (Lexer.skipBlankLines_ahead h.cursor)
    have hforward := hblank.forward
    simp only [sequence_succ, ends_bind, ends_mapLexer, ends_lexer]
    split
    · exact Lexer.skipBlankLines_stops h.cursor
    · next hgo =>
      simp only [Bool.or_eq_true, not_or, Bool.not_eq_true] at hgo
      have hlt := (Lexer.not_atEnd_iff hblank.stands.cursor).mp hgo.1.1
      have hbody : Unbounded.BodyFinishes f (sequence fuel)
          { s with lexer := s.lexer.skipBlankLines } := by
        intro depth stop s₁ h₁
        have := h₁.onward
        exact (Unbounded.finishes_sequence fuel depth stop h₁.stands (by omega)).imp
          fun _ _ h₂ => h₂.1
      -- a round gets on, so that there is fuel for the rounds behind it
      have hround : Ends (round (sequence fuel) depth) _ fun _ t => Passes f _ t :=
        (Unbounded.finishes_round hblank.stands hlt depth hbody).2
      simp only [ends_bind]
      refine hround.imp fun r s₁ h₁ => ?_
      have := h₁.onward
      exact ih h₁.stands (by omega)

end Parse

end Storyline.Markup
