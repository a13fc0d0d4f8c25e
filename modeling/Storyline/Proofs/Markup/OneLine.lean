import Storyline.Proofs.Markup.Agreement
import Storyline.Proofs.Markup.LineEnds

/-!
# Stories of one line

A file without line feeds whose first byte opens no other block is a single line of text.  Its
document is what `Parse.lineText` reads from the start of the line: a paragraph, unless the text is
empty, and the diverts taken out of the line.
-/

namespace Storyline

/-- Whether a byte at the start of a line starts a text. -/
def startsText (b : UInt8) : Bool :=
  !Bytes.isGap b && b != '\r' && b != 0 && b != '#' && b != 0x60 && b != 0x40 && b != '-'

/-- A file of a single line of text. -/
structure File.OneLine (f : File) : Prop where
  small : f.size < Word.modulus
  feeds : ('\n' : UInt8) ∉ f.bytes
  start : startsText (f.content.getD 0 0)
  last : f.content.getD (f.size - 1) 0 ≠ '\r'

namespace File.OneLine

open Markup

variable {f : File} {l : Lexer}

theorem byteAt_ne {c : Cursor} (h : OneLine f) (hc : c.In f) (i : Nat) : c.byteAt i ≠ '\n' := by
  intro hi
  by_cases hlt : i < f.size
  · refine h.feeds ?_
    rw [← hi, Cursor.byteAt, hc.content, File.bytes, Array.getD_eq_getD_getElem?,
      Array.getElem?_eq_getElem (by exact hlt)]
    exact Array.getElem_mem_toList _
  · rw [Cursor.byteAt_eq_zero hc (Nat.le_of_not_lt hlt)] at hi
    exact absurd hi (by decide)

/-- The line ends with the file. -/
theorem lineEnd (h : OneLine f) (hc : l.cursor.In f) : l.lineEnd = f.size := by
  have hmatch : ∀ i stop, l.cursor.matchesAt i stop
      (if l.layout.isCrlf then ("\r\n" : Bytes) else ("\n" : Bytes)) = false := by
    intro i stop
    have hfeed : ∀ i, decide (l.cursor.byteAt i = (10 : UInt8)) = false :=
      fun i => decide_eq_false (h.byteAt_ne hc i)
    split
    · rw [show ("\r\n" : Bytes) = [13, 10] from rfl]
      simp [Cursor.matchesAt, hfeed]
    · rw [show ("\n" : Bytes) = [10] from rfl]
      simp [Cursor.matchesAt, hfeed]
  rw [Lexer.lineEnd, Cursor.lineEnd, Cursor.positionOf?]
  simp only [Cursor.search_eq_none fun j _ => hmatch j _, ite_self, Option.getD_none, hc.limit]

theorem textEnd (h : OneLine f) (hc : l.cursor.In f) : l.textEnd = f.size := by
  have hlast : l.cursor.byteAt (f.size - 1) ≠ '\r' := by
    rw [Cursor.byteAt, hc.content]
    exact h.last
  simp [Lexer.textEnd, h.lineEnd hc, hlast]

/-- Going to the next line is going to the end. -/
theorem skipLine (h : OneLine f) (hc : l.cursor.In f) :
    l.skipLine.cursor = { l.cursor with offset := f.size } := by
  have hend : (l.moveTo f.size).cursor.atEnd = true := by
    simp [Lexer.moveTo, Cursor.atEnd, hc.limit]
  rw [Lexer.skipLine, h.lineEnd hc, Lexer.eatLineEnding?_of_atEnd hend]
  rfl

/-- What a lexer at the start of the line finds there. -/
structure AtStart (f : File) (l : Lexer) : Prop where
  cursor : l.cursor.In f
  offset : l.cursor.offset = 0

variable (h : OneLine f) (hl : AtStart f l)

include hl

/-- The first byte ends every run that it is not part of. -/
theorem AtStart.runLength {p : UInt8 → Bool} (hp : p (l.cursor.byteAt 0) = false) :
    l.cursor.runLength p = 0 := by
  rw [Cursor.runLength, hl.offset]
  cases l.cursor.limit - 0 with
  | zero => rfl
  | succ n => simp [Cursor.runFrom, hp]

theorem AtStart.skipWhile {p : UInt8 → Bool} (hp : p (l.cursor.byteAt 0) = false) :
    l.cursor.skipWhile p = l.cursor := by
  rw [Cursor.skipWhile, hl.runLength hp, Nat.add_zero]

include h

theorem pos : 0 < f.size := by
  refine Nat.pos_of_ne_zero fun hz => ?_
  have hstart := h.start
  have hzero := Cursor.byteAt_eq_zero hl.cursor (i := 0) (by omega)
  rw [Cursor.byteAt, hl.cursor.content] at hzero
  rw [hzero] at hstart
  cases hstart

theorem atEnd : l.cursor.atEnd = false := by
  have := h.pos hl
  simp only [Cursor.atEnd, hl.cursor.limit, hl.offset, decide_eq_false_iff_not]
  omega

theorem startsText_byteAt : startsText (l.cursor.byteAt 0) = true := by
  rw [Cursor.byteAt, hl.cursor.content]
  exact h.start

theorem peek : l.cursor.peek = l.cursor.byteAt 0 := by
  rw [Cursor.peek, h.atEnd hl, hl.offset]
  rfl

theorem isGap_byteAt : Bytes.isGap (l.cursor.byteAt 0) = false := by
  have hstart := h.startsText_byteAt hl
  simp only [startsText, Bool.and_eq_true, Bool.not_eq_true'] at hstart
  exact hstart.1.1.1.1.1.1

theorem skipIndent : l.skipIndent = { l with atLineStart := false } := by
  rw [Lexer.skipIndent, hl.skipWhile (h.isGap_byteAt hl)]

theorem skipBlankLines : l.skipBlankLines = l := by
  have hblank : l.isBlankLine = false := by
    have hstart := h.startsText_byteAt hl
    have hpos := h.pos hl
    have hrun : (Bytes.isGap (l.cursor.byteAt 0) || decide (l.cursor.byteAt 0 = '\r')) = false := by
      simp only [startsText, Bool.and_eq_true, Bool.not_eq_true', bne_iff_ne] at hstart
      simp [hstart]
    rw [Lexer.isBlankLine, h.lineEnd hl.cursor,
      hl.runLength (p := fun b => Bytes.isGap b || decide (b = '\r')) hrun, hl.offset]
    simpa using Nat.pos_iff_ne_zero.mp hpos
  rw [Lexer.skipBlankLines]
  cases l.cursor.limit - l.cursor.offset with
  | zero => rfl
  | succ n => simp [Lexer.skipBlankLines.go, hblank]

theorem indentDepth : l.indentDepth = 0 := by
  have hempty : l.cursor.slice l.cursor.offset (l.cursor.offset + l.cursor.runLength Bytes.isGap)
      = [] := by
    rw [hl.runLength (h.isGap_byteAt hl)]
    refine List.eq_nil_of_length_eq_zero ?_
    rw [Cursor.slice, Content.length_slice]
    omega
  have hrun : l.indentRun = 0 := by
    unfold Lexer.indentRun
    rw [hempty]
    simp
  rw [Lexer.indentDepth, hrun, Int.zero_tdiv]

/-- A block goes on with the line, as it neither ends nor is outdented. -/
theorem notOutdented : (l.cursor.atEnd || decide (l.indentDepth < ((0 : Nat) : Int))) = false := by
  simp [h.atEnd hl, h.indentDepth hl]

theorem headerDepth : l.headerDepth = 0 := by
  have hstart := h.startsText_byteAt hl
  rw [Lexer.headerDepth, hl.skipWhile (h.isGap_byteAt hl)]
  refine hl.runLength ?_
  simp only [startsText, Bool.and_eq_true, bne_iff_ne] at hstart
  simp [hstart]

/-- The line opens a paragraph. -/
theorem opening : BlockOpening.ofCursor l.cursor = .paragraph := by
  have hstart := h.startsText_byteAt hl
  simp only [startsText, Bool.and_eq_true, bne_iff_ne] at hstart
  simp [BlockOpening.ofCursor, h.peek hl, Cursor.hasPrefix, Cursor.matchesAt, hl.offset, hstart]

end File.OneLine

/-! ## The document -/

namespace Markup.Parse

variable {f : File} {s : ParserState}

open File.OneLine (AtStart)

theorem ends_attributeLine_of_ne (h : s.lexer.skipIndent.cursor.peek ≠ '@') :
    Ends attributeLine s fun r s' => r = none ∧ s' = s := by
  simp only [attributeLine, ends_bind, ends_get, ends_mapLexer]
  refine (ends_takeAttribute_of_ne h).imp fun r s' hr => ?_
  rw [hr.1, ends_bind, ends_set, ends_pure]
  exact ⟨rfl, rfl⟩

/-- There are no attributes in front of the line. -/
theorem ends_attributeLines_oneLine (h : f.OneLine) (hs : AtStart f s.lexer) (fuel : Nat) :
    Ends (attributeLines fuel 0) s fun r s' => r = ([], .parsed) ∧ s' = s := by
  cases fuel with
  | zero => exact ⟨rfl, rfl⟩
  | succ fuel =>
    have hat : s.lexer.skipIndent.cursor.peek ≠ '@' := by
      have hstart := h.startsText_byteAt hs
      simp only [startsText, Bool.and_eq_true, bne_iff_ne] at hstart
      rw [h.skipIndent hs]
      exact (h.peek hs).trans_ne hstart.1.2
    simp only [attributeLines, ends_bind, ends_mapLexer, ends_lexer, h.skipBlankLines hs,
      h.notOutdented hs, Bool.false_eq_true, if_false]
    refine (ends_attributeLine_of_ne hat).imp fun r s' hr => ?_
    rw [hr.1, hr.2]
    exact ⟨rfl, rfl⟩

/-- The blocks of a line that was read from a cursor: its text, unless that is empty, and the
diverts taken out of it. -/
def lineBlocks (c : Cursor) (r : (Text × List Divert × Outcome) × ParserState) : List Block :=
  (if r.1.1.isEmpty then []
    else [.paragraph { text := r.1.1, span := c.spanAt c.offset r.2.lexer.cursor.offset }])
    ++ r.1.2.1.map .divert

/-- Empty attributes change nothing about the blocks of a line. -/
theorem attach_lineBlocks (c : Cursor) {r : (Text × List Divert × Outcome) × ParserState}
    (h : ∀ d ∈ r.1.2.1, d.attrs = []) : attach [] (lineBlocks c r) = lineBlocks c r := by
  unfold lineBlocks
  split
  · cases hd : r.1.2.1 with
    | nil => rfl
    | cons d ds =>
      have hattrs := h d (by rw [hd]; exact List.mem_cons_self)
      rw [List.nil_append, List.map_cons, attach, Block.withAttrs, ← hattrs]
  · rfl

theorem ends_paragraph_oneLine (h : f.OneLine) (hs : Stands f s) :
    Ends paragraph s fun r s' => r.1 = lineBlocks s.lexer.cursor (lineText.run s)
      ∧ s'.log = (lineText.run s).2.log ∧ s'.lexer.cursor.atEnd = true
      ∧ s'.lexer.cursor.offset = f.size := by
  have hin := (ends_lineText hs).1.stands.cursor
  simp only [paragraph, ends_bind, ends_cursor, ends_offset, finishLine, ends_mapLexer, ends_pure]
  rw [Ends, h.skipLine hin]
  exact ⟨rfl, rfl, by simp [Cursor.atEnd, hin.limit], rfl⟩

theorem ends_block_oneLine (h : f.OneLine) (hs : Stands f s) (hl : AtStart f s.lexer)
    (body : BodyParser) :
    let start : ParserState := { s with lexer := s.lexer.skipIndent }
    Ends (block body 0) s fun r s' => r.1 = lineBlocks s.lexer.cursor (lineText.run start)
      ∧ s'.log = (lineText.run start).2.log ∧ s'.lexer.cursor.atEnd = true
      ∧ s'.lexer.cursor.offset = f.size := by
  intro start
  have hcursor : start.lexer.cursor = s.lexer.cursor := by
    simp [start, h.skipIndent hl]
  have hstart : Stands f start := ⟨by rw [hcursor]; exact hs.cursor, hs.lifted⟩
  simp only [block, ends_bind, ends_cursor]
  refine (ends_attributeLines_oneLine h hl _).imp fun r s' hr => ?_
  rw [hr.1, hr.2]
  simp only [ends_bind, ends_lexer, h.notOutdented hl, Bool.false_eq_true, if_false,
    ends_mapLexer]
  have hopening : BlockOpening.ofCursor start.lexer.cursor = .paragraph := by
    rw [hcursor, h.opening hl]
  simp only [openedBlock, ends_bind, ends_cursor]
  rw [show BlockOpening.ofCursor s.lexer.skipIndent.cursor = .paragraph from hopening]
  refine (ends_paragraph_oneLine h hstart).imp fun r s' hr => ?_
  rw [ends_pure, hr.1, hcursor]
  exact ⟨attach_lineBlocks _ fun d hd => ((ends_lineText hstart).2.2 d hd).attrs, hr.2⟩

/-- Nothing more is read at the end of the file. -/
theorem ends_sequence_atEnd (h : s.lexer.cursor.atEnd = true) (fuel depth stop : Nat) :
    Ends (sequence fuel depth stop) s fun r s' => r = ([], .parsed) ∧ s' = s := by
  cases fuel with
  | zero => exact ⟨rfl, rfl⟩
  | succ fuel =>
    have hskip : s.lexer.skipBlankLines = s.lexer := by
      have hnone : s.lexer.cursor.limit - s.lexer.cursor.offset = 0 := by
        simpa [Cursor.atEnd] using Nat.sub_eq_zero_of_le (of_decide_eq_true h)
      rw [Lexer.skipBlankLines, hnone]
      rfl
    simp only [sequence, ends_bind, ends_mapLexer, ends_lexer, hskip, h, Bool.true_or, if_true]
    exact ⟨rfl, rfl⟩

end Parse

open Parse

/-- The document of a file of one line is what its line is read as. -/
theorem parse_oneLine {f : File} (h : f.OneLine) (layout : Layout) (maxErrors : Nat) :
    let start : ParserState := { lexer := (Lexer.ofFile f layout).skipIndent }
    (parse f layout maxErrors).document.blocks
        = lineBlocks (Lexer.ofFile f layout).cursor (lineText.run start)
      ∧ (parse f layout maxErrors).diagnostics
        = keepErrors maxErrors (lineText.run start).2.log.toList := by
  intro start
  have hl : File.OneLine.AtStart f (Lexer.ofFile f layout) :=
    ⟨⟨rfl, rfl, rfl, Nat.zero_le _, h.small⟩, rfl⟩
  have hs : Stands f { lexer := Lexer.ofFile f layout } := ⟨hl.cursor, by simp⟩
  suffices hends : Ends (sequence ((Lexer.ofFile f layout).cursor.limit + 1) 0 0)
      { lexer := Lexer.ofFile f layout } fun r s' =>
        r.1 = lineBlocks (Lexer.ofFile f layout).cursor (lineText.run start)
          ∧ s'.log = (lineText.run start).2.log by
    exact ⟨hends.1,
      congrArg (fun log : Array Diagnostic => keepErrors maxErrors log.toList) hends.2⟩
  simp only [Parse.sequence, ends_bind, ends_mapLexer, ends_lexer, h.skipBlankLines hl,
    h.notOutdented hl, h.headerDepth hl, Nat.lt_irrefl, decide_false, Bool.false_and, Bool.or_false,
    Bool.false_eq_true, if_false]
  refine (ends_block_oneLine h hs hl _).imp fun r s' hr => ?_
  obtain ⟨hblocks, hlog, hend, hoffset⟩ := hr
  have hmoved : s'.lexer.cursor.offset ≠ (Lexer.ofFile f layout).cursor.offset := by
    rw [hoffset, hl.offset]
    exact Nat.pos_iff_ne_zero.mp (h.pos hl)
  simp only [ends_bind, ends_offset, if_neg hmoved, ends_pure]
  refine (ends_sequence_atEnd hend _ _ _).imp fun r' s'' hr' => ?_
  rw [hr'.1, hr'.2, List.append_nil]
  exact ⟨hblocks, hlog⟩

end Markup

end Storyline
