import Storyline.Proofs.Markup.OneLine
import Storyline.Proofs.Markup.Remaining

/-!
# Plain lines of text

A line is plain if no element starts on it and it opens no other block than a paragraph.  It may
have backslashes in front of some bytes, which stand for these bytes alone (`Spells`).  Such a line
is read, byte by byte, as a paragraph of the text that it spells (`ends_paragraph_spelled`); a file
that ends with it is parsed to this one paragraph, with the attributes from the lines above
(`parse_plainLine`).

So every text without line endings can be written literally: with a backslash in front of each byte
that could open something, it is plain (`parse_escape`).
-/

namespace Storyline.Markup

variable {f : File} {b : UInt8} {e t rest below : Bytes}

/-! ## Spellings -/

/-- What an inline element or an escape starts with. -/
def openings : List Bytes := ["\\", "*", "__", [0x60], "\x7b", "<->", "->", "<>"]

/-- A spelling of a text without elements: a backslash may stand in front of any byte, and elsewhere
nothing opens an element. -/
inductive Spells : Bytes → Bytes → Prop
  | nil : Spells [] []
  | plain {b : UInt8} {e t : Bytes} (hb : ∀ p ∈ openings, ¬p <+: b :: e) (h : Spells e t) :
      Spells (b :: e) (b :: t)
  | escaped {b : UInt8} {e t : Bytes} (h : Spells e t) : Spells ('\\' :: b :: e) (b :: t)

/-- A delimiter at the start of a line does not reach over the end of the line. -/
theorem prefix_of_below {layout : Layout} {p : Bytes} (hp : p.all Cursor.isPlain = true)
    (hrest : layout.Below rest below) (h : p <+: e ++ rest) : p <+: e := by
  rcases Nat.lt_or_ge e.length p.length with hlt | hle
  · obtain ⟨q, rfl⟩ :=
      List.prefix_of_prefix_length_le (List.prefix_append e rest) h (Nat.le_of_lt hlt)
    cases q with
    | nil => simp at hlt
    | cons b q =>
      obtain ⟨r, hr⟩ := (List.prefix_append_right_inj e).1 h
      have hb := hrest.head b (by simp [← hr])
      simp [hb] at hp
  · exact List.prefix_of_prefix_length_le h (List.prefix_append e rest) hle

theorem plain_of_mem_openings : ∀ p ∈ openings, p.all Cursor.isPlain = true := by decide

/-- Where no element starts, a byte stands for itself. -/
theorem ofCursor_literal {c : Cursor} {layout : Layout} (h : c.Before f (b :: e ++ rest))
    (hrest : layout.Below rest below) (hb : ∀ p ∈ openings, ¬p <+: b :: e) (stop : Nat) :
    Opening.ofCursor c stop = .literal := by
  have hno (p : Bytes) (hp : p ∈ openings) : c.hasPrefix p = false := by
    rw [h.hasPrefix, Bool.eq_false_iff, ne_eq, List.isPrefixOf_iff_prefix]
    exact fun hprefix => hb p hp (prefix_of_below (plain_of_mem_openings p hp) hrest hprefix)
  have hne (x : UInt8) (hx : [x] ∈ openings) : b ≠ x := by
    rintro rfl
    exact hb [b] hx ⟨e, rfl⟩
  have hstars : c.hasPrefix "**" = false := h.hasPrefix_of_ne (hne '*' (by decide)) ['*']
  rw [Opening.ofCursor, h.peek, hstars, hno "__" (by decide), hno "<->" (by decide),
    hno "->" (by decide), hno "<>" (by decide), if_neg (hne '\\' (by decide)),
    if_neg (hne '*' (by decide)), if_neg (hne 0x60 (by decide)), if_neg (hne 0x7B (by decide))]
  rfl

theorem Draft.append_write (d : Draft) (b : UInt8) (t : Bytes) :
    (d.write b).append t = d.append (b :: t) := by
  simp [append, write]

namespace Parse

variable {layout : Layout} {s : ParserState} {inner : Style → Parse TextResult} {stop : Nat}

/-- A step took `n` bytes of the line for the byte `b`. -/
def Writes (s : ParserState) (draft : Draft) (b : UInt8) (n : Nat) (r : Draft × Outcome)
    (s' : ParserState) : Prop :=
  r = (draft.write b, .parsed) ∧ s' = { s with lexer := s.lexer.moveTo (s.lexer.cursor.offset + n) }

theorem textStep_plain (h : s.lexer.cursor.Before f (b :: e ++ rest))
    (hrest : layout.Below rest below) (hb : ∀ p ∈ openings, ¬p <+: b :: e) (draft : Draft) :
    Ends (textStep inner stop draft) s (Writes s draft b 1) := by
  simp only [textStep, ends_bind, ends_cursor, ofCursor_literal h hrest hb, ends_mapCursor,
    ends_pure, h.peek, h.next]
  exact ⟨rfl, rfl⟩

theorem textStep_escaped (h : s.lexer.cursor.Before f ('\\' :: b :: rest))
    (hstop : s.lexer.cursor.offset + 1 < stop) (draft : Draft) :
    Ends (textStep inner stop draft) s (Writes s draft b 2) := by
  have hescape : Opening.ofCursor s.lexer.cursor stop = .escape := by
    rw [Opening.ofCursor, h.peek, if_pos rfl]
  have hbyte : Cursor.Before f { s.lexer.cursor with offset := s.lexer.cursor.offset + 1 }
      (b :: rest) := h.move (t := ['\\'])
  simp only [textStep, ends_bind, ends_cursor, hescape, h.next, if_pos hstop, ends_moveTo,
    ends_pure, hbyte.peek, hbyte.next]
  exact ⟨rfl, rfl⟩

/-- A spelled text is read up to its end, byte by byte. -/
theorem ends_textFrom_spelled (hspells : Spells e t) (h : s.lexer.cursor.Before f (e ++ rest))
    (hrest : layout.Below rest below) {fuel : Nat}
    (hstop : stop = s.lexer.cursor.offset + e.length) (hfuel : e.length < fuel) (start : Nat)
    (draft : Draft) :
    Ends (textFrom fuel stop none start draft .parsed) s fun r s' =>
      r = ⟨(draft.append t).text ⟨f.id, start, stop⟩, true, .parsed⟩
        ∧ s' = { s with lexer := s.lexer.moveTo stop } := by
  obtain ⟨fuel, rfl⟩ : ∃ n, fuel = n + 1 := Nat.exists_eq_succ_of_ne_zero (by omega)
  -- By induction on the spelling, each byte with its backslash being one round.
  induction hspells generalizing s fuel draft with
  | nil =>
    obtain rfl : stop = s.lexer.cursor.offset := hstop
    simp only [textFrom, ends_bind, ends_cursor, Nat.le_refl, if_true, ends_pure]
    exact ⟨by simp [Draft.append, Cursor.spanFrom, h.cursor.file], rfl⟩
  | @plain b e t hb hspells ih =>
    rw [List.length_cons] at hstop hfuel
    have hlt : ¬stop ≤ s.lexer.cursor.offset := by omega
    simp only [textFrom, ends_bind, ends_cursor, if_neg hlt, Option.filter_none]
    refine (textStep_plain h hrest hb draft).imp fun r s' hr => ?_
    obtain ⟨rfl, rfl⟩ := hr
    obtain ⟨fuel, rfl⟩ : ∃ n, fuel = n + 1 := Nat.exists_eq_succ_of_ne_zero (by omega)
    rw [← Draft.append_write]
    have hnext : (s.lexer.moveTo (s.lexer.cursor.offset + 1)).cursor.Before f (e ++ rest) :=
      h.move (t := [b])
    have hend : stop = (s.lexer.moveTo (s.lexer.cursor.offset + 1)).cursor.offset + e.length := by
      show stop = s.lexer.cursor.offset + 1 + e.length
      omega
    exact ih (s := { s with lexer := s.lexer.moveTo _ }) hnext hend _ fuel (by omega)
  | @escaped b e t hspells ih =>
    rw [List.length_cons, List.length_cons] at hstop hfuel
    have hlt : ¬stop ≤ s.lexer.cursor.offset := by omega
    simp only [textFrom, ends_bind, ends_cursor, if_neg hlt, Option.filter_none]
    refine (textStep_escaped h (by omega) draft).imp fun r s' hr => ?_
    obtain ⟨rfl, rfl⟩ := hr
    obtain ⟨fuel, rfl⟩ : ∃ n, fuel = n + 1 := Nat.exists_eq_succ_of_ne_zero (by omega)
    rw [← Draft.append_write]
    have hnext : (s.lexer.moveTo (s.lexer.cursor.offset + 2)).cursor.Before f (e ++ rest) :=
      h.move (t := ['\\', b])
    have hend : stop = (s.lexer.moveTo (s.lexer.cursor.offset + 2)).cursor.offset + e.length := by
      show stop = s.lexer.cursor.offset + 2 + e.length
      omega
    exact ih (s := { s with lexer := s.lexer.moveTo _ }) hnext hend _ fuel (by omega)

/-- A spelled text that makes up the rest of its line is read as what it spells. -/
theorem ends_lineText_spelled (hspells : Spells e t) (hplain : ∀ b ∈ e, Cursor.isPlain b = true)
    (h : s.lexer.cursor.Before f (e ++ rest)) (hrest : s.lexer.layout.Below rest below) :
    let stop := s.lexer.cursor.offset + e.length
    Ends lineText s fun r s' => r = (⟨[], t, ⟨f.id, s.lexer.cursor.offset, stop⟩⟩, [], .parsed)
      ∧ s' = { s with lexer := s.lexer.moveTo stop } := by
  intro stop
  have hstop : s.lexer.textEnd = stop := (Lexer.line_of_below h hplain hrest).1
  simp only [lineText, ends_bind, ends_get, ends_textEnd, ends_offset, hstop]
  refine (ends_textFrom_spelled hspells h hrest rfl (by omega) _ {}).imp fun r s' hr => ?_
  obtain ⟨rfl, rfl⟩ := hr
  simp [Draft.append, Draft.text, stop]

/-- A line of a spelled text is a paragraph. -/
theorem ends_paragraph_spelled (hspells : Spells e t) (ht : t ≠ [])
    (hplain : ∀ b ∈ e, Cursor.isPlain b = true) (h : s.lexer.cursor.Before f (e ++ rest))
    (hrest : s.lexer.layout.Below rest below) :
    let span : Span := ⟨f.id, s.lexer.cursor.offset, s.lexer.cursor.offset + e.length⟩
    Ends paragraph s fun r s' => r = ([.paragraph { text := ⟨[], t, span⟩, span }], .parsed)
      ∧ s'.log = s.log ∧ s'.lexer.cursor.Before f below := by
  intro span
  simp only [paragraph, ends_bind, ends_cursor]
  refine (ends_lineText_spelled hspells hplain h hrest).imp fun r s' hr => ?_
  obtain ⟨rfl, rfl⟩ := hr
  simp only [ends_offset, finishLine, ends_mapLexer, ends_pure]
  refine ⟨?_, trivial, ?_⟩
  · simp [Text.isEmpty, ht, Cursor.spanAt, h.cursor.file, span, Lexer.moveTo]
  · have hmoved :
        (s.lexer.moveTo (s.lexer.cursor.offset + e.length)).cursor.Before f ([] ++ rest) := h.move
    exact (Lexer.line_of_below hmoved (by simp) hrest).2

end Parse

/-! ## The start of a line -/

namespace Lexer

variable {l : Lexer}

/-- A line that starts with a byte of text is not blank. -/
theorem skipBlankLines_of_text (h : l.cursor.Before f (b :: rest)) (hgap : Bytes.isGap b = false)
    (hplain : Cursor.isPlain b = true) : l.skipBlankLines = l := by
  have hsize := h.offset_add
  rw [List.length_cons] at hsize
  have htext : l.cursor.offset + 1 ≤ l.textEnd := by
    refine le_textEnd h.cursor (by omega) fun j hj => ?_
    obtain rfl : j = 0 := by omega
    rw [h.byteAt]
    exact hplain
  have hline : l.textEnd ≤ l.lineEnd := by
    rw [textEnd]
    split <;> omega
  have hrun : (l.cursor.runLength fun b => Bytes.isGap b || b = '\r') = 0 := by
    rw [h.runLength, List.takeWhile_cons_of_neg, List.length_nil]
    simpa [hgap] using (show b ≠ '\r' by rintro rfl; cases hplain)
  refine skipBlankLines_of_stops ?_
  rw [isBlankLine, hrun]
  simp only [Bool.and_eq_false_iff, decide_eq_false_iff_not]
  right
  omega

theorem indentDepth_of_text (h : l.cursor.Before f (b :: rest)) (hgap : Bytes.isGap b = false) :
    l.indentDepth = 0 := by
  have hrun : l.cursor.runLength Bytes.isGap = 0 := by
    rw [h.runLength, List.takeWhile_cons_of_neg (by simp [hgap]), List.length_nil]
  have hslice : l.cursor.slice l.cursor.offset (l.cursor.offset + 0) = [] :=
    h.slice (t := [])
  have hcolumns : l.indentRun = 0 := by
    unfold indentRun
    rw [hrun, hslice]
    simp
  rw [indentDepth, hcolumns, Int.zero_tdiv]

/-- A block goes on with the line, as it neither ends nor is outdented. -/
theorem notOutdented_of_text (h : l.cursor.Before f (b :: rest)) (hgap : Bytes.isGap b = false) :
    (l.cursor.atEnd || decide (l.indentDepth < ((0 : Nat) : Int))) = false := by
  simp [h.atEnd, indentDepth_of_text h hgap]

theorem skipIndent_of_text (h : l.cursor.Before f (b :: rest)) (hgap : Bytes.isGap b = false) :
    l.skipIndent = { l with atLineStart := false } := by
  rw [skipIndent, Cursor.skipWhile, h.runLength, List.takeWhile_cons_of_neg (by simp [hgap])]
  rfl

theorem headerDepth_of_text (h : l.cursor.Before f (b :: rest)) (hgap : Bytes.isGap b = false)
    (hb : b ≠ '#') : l.headerDepth = 0 := by
  have hskip : l.cursor.skipWhile Bytes.isGap = l.cursor :=
    congrArg Lexer.cursor (skipIndent_of_text h hgap)
  rw [headerDepth, hskip, h.runLength, List.takeWhile_cons_of_neg (by simpa using hb),
    List.length_nil]

end Lexer

/-- A line that is a plain text from its first byte on: it spells a text, and opens no other
block. -/
structure PlainLine (e t : Bytes) : Prop where
  spells : Spells e t
  nonempty : t ≠ []
  plain : ∀ b ∈ e, Cursor.isPlain b = true
  start : ∀ b ∈ e.head?, b ∉ (" \t#@-" : Bytes)

namespace PlainLine

variable {c : Cursor} {s : ParserState}

/-- The first byte of the line. -/
theorem exists_cons (h : PlainLine e t) : ∃ b e', e = b :: e' ∧ Bytes.isGap b = false
    ∧ Cursor.isPlain b = true ∧ b ≠ '#' ∧ b ≠ '@' ∧ b ≠ '-' := by
  obtain ⟨b, e', rfl⟩ : ∃ b e', e = b :: e' := by
    cases e with
    | nil =>
      cases h.spells
      exact absurd rfl h.nonempty
    | cons b e' => exact ⟨b, e', rfl⟩
  have hne (x : UInt8) (hx : x ∈ (" \t#@-" : Bytes)) : b ≠ x :=
    fun heq => h.start b rfl (heq ▸ hx)
  refine ⟨b, e', rfl, ?_, h.plain b List.mem_cons_self, hne '#' (by decide), hne '@' (by decide),
    hne '-' (by decide)⟩
  simp [Bytes.isGap, hne ' ' (by decide), hne '\t' (by decide)]

theorem opening (h : PlainLine e t) (hc : c.Before f (e ++ rest)) :
    BlockOpening.ofCursor c = .paragraph := by
  obtain ⟨b, e', rfl, -, -, hheader, hat, hdash⟩ := h.exists_cons
  have hquote : b ≠ 0x60 := by
    rintro rfl
    cases h.spells with
    | plain hb => exact hb [0x60] (by decide) ⟨e', rfl⟩
  have hcode : c.hasPrefix [0x60, 0x60, 0x60] = false := hc.hasPrefix_of_ne hquote _
  have hbranch : c.hasPrefix [0x40, 0x7B] = false := hc.hasPrefix_of_ne hat _
  simp [BlockOpening.ofCursor, hc.peek, hheader, hdash, hcode, hbranch]

end PlainLine

/-! ## Documents -/

namespace Parse

variable {s : ParserState} {as : List Attribute}

/-- The line of a plain text is no attribute line. -/
theorem ends_attributeLines_plainLine (hline : PlainLine e t)
    (h : s.lexer.cursor.Before f (e ++ rest)) (fuel : Nat) :
    Ends (attributeLines fuel 0) s fun r s' => r = ([], .parsed) ∧ s' = s := by
  obtain ⟨b, e, rfl, hgap, hplain, -, hat, -⟩ := hline.exists_cons
  cases fuel with
  | zero => exact ⟨rfl, rfl⟩
  | succ fuel =>
    have hpeek : s.lexer.skipIndent.cursor.peek ≠ '@' := by
      rw [Lexer.skipIndent_of_text h hgap]
      exact h.peek.trans_ne hat
    simp only [attributeLines, ends_bind, ends_mapLexer, ends_lexer,
      Lexer.skipBlankLines_of_text h hgap hplain, Lexer.notOutdented_of_text h hgap,
      Bool.false_eq_true, if_false]
    refine (ends_attributeLine_of_ne hpeek).imp fun r s' hr => ?_
    obtain ⟨rfl, rfl⟩ := hr
    exact ⟨rfl, rfl⟩

/-- Attribute lines and a plain line behind them are a paragraph with these attributes. -/
theorem ends_block_plainLine (hline : PlainLine e t) {start : Nat} {log : Array Diagnostic}
    (hattrs : Ends (attributeLines (s.lexer.cursor.limit - s.lexer.cursor.offset + 1) 0) s
      fun r s' => r = (as, .parsed) ∧ s'.log = log ∧ s'.lexer.cursor.offset = start
        ∧ s'.lexer.cursor.Before f (e ++ rest) ∧ s'.lexer.layout.Below rest below)
    (body : BodyParser) :
    let span : Span := ⟨f.id, start, start + e.length⟩
    Ends (block body 0) s fun r s' =>
      r = ([.paragraph { text := ⟨[], t, span⟩, attrs := as, span }], .parsed)
        ∧ s'.log = log ∧ s'.lexer.cursor.Before f below := by
  intro span
  simp only [block, ends_bind, ends_cursor]
  refine hattrs.imp fun r s' hr => ?_
  obtain ⟨rfl, rfl, rfl, h, hrest⟩ := hr
  obtain ⟨b, e', he, hgap, -⟩ := hline.exists_cons
  have h' : s'.lexer.cursor.Before f (b :: (e' ++ rest)) := by rwa [he] at h
  simp only [ends_bind, ends_lexer, Lexer.notOutdented_of_text h' hgap, Bool.false_eq_true,
    if_false, ends_mapLexer, Lexer.skipIndent_of_text h' hgap, openedBlock, ends_cursor,
    hline.opening h]
  refine (ends_paragraph_spelled (s := { s' with lexer := { s'.lexer with atLineStart := false } })
    hline.spells hline.nonempty hline.plain h hrest).imp fun r s'' hr => ?_
  obtain ⟨rfl, hlog, hbelow⟩ := hr
  exact ⟨rfl, hlog, hbelow⟩

/-- What a file without reports is parsed to. -/
theorem parse_of_ends {layout : Layout} {blocks : List Block} {out : Outcome}
    (h : Ends (sequence (f.size + 1) 0 0) { lexer := .ofFile f layout } fun r s =>
      r = (blocks, out) ∧ s.log = #[]) (maxErrors : Nat) :
    parse f layout maxErrors = ⟨⟨f.id, blocks⟩, out, []⟩ := by
  have hnone : keepErrors maxErrors [] = [] := by
    rw [keepErrors]
    split
    · rfl
    · rw [keepErrors.go]
  have hrun (r : (List Block × Outcome) × ParserState) (hr : r.1 = (blocks, out))
      (hlog : r.2.log = #[]) :
      Parsed.mk ⟨f.id, r.1.1⟩ r.1.2 (keepErrors maxErrors r.2.log.toList)
        = ⟨⟨f.id, blocks⟩, out, []⟩ := by
    rw [hr, hlog, hnone]
  exact hrun _ h.1 h.2

/-- The document of attribute lines and a plain line behind them. -/
theorem parse_plainLine (small : f.size < Word.modulus) {layout : Layout} (hline : PlainLine e t)
    {more : Bytes} (hbytes : f.bytes = b :: more) (hgap : Bytes.isGap b = false)
    (hplain : Cursor.isPlain b = true) (hheader : b ≠ '#') {start : Nat}
    (hattrs : Ends (attributeLines (f.size + 1) 0) { lexer := .ofFile f layout }
      fun r s => r = (as, .parsed) ∧ s.log = #[] ∧ s.lexer.cursor.offset = start
        ∧ s.lexer.cursor.Before f (e ++ rest) ∧ s.lexer.layout.Below rest [])
    (maxErrors : Nat) :
    let span : Span := ⟨f.id, start, start + e.length⟩
    parse f layout maxErrors
      = ⟨⟨f.id, [.paragraph { text := ⟨[], t, span⟩, attrs := as, span }]⟩, .parsed, []⟩ := by
  intro span
  have hbefore : (Lexer.ofFile f layout).cursor.Before f (b :: more) :=
    ⟨⟨rfl, rfl, rfl, Nat.zero_le _, small⟩, hbytes⟩
  suffices hends : Ends (sequence (f.size + 1) 0 0) { lexer := .ofFile f layout } fun r s =>
      r = ([.paragraph { text := ⟨[], t, span⟩, attrs := as, span }], .parsed) ∧ s.log = #[] by
    exact parse_of_ends hends maxErrors
  simp only [sequence, ends_bind, ends_mapLexer, ends_lexer,
    Lexer.skipBlankLines_of_text hbefore hgap hplain, Lexer.notOutdented_of_text hbefore hgap,
    Lexer.headerDepth_of_text hbefore hgap hheader, Nat.lt_irrefl, decide_false, Bool.false_and,
    Bool.or_false, Bool.false_eq_true, if_false]
  refine (ends_block_plainLine (s := { lexer := .ofFile f layout }) hline hattrs _).imp
    fun r s hr => ?_
  obtain ⟨rfl, hlog, hbelow⟩ := hr
  have hoffset : s.lexer.cursor.offset ≠ (Lexer.ofFile f layout).cursor.offset := by
    have hstart := hbefore.offset_add
    have hend := hbelow.offset_add
    rw [List.length_cons] at hstart
    rw [List.length_nil] at hend
    omega
  simp only [ends_bind, ends_offset, if_neg hoffset, ends_pure]
  refine (ends_sequence_atEnd hbelow.atEnd _ _ _).imp fun r s' hr => ?_
  obtain ⟨rfl, rfl⟩ := hr
  exact ⟨rfl, hlog⟩

end Parse

/-! ## Escaped lines -/

/-- What an inline element or an escape can start with. -/
def openingBytes : Bytes := "\\*_\x60\x7b<-"

/-- A text with a backslash in front of its marked bytes. -/
def escape (marks : List (UInt8 × Bool)) : Bytes :=
  marks.flatMap fun m => if m.2 then ['\\', m.1] else [m.1]

section Escape

variable {marks : List (UInt8 × Bool)}

theorem head_of_mem_openings : ∀ p ∈ openings, ∃ a q, p = a :: q ∧ a ∈ openingBytes := by
  have hheads : ∀ p ∈ openings, p ≠ [] ∧ p.headD 0 ∈ openingBytes := by decide
  intro p hp
  obtain ⟨hne, hhead⟩ := hheads p hp
  cases p with
  | nil => exact absurd rfl hne
  | cons a q => exact ⟨a, q, rfl, hhead⟩

theorem spells_escape (hmarked : ∀ m ∈ marks, m.1 ∈ openingBytes → m.2 = true) :
    Spells (escape marks) (marks.map (·.1)) := by
  induction marks with
  | nil => exact .nil
  | cons m marks ih =>
    obtain ⟨hm, hmarks⟩ := List.forall_mem_cons.1 hmarked
    obtain ⟨b, marked⟩ := m
    cases marked with
    | true => exact .escaped (ih hmarks)
    | false =>
      refine .plain (fun p hp hprefix => ?_) (ih hmarks)
      obtain ⟨a, q, rfl, ha⟩ := head_of_mem_openings p hp
      obtain rfl : a = b := (List.cons_prefix_cons.1 hprefix).1
      exact Bool.false_ne_true (hm ha)

theorem plainLine_escape (hne : marks ≠ []) (hline : ∀ m ∈ marks, m.1 ≠ '\r' ∧ m.1 ≠ '\n')
    (hmarked : ∀ m ∈ marks, m.1 ∈ openingBytes → m.2 = true)
    (hfirst : ∀ m ∈ marks.head?, m.1 ∈ (" \t#@" : Bytes) → m.2 = true) :
    PlainLine (escape marks) (marks.map (·.1)) where
  spells := spells_escape hmarked
  nonempty := by simpa using hne
  plain := by
    intro b hb
    obtain ⟨m, hm, hb⟩ := List.mem_flatMap.1 hb
    have hbyte : Cursor.isPlain m.1 = true := by simpa [Cursor.isPlain] using hline m hm
    split at hb
    · simp only [List.mem_cons, List.not_mem_nil, or_false] at hb
      rcases hb with rfl | rfl
      · decide
      · exact hbyte
    · rwa [List.mem_singleton.1 hb]
  start := by
    obtain ⟨⟨b, marked⟩, rest, rfl⟩ := List.exists_cons_of_ne_nil hne
    cases marked with
    | true =>
      rintro b' ⟨⟩
      decide
    | false =>
      rintro b' ⟨⟩ hb
      have hfirst : b ∉ (" \t#@" : Bytes) := fun hin => Bool.false_ne_true (hfirst _ rfl hin)
      have hdash : b ≠ '-' := by
        rintro rfl
        exact Bool.false_ne_true (hmarked _ List.mem_cons_self (by decide))
      rw [show (" \t#@-" : Bytes) = (" \t#@" : Bytes) ++ ("-" : Bytes) by decide] at hb
      rcases List.mem_append.1 hb with hb | hb
      · exact hfirst hb
      · exact hdash (List.mem_singleton.1 hb)

/-- Every line can be written literally.  If a backslash stands in front of some bytes of a text,
and of every byte that can open something, the line is read as the text. -/
theorem parse_escape (hne : marks ≠ []) (hline : ∀ m ∈ marks, m.1 ≠ '\r' ∧ m.1 ≠ '\n')
    (hmarked : ∀ m ∈ marks, m.1 ∈ openingBytes → m.2 = true)
    (hfirst : ∀ m ∈ marks.head?, m.1 ∈ (" \t#@" : Bytes) → m.2 = true)
    (small : f.size < Word.modulus) (hcontent : f.bytes = escape marks ++ ("\n" : Bytes))
    {layout : Layout} (hlayout : layout.lineEnding = .lf) (maxErrors : Nat) :
    let span : Span := ⟨f.id, 0, (escape marks).length⟩
    parse f layout maxErrors
      = ⟨⟨f.id, [.paragraph { text := ⟨[], marks.map (·.1), span⟩, span }]⟩, .parsed, []⟩ := by
  have hplain := plainLine_escape hne hline hmarked hfirst
  obtain ⟨b, e, he, hgap, hb, hheader, -⟩ := hplain.exists_cons
  have hbefore : (Lexer.ofFile f layout).cursor.Before f (escape marks ++ ("\n" : Bytes)) :=
    ⟨⟨rfl, rfl, rfl, Nat.zero_le _, small⟩, hcontent⟩
  have hattrs := (Parse.ends_attributeLines_plainLine (s := { lexer := .ofFile f layout }) hplain
    hbefore (f.size + 1)).imp (Q := fun r s => r = ([], .parsed) ∧ s.log = #[]
      ∧ s.lexer.cursor.offset = 0 ∧ s.lexer.cursor.Before f (escape marks ++ ("\n" : Bytes))
      ∧ s.lexer.layout.Below "\n" []) fun r s hr => by
    obtain ⟨rfl, rfl⟩ := hr
    exact ⟨rfl, rfl, rfl, hbefore, .broken (.feed hlayout)⟩
  have hparse := Parse.parse_plainLine small hplain (b := b) (by rw [hcontent, he]; rfl) hgap hb
    hheader hattrs maxErrors
  simpa using hparse

/-- A text that would be a choice with an attribute is written literally. -/
theorem parse_escape_choice :
    let marks : List (UInt8 × Bool) := [('-', true), (' ', false), ('@', true), ('a', false)]
    let f : File := File.ofBytes 1 "a.story" "\\- \\@a\n"
    marks ≠ [] ∧ (∀ m ∈ marks, m.1 ≠ '\r' ∧ m.1 ≠ '\n')
      ∧ (∀ m ∈ marks, m.1 ∈ openingBytes → m.2 = true)
      ∧ (∀ m ∈ marks.head?, m.1 ∈ (" \t#@" : Bytes) → m.2 = true)
      ∧ f.size < Word.modulus ∧ f.bytes = escape marks ++ ("\n" : Bytes)
      ∧ parse f {} 0 = ⟨⟨1, [.paragraph { text := ⟨[], "- @a", ⟨1, 0, 6⟩⟩, span := ⟨1, 0, 6⟩ }]⟩,
          .parsed, []⟩ := by
  intro marks f
  have hline : ∀ m ∈ marks, m.1 ≠ '\r' ∧ m.1 ≠ '\n' := by decide +kernel
  have hmarked : ∀ m ∈ marks, m.1 ∈ openingBytes → m.2 = true := by decide +kernel
  have hfirst : ∀ m ∈ marks.head?, m.1 ∈ (" \t#@" : Bytes) → m.2 = true := by decide +kernel
  have small : f.size < Word.modulus := by decide +kernel
  have hcontent : f.bytes = escape marks ++ ("\n" : Bytes) := by decide +kernel
  exact ⟨List.cons_ne_nil _ _, hline, hmarked, hfirst, small, hcontent,
    parse_escape (List.cons_ne_nil _ _) hline hmarked hfirst small hcontent rfl 0⟩

end Escape

end Storyline.Markup
