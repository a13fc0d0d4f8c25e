import Storyline.Proofs.Markup.Layouts
import Storyline.Proofs.Markup.Progress

/-!
# What is left to read

A cursor inside a file stands before the bytes that are left of it (`Cursor.Before`).  What comes
next, where a run of bytes ends and where the line ends is said of those bytes alone, so that a
file that is put together from parts can be read part by part.

A line ends with the file, with a carriage return and a line feed in either layout, or with a line
feed alone where lines are said to end in line feeds.
-/

namespace Storyline

namespace Cursor

/-- A cursor inside a file, and the bytes that are left to be read. -/
structure Before (f : File) (c : Cursor) (rest : Bytes) : Prop where
  cursor : c.In f
  left : f.bytes.drop c.offset = rest

namespace Before

variable {f : File} {c : Cursor} {b : UInt8} {t rest : Bytes}

theorem offset_add (h : Before f c rest) : c.offset + rest.length = f.size := by
  have hwithin := h.cursor.within
  rw [← h.left, List.length_drop, File.bytes, Array.length_toList, ← File.size]
  omega

theorem byteAt (h : Before f c rest) (i : Nat) : c.byteAt (c.offset + i) = rest.getD i 0 := by
  rw [Cursor.byteAt, h.cursor.content, ← h.left, List.getD_eq_getElem?_getD, List.getElem?_drop,
    File.bytes, Array.getElem?_toList, Array.getD_eq_getD_getElem?]

theorem byteAt_mem (h : Before f c (t ++ rest)) {i : Nat} (hi : i < t.length) :
    c.byteAt (c.offset + i) ∈ t := by
  rw [h.byteAt, List.getD_eq_getElem?_getD, List.getElem?_append_left hi,
    List.getElem?_eq_getElem hi, Option.getD_some]
  exact List.getElem_mem hi

/-- Behind a first part of what is left stands the other one. -/
theorem move (h : Before f c (t ++ rest)) :
    Before f { c with offset := c.offset + t.length } rest := by
  have hsize := h.offset_add
  rw [List.length_append] at hsize
  refine ⟨h.cursor.moved (by omega), ?_⟩
  rw [← List.drop_drop, h.left, List.drop_left]

theorem slice (h : Before f c (t ++ rest)) :
    c.slice c.offset (c.offset + t.length) = t := by
  have hsize := h.offset_add
  rw [List.length_append] at hsize
  rw [Cursor.slice, h.cursor.limit, Nat.min_eq_left (by omega), Content.slice, h.cursor.content,
    Array.toList_extract, List.extract_eq_take_drop, ← File.bytes, h.left, Nat.add_sub_cancel_left,
    List.take_left]

theorem atEnd (h : Before f c rest) : c.atEnd = rest.isEmpty := by
  have hsize := h.offset_add
  rw [Cursor.atEnd, h.cursor.limit, ← hsize]
  cases rest <;> simp

theorem peek (h : Before f c (b :: rest)) : c.peek = b := by
  rw [Cursor.peek, h.atEnd]
  exact h.byteAt 0

theorem next (h : Before f c (b :: rest)) : c.next = { c with offset := c.offset + 1 } := by
  rw [Cursor.next, h.atEnd]
  rfl

theorem before_next (h : Before f c (b :: rest)) : Before f c.next rest := by
  rw [h.next]
  exact h.move (t := [b])

theorem matchesAt (h : Before f c rest) (p : Bytes) :
    c.matchesAt c.offset c.limit p = p.isPrefixOf rest := by
  induction p generalizing c rest with
  | nil => rfl
  | cons a p ih =>
    rw [Cursor.matchesAt]
    cases rest with
    | nil => simp [h.cursor.limit, ← h.offset_add]
    | cons b rest =>
      have hlt : c.offset < c.limit := by
        have hsize := h.offset_add
        rw [List.length_cons] at hsize
        rw [h.cursor.limit]
        omega
      have hb : c.byteAt c.offset = b := h.byteAt 0
      have hmove := ih (h.move (t := [b]))
      rw [matchesAt_moved] at hmove
      rw [hb, decide_eq_true hlt, Bool.true_and]
      exact congrArg₂ (· && ·) (by rw [Bool.beq_comm, beq_eq_decide]) hmove

theorem hasPrefix (h : Before f c rest) (p : Bytes) : c.hasPrefix p = p.isPrefixOf rest := by
  rw [Cursor.hasPrefix, h.matchesAt]
  cases p <;> rfl

theorem hasPrefix_of_ne (h : Before f c (b :: rest)) {a : UInt8} (hne : b ≠ a) (p : Bytes) :
    c.hasPrefix (a :: p) = false := by
  rw [h.hasPrefix, List.isPrefixOf_cons_cons, beq_false_of_ne hne.symm, Bool.false_and]

theorem runFrom (p : UInt8 → Bool) {i : Nat} (h : Before f { c with offset := i } rest) :
    c.runFrom p rest.length i = (rest.takeWhile p).length := by
  induction rest generalizing i with
  | nil => rfl
  | cons b rest ih =>
    have hb : c.byteAt i = b := h.byteAt 0
    have hrest : c.runFrom p rest.length (i + 1) = (rest.takeWhile p).length :=
      ih (h.move (t := [b]))
    rw [List.length_cons, Cursor.runFrom, hb, List.takeWhile_cons, hrest]
    cases p b <;> rfl

theorem runLength (h : Before f c rest) (p : UInt8 → Bool) :
    c.runLength p = (rest.takeWhile p).length := by
  rw [Cursor.runLength, h.cursor.limit, ← h.offset_add, Nat.add_sub_cancel_left]
  exact runFrom p h

/-- The first byte of some text is found behind everything in front of it that has no such byte. -/
theorem lineEnd (h : Before f c (t ++ rest)) {crlf : Bool} {p : Bytes}
    (hp : (if crlf then "\r\n" else "\n" : Bytes) = b :: p) (htext : b ∉ t)
    (hrest : rest = [] ∨ (b :: p).isPrefixOf rest) :
    c.lineEnd crlf = c.offset + t.length := by
  have hsize := h.offset_add
  rw [List.length_append] at hsize
  have hbefore (j : Nat) (hj : c.offset ≤ j) (hlt : j < c.offset + t.length) :
      c.matchesAt j c.limit (b :: p) = false := by
    obtain ⟨i, rfl⟩ := Nat.exists_eq_add_of_le hj
    have hi : i < t.length := by omega
    have hbyte : c.byteAt (c.offset + i) ≠ b := fun heq => htext (heq ▸ h.byteAt_mem hi)
    simp [Cursor.matchesAt, hbyte]
  rw [Cursor.lineEnd, positionOf?, Nat.min_self, hp, List.isEmpty_cons]
  simp only [Bool.false_eq_true, if_false]
  rcases hrest with rfl | hrest
  · rw [search_eq_none, Option.getD_none, h.cursor.limit, ← hsize, List.length_nil, Nat.add_zero]
    intro j hj
    by_cases hlt : j < c.offset + t.length
    · exact hbefore j hj hlt
    · have hlimit : ¬j < c.limit := by
        rw [h.cursor.limit, ← hsize]
        simpa using hlt
      simp [Cursor.matchesAt, hlimit]
  · have hpos := (List.isPrefixOf_iff_prefix.1 hrest).length_le
    rw [List.length_cons] at hpos
    rw [search_eq (Nat.le_add_right _ _) (by rw [h.cursor.limit]; omega) ?_ hbefore,
      Option.getD_some]
    have hmatch := h.move.matchesAt (b :: p)
    rw [matchesAt_moved] at hmatch
    exact hmatch.trans hrest

end Before

end Cursor

namespace Markup

/-! ## Lines -/

/-- What ends a line in a layout. -/
inductive Layout.Breaks (layout : Layout) : Bytes → Prop
  | pair : Breaks layout "\r\n"
  | feed (h : layout.lineEnding = .lf) : Breaks layout "\n"

/-- What is left behind the text of a line, and what is left below it: a line ends with the file or
with its ending. -/
inductive Layout.Below (layout : Layout) : Bytes → Bytes → Prop
  | last : Below layout [] []
  | broken {ending below : Bytes} (h : layout.Breaks ending) : Below layout (ending ++ below) below

theorem Layout.Below.head {layout : Layout} {rest below : Bytes} (h : layout.Below rest below) :
    ∀ b ∈ rest.head?, Cursor.isPlain b = false := by
  cases h with
  | last => exact fun b hb => by cases hb
  | broken h =>
    cases h with
    | pair | feed =>
      rintro b ⟨⟩
      decide

/-- No blanks are left where the text of a line ends. -/
theorem Layout.Below.takeWhile_isGap {layout : Layout} {rest below : Bytes}
    (h : layout.Below rest below) : rest.takeWhile Bytes.isGap = [] := by
  cases rest with
  | nil => rfl
  | cons b rest =>
    refine List.takeWhile_cons_of_neg fun hgap => ?_
    have hplain := h.head b rfl
    rw [Lexer.isPlain_of_isGap hgap] at hplain
    cases hplain

namespace Lexer

variable {f : File} {l : Lexer} {text ending rest below : Bytes}

/-- The next line starts behind the ending of this one. -/
theorem before_skipLine (h : l.cursor.Before f (text ++ (ending ++ below)))
    (hend : l.lineEnd = l.cursor.offset + text.length)
    (hwidth : ending.length = l.layout.lineEnding.width) : l.skipLine.cursor.Before f below := by
  have hsize := h.offset_add
  have hmoved : (l.moveTo l.lineEnd).cursor.Before f (ending ++ below) := by
    rw [hend]
    exact h.move
  have hlt : l.lineEnd < f.size := by
    have hpos : 0 < ending.length := by
      rw [hwidth]
      cases l.layout.lineEnding <;> decide
    rw [hend]
    simp only [List.length_append] at hsize
    omega
  have hat := atLineEnding_lineEnd h.cursor hlt
  rw [skipLine, eatLineEnding?_of_atLineEnding (peek_moveTo h.cursor hlt).1 hat, Option.getD_some]
  dsimp only
  rw [Cursor.skip_eq hmoved.cursor (lineEnding_bound hmoved.cursor hat)]
  exact hwidth ▸ hmoved.move

/-- There is no line below the last one. -/
theorem before_skipLine_last (h : l.cursor.Before f text)
    (hend : l.lineEnd = l.cursor.offset + text.length) : l.skipLine.cursor.Before f [] := by
  have hsize := h.offset_add
  have hmoved : (l.moveTo l.lineEnd).cursor.Before f [] := by
    rw [hend]
    exact Cursor.Before.move (by rwa [List.append_nil])
  rw [skipLine, eatLineEnding?_of_atEnd hmoved.atEnd]
  exact hmoved

/-- The text of a line without carriage returns in it is the whole line. -/
theorem textEnd_of_lineEnd (h : l.cursor.Before f (text ++ rest)) (htext : ('\r' : UInt8) ∉ text)
    (hend : l.lineEnd = l.cursor.offset + text.length) :
    l.textEnd = l.cursor.offset + text.length := by
  rw [textEnd, if_neg, hend]
  simp only [Bool.and_eq_true, decide_eq_true_eq, hend]
  rintro ⟨⟨-, hlt⟩, hlast⟩
  rw [Nat.add_sub_assoc (by omega)] at hlast
  exact htext (hlast ▸ h.byteAt_mem (by omega))

/-- A line without line endings in it is read up to its end, and left for what stands below it. -/
theorem line_of_below (h : l.cursor.Before f (text ++ rest))
    (hplain : ∀ b ∈ text, Cursor.isPlain b = true) (hrest : l.layout.Below rest below) :
    l.textEnd = l.cursor.offset + text.length ∧ l.skipLine.cursor.Before f below := by
  have hreturn : ('\r' : UInt8) ∉ text := fun hin => absurd (hplain _ hin) (by decide)
  have hfeed : ('\n' : UInt8) ∉ text := fun hin => absurd (hplain _ hin) (by decide)
  have hlf (hl : l.layout.lineEnding = .lf) : l.layout.isCrlf = false := by simp [Layout.isCrlf, hl]
  have hcrlf (hl : l.layout.lineEnding = .crlf) : l.layout.isCrlf = true := by
    simp [Layout.isCrlf, hl]
  -- the line is the last one, or it is broken in a way that the layout knows
  cases hrest with
  | last =>
    have hend : l.lineEnd = l.cursor.offset + text.length := by
      cases hl : l.layout.lineEnding with
      | lf => rw [lineEnd, hlf hl, h.lineEnd rfl hfeed (.inl rfl)]
      | crlf => rw [lineEnd, hcrlf hl, h.lineEnd rfl hreturn (.inl rfl)]
    exact ⟨textEnd_of_lineEnd h hreturn hend, before_skipLine_last (List.append_nil text ▸ h) hend⟩
  | broken hbreaks =>
    cases hbreaks with
    | feed hl =>
      have hend : l.lineEnd = l.cursor.offset + text.length := by
        rw [lineEnd, hlf hl, h.lineEnd rfl hfeed (.inr rfl)]
      exact ⟨textEnd_of_lineEnd h hreturn hend, before_skipLine h hend (by rw [hl]; rfl)⟩
    | pair =>
      cases hl : l.layout.lineEnding with
      | crlf =>
        have hend : l.lineEnd = l.cursor.offset + text.length := by
          rw [lineEnd, hcrlf hl, h.lineEnd rfl hreturn (.inr rfl)]
        exact ⟨textEnd_of_lineEnd h hreturn hend, before_skipLine h hend (by rw [hl]; rfl)⟩
      | lf =>
        -- the line goes on to the line feed, but its text stops before the carriage return
        have h' : l.cursor.Before f ((text ++ ("\r" : Bytes)) ++ (("\n" : Bytes) ++ below)) := by
          rw [List.append_assoc]
          exact h
        have hfeed' : ('\n' : UInt8) ∉ text ++ ("\r" : Bytes) := by
          rw [List.mem_append, not_or]
          exact ⟨hfeed, by decide⟩
        have hend : l.lineEnd = l.cursor.offset + (text ++ ("\r" : Bytes)).length := by
          rw [lineEnd, hlf hl, h'.lineEnd rfl hfeed' (.inr rfl)]
        refine ⟨?_, before_skipLine h' hend (by rw [hl]; rfl)⟩
        have hbyte : l.cursor.byteAt (l.cursor.offset + text.length) = '\r' := h.move.byteAt 0
        rw [textEnd, hend, List.length_append, show ("\r" : Bytes).length = 1 from rfl, if_pos]
        · omega
        · simp [hlf hl, ← Nat.add_assoc, hbyte]

end Lexer

end Markup

end Storyline
