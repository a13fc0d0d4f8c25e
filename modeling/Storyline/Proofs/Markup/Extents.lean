import Storyline.Proofs.Markup.Texts

/-!
# Texts end on their line

A text that is read up to `stop` is never left behind `stop`, as long as `stop` is where a line
ends: no delimiter reaches over a line ending, so nothing that is skipped as a whole does.
-/

namespace Storyline

/-- A place where the file or a line of it ends. -/
structure File.BreaksAt (f : File) (stop : Nat) : Prop where
  within : stop ≤ f.size
  ending : stop = f.size ∨ Cursor.isPlain (f.content.getD stop 0) = false

namespace Cursor

variable {c : Cursor} {f : File} {stop : Nat}

theorem matchesAt_plain {i : Nat} : {p : Bytes} → c.matchesAt i stop p →
    p.all isPlain = true → ∀ j < p.length, isPlain (c.byteAt (i + j)) = true
  | [], _, _ => by simp
  | b :: p, h, hp => by
    rw [List.all_cons, Bool.and_eq_true] at hp
    obtain ⟨hb, hp⟩ := hp
    intro j hj
    cases j with
    | zero => rw [Nat.add_zero, byteAt_of_matchesAt h, hb]
    | succ j =>
      rw [matchesAt, Bool.and_eq_true] at h
      have := matchesAt_plain h.2 hp j (Nat.lt_of_succ_lt_succ hj)
      rwa [Nat.add_assoc, Nat.add_comm 1] at this

/-- A delimiter on a line ends on the line. -/
theorem hasPrefix_le (h : c.In f) (hstop : f.BreaksAt stop) (hle : c.offset ≤ stop) {p : Bytes}
    (hp : p.all isPlain = true) (hc : c.hasPrefix p) : c.offset + p.length ≤ stop := by
  by_cases he : p = []
  · simpa [he] using hle
  · have hm : c.matchesAt c.offset c.limit p := by simpa [hasPrefix, he] using hc
    refine le_of_isPlain hle (matchesAt_plain hm hp) ?_
    rcases hstop.ending with heq | hbyte
    · exact .inl (heq ▸ hasPrefix_bound h hc)
    · exact .inr (by rw [byteAt, h.content]; exact hbyte)

theorem positionOf?_le {p : Bytes} {i : Nat} (hi : c.positionOf? p stop = some i) :
    c.offset ≤ i ∧ i + p.length ≤ stop := by
  obtain ⟨hle, hm, hp⟩ := positionOf?_bound hi
  have := matchesAt_bound hp hm
  exact ⟨hle, by omega⟩

theorem closeOffset?_lt {opening closing : UInt8} {i : Nat}
    (hi : c.closeOffset? opening closing stop = some i) : c.offset ≤ i ∧ i < stop := by
  rw [closeOffset?, Option.map_eq_some_iff] at hi
  obtain ⟨n, hn, rfl⟩ := hi
  have hlt := closeDistance_go_lt (by exact hn)
  rw [slice, Content.length_slice] at hlt
  omega

end Cursor

namespace Markup

variable {f : File} {s : ParserState} {stop : Nat}

theorem Lexer.textEnd_breaks {l : Lexer} (h : l.cursor.In f) : f.BreaksAt l.textEnd := by
  refine ⟨(textEnd_within h).2, ?_⟩
  rw [textEnd]
  split
  · next hc =>
    simp only [Bool.and_eq_true, decide_eq_true_eq] at hc
    exact .inr (by rw [← h.content, ← Cursor.byteAt, hc.2]; rfl)
  · rcases Cursor.lineEnd_byte h l.layout.isCrlf with he | hb
    · exact .inl he
    · exact .inr (by rw [← h.content]; exact hb)

theorem Style.delimiter_plain (style : Style) :
    style.delimiter.all Cursor.isPlain = true := by
  cases style <;> decide

/-- A delimiter that opens before the end of a line ends on the line. -/
def Opening.Ends (c : Cursor) (stop : Nat) : Opening → Prop
  | .styled style => c.offset + style.delimiter.length ≤ stop
  | .join => c.offset + 2 ≤ stop
  | .divert => c.hasPrefix "<->" ∨ c.hasPrefix "->"
  | _ => True

theorem Opening.ofCursor_ends {c : Cursor} (h : c.In f) (hstop : f.BreaksAt stop)
    (hlt : c.offset < stop) : (Opening.ofCursor c stop).Ends c stop := by
  have hprefix {p : Bytes} (hp : p.all Cursor.isPlain = true) (hc : c.hasPrefix p) :
      c.offset + p.length ≤ stop := Cursor.hasPrefix_le h hstop (Nat.le_of_lt hlt) hp hc
  have hat := ofCursor_at c stop
  generalize ofCursor c stop = o at hat ⊢
  cases o with
  | styled style =>
    cases style with
    | italics => exact hlt
    | bold | underline => exact hprefix (by decide) hat
  | join => exact hprefix (by decide) hat
  | divert => exact hat
  | escape | code | script | literal => trivial

theorem Style.closesAt_le {c : Cursor} (h : c.In f) (hstop : f.BreaksAt stop)
    (hlt : c.offset < stop) {style : Style} (hc : style.closesAt c) :
    c.offset + style.delimiter.length ≤ stop := by
  cases style with
  | italics => exact hlt
  | bold | underline =>
    exact Cursor.hasPrefix_le h hstop (Nat.le_of_lt hlt) (Style.delimiter_plain _) hc

namespace Parse

/-! ## Elements -/

/-- The run from a state ends at `stop` at the latest. -/
def EndsBy (stop : Nat) (s : ParserState) : Prop := s.lexer.cursor.offset ≤ stop

theorem codeSpan_le (hle : EndsBy stop s) : Ends (codeSpan stop) s fun _ s' => EndsBy stop s' := by
  simp only [codeSpan, ends_bind, ends_cursor]
  split
  · exact hle
  · next close hc => exact (Cursor.positionOf?_le hc).2

theorem scriptSpan_le (hle : EndsBy stop s) :
    Ends (scriptSpan stop) s fun _ s' => EndsBy stop s' := by
  simp only [scriptSpan, ends_bind, ends_cursor]
  split
  · exact hle
  · next close hc => exact (Cursor.closeOffset?_lt hc).2

theorem inlineDivert_le (h : Stands f s) (hstop : f.BreaksAt stop) (hle : EndsBy stop s)
    (hp : s.lexer.cursor.hasPrefix "<->" ∨ s.lexer.cursor.hasPrefix "->") :
    Ends (inlineDivert stop) s fun _ s' => EndsBy stop s' := by
  simp only [inlineDivert, ends_bind, ends_cursor]
  have hc := h.cursor
  have hle : s.lexer.cursor.offset ≤ stop := hle
  generalize s.lexer.cursor = c at hp hc hle ⊢
  generalize harrow : (if c.hasPrefix "<->" then { c with offset := c.offset + 3 } else c.skip 2)
    = arrow
  have harrow_le : arrow.offset ≤ stop := by
    rw [← harrow]
    split
    · next ht => exact Cursor.hasPrefix_le hc hstop hle (p := "<->") (by decide) ht
    · next ht =>
      have hp := hp.resolve_left ht
      have hskip : (c.skip 2).offset = c.offset + 2 :=
        Cursor.skip_offset hc (Cursor.hasPrefix_bound hc hp)
      rw [hskip]
      exact Cursor.hasPrefix_le hc hstop hle (p := "->") (by decide) hp
  generalize hstart : max arrow.offset (min stop (arrow.skipWhile Bytes.isGap).offset) = start
  generalize hraw : c.slice start _ = raw
  have hend : start + raw.length ≤ stop := by
    rw [← hraw, Cursor.slice, Content.length_slice]
    omega
  rw [ends_moveTo]
  split
  · exact hend
  · exact hend

/-! ## Texts -/

variable {inner : Style → Parse TextResult}

theorem styledSpan_le (hle : EndsBy stop s) {style : Style} (h : Stands f s)
    (hfit : s.lexer.cursor.offset + style.delimiter.length ≤ stop) (hstop : stop ≤ f.size)
    (hinner : ∀ style s, Stands f s → EndsBy stop s →
      Ends (inner style) s fun _ s' => EndsBy stop s') :
    Ends (styledSpan inner stop style) s fun _ s' => EndsBy stop s' := by
  simp only [styledSpan, ends_bind, ends_get]
  split
  · exact hle
  · have hskip := Cursor.skip_offset h.cursor (Nat.le_trans hfit hstop)
    simp only [ends_bind, ends_moveTo]
    have hm := h.moveTo (d := s.log) (n := (s.lexer.cursor.skip style.delimiter.length).offset)
      (by omega) (by omega)
    refine (hinner style _ hm.stands (by rw [hskip]; exact hfit)).imp fun r s' hr => ?_
    split
    · exact hr
    · exact hle

theorem literalOpening_le (h : Stands f s) (draft : Draft) (code : Code) {delimiter : Bytes}
    (hfit : s.lexer.cursor.offset + delimiter.length ≤ stop) (hstop : stop ≤ f.size) :
    Ends (literalOpening draft code delimiter) s fun _ s' => EndsBy stop s' := by
  simp only [literalOpening, ends_bind, ends_offset, ends_unclosed, ends_complain, ends_mapCursor,
    ends_pure]
  have := Cursor.skip_offset h.cursor (Nat.le_trans hfit hstop)
  rw [EndsBy, this]
  exact hfit

theorem textStep_le (h : Stands f s) (hstop : f.BreaksAt stop)
    (hlt : s.lexer.cursor.offset < stop) (draft : Draft)
    (hstand : ∀ style s, Stands f s → Ends (inner style) s (ReadText f s))
    (hinner : ∀ style s, Stands f s → EndsBy stop s →
      Ends (inner style) s fun _ s' => EndsBy stop s') :
    Ends (textStep inner stop draft) s fun _ s' => EndsBy stop s' := by
  have hends := Opening.ofCursor_ends h.cursor hstop hlt
  have hle : EndsBy stop s := Nat.le_of_lt hlt
  have hsize : s.lexer.cursor.offset < f.size := Nat.lt_of_lt_of_le hlt hstop.within
  have hnext := Cursor.next_offset h.cursor hsize
  have hopening (code : Code) (b : UInt8) :
      Ends (literalOpening draft code [b]) s fun _ s' => EndsBy stop s' :=
    literalOpening_le h draft code hlt hstop.within
  -- by what the text at the cursor may start; what comes to nothing is read as the bytes it stands
  -- for
  simp only [textStep, ends_bind, ends_cursor]
  cases ho : Opening.ofCursor s.lexer.cursor stop with
  | literal =>
    simp only [ends_bind, ends_mapCursor, ends_pure]
    rw [EndsBy, hnext]
    exact hlt
  | escape =>
    have hin := (Cursor.next_ahead h.cursor).here
    simp only
    -- a backslash takes the byte behind it along, if there is one before the end
    split
    · next hlt' =>
      simp only [ends_bind, ends_moveTo, ends_pure]
      have := Cursor.next_offset hin (Nat.lt_of_lt_of_le hlt' hstop.within)
      show s.lexer.cursor.next.next.offset ≤ stop
      omega
    · simp only [ends_bind, ends_moveTo, ends_pure]
      show s.lexer.cursor.next.offset ≤ stop
      omega
  | styled style =>
    rw [ho] at hends
    -- the delimiter does not reach over the end
    have hfit : s.lexer.cursor.offset + style.delimiter.length ≤ f.size :=
      Nat.le_trans hends hstop.within
    simp only [ends_bind]
    refine ((ends_styledSpan h stop hfit hstand).and
      (styledSpan_le hle h hends hstop.within hinner)).imp fun r s' hr => ?_
    cases r with
    | some p => exact hr.2
    | none =>
      cases hr.1
      exact literalOpening_le h draft _ hends hstop.within
  | code =>
    simp only [ends_bind]
    refine (Ends.and (ends_codeSpan h stop) (codeSpan_le hle)).imp fun r s' hr => ?_
    cases r with
    | some e => exact hr.2
    | none =>
      cases hr.1
      exact hopening _ _
  | script =>
    simp only [ends_bind]
    refine (Ends.and (ends_scriptSpan h stop) (scriptSpan_le hle)).imp fun r s' hr => ?_
    cases r with
    | some e => exact hr.2
    | none =>
      cases hr.1
      exact hopening _ _
  | join =>
    rw [ho] at hends
    simp only [ends_bind, ends_mapCursor, ends_offset, ends_pure]
    have : (s.lexer.cursor.skip 2).offset = s.lexer.cursor.offset + 2 :=
      Cursor.skip_offset h.cursor (Nat.le_trans hends hstop.within)
    show (s.lexer.cursor.skip 2).offset ≤ stop
    rw [this]
    exact hends
  | divert =>
    rw [ho] at hends
    simp only [ends_bind]
    refine (inlineDivert_le h hstop hle hends).imp fun o s' hr => ?_
    split
    -- the blanks behind a divert are passed, but not over the end
    · simp only [ends_bind, ends_mapCursor, ends_pure]
      have : s'.lexer.cursor.offset ≤ stop := hr
      show max s'.lexer.cursor.offset (min stop _) ≤ stop
      omega
    · exact hr

theorem textFrom_le (hstop : f.BreaksAt stop) (fuel : Nat) (h : Stands f s) (hle : EndsBy stop s)
    (closer : Option Style) (start : Nat) {draft : Draft} (hd : draft.Exact f) (out : Outcome) :
    Ends (textFrom fuel stop closer start draft out) s fun _ s' => EndsBy stop s' := by
  induction fuel generalizing s closer start draft out with
  | zero => exact hle
  | succ fuel ih =>
    have hempty : Draft.Exact f {} := by simp [Draft.Exact, Inline.scriptsOf]
    simp only [textFrom, ends_bind, ends_cursor]
    split
    · exact hle
    · next hlt =>
      have hlt := Nat.lt_of_not_le hlt
      split
      · next style hc =>
        have hfit := Style.closesAt_le h.cursor hstop hlt (Option.filter_eq_some_iff.mp hc).2
        have := Cursor.skip_offset h.cursor (Nat.le_trans hfit hstop.within)
        simp only [ends_bind, ends_mapCursor, ends_pure]
        rw [EndsBy, this]
        exact hfit
      · have hstand (style : Style) (s : ParserState) (hs : Stands f s) := by
          exact ends_textFrom hstop.within fuel hs (some style) s.lexer.cursor.offset hempty .parsed
        rw [ends_bind]
        refine ((ends_textStep h hlt hstop.within hd hstand).and
          (textStep_le h hstop hlt draft hstand ?_)).imp fun r s' hr => ?_
        · exact fun style s hs hle => ih hs hle (some style) _ hempty _
        · exact ih hr.1.1.stands hr.2 closer start hr.1.2 _

/-- The rest of a line is read up to its end at most. -/
theorem lineText_le (h : Stands f s) :
    Ends lineText s fun _ s' => EndsBy s.lexer.textEnd s' := by
  simp only [lineText, ends_bind, ends_get, ends_textEnd, ends_offset]
  exact textFrom_le (Lexer.textEnd_breaks h.cursor) _ h (Lexer.textEnd_within h.cursor).1 none _
    (by simp [Draft.Exact, Inline.scriptsOf]) _

end Parse

end Markup

end Storyline
