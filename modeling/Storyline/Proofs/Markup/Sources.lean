import Storyline.Proofs.Markup.Extents

/-!
# Texts are read without loss

A text that is read up to the end of a line is written as it stands there (`source_textFrom`), if
nothing on the line is left out of texts on purpose: a backslash, or a divert with its arrow.

What is read is what stands between two places of the cursor (`Reads`), so what is read one after
the other adds up.  Each step adds to the draft just what it reads.  A styled text is written as it
was read if its end was found; if not, the state is put back, and its delimiter is read again as
what it is, a run of bytes.
-/

namespace Storyline

/-! ## Parts of a file -/

/-- What stands between two delimiters, with the delimiters around it. -/
theorem Content.slice_enclosed (c : Content) {i j k l : Nat} {opening closing : Bytes}
    (hopening : c.slice i j = opening) (hclosing : c.slice k l = closing) (hij : i ≤ j)
    (hjk : j ≤ k) (hkl : k ≤ l) : c.slice i l = opening ++ c.slice j k ++ closing := by
  rw [← c.slice_append (Nat.le_trans hij hjk) hkl, ← c.slice_append hij hjk, hopening, hclosing]

theorem Content.mem_slice (c : Content) {start stop i : Nat} (hstart : start ≤ i) (hi : i < stop)
    (hstop : stop ≤ c.size) : c.getD i 0 ∈ c.slice start stop := by
  rw [← c.slice_append hstart (Nat.le_of_lt hi), c.slice_eq_cons hi hstop]
  exact List.mem_append_right _ List.mem_cons_self

/-- Nothing between two places is left out of a text: no byte there escapes another one, and no
arrow stands there. -/
structure File.Kept (f : File) (lo hi : Nat) : Prop where
  unescaped : ∀ i, lo ≤ i → i < hi → f.content.getD i 0 ≠ '\\'
  no_arrow : ∀ i, lo ≤ i → i + 2 ≤ hi → f.content.slice i (i + 2) ≠ ("->" : Bytes)

theorem File.Kept.of_line {f : File} {lo hi : Nat} (hsize : hi ≤ f.size)
    (hescape : ('\\' : UInt8) ∉ f.content.slice lo hi)
    (harrow : ¬ ("->" : Bytes) <:+: f.content.slice lo hi) : f.Kept lo hi where
  unescaped i hlo hhi heq := hescape (heq ▸ f.content.mem_slice hlo hhi hsize)
  no_arrow i hlo hhi heq := harrow ⟨f.content.slice lo i, f.content.slice (i + 2) hi, by
    rw [← heq, f.content.slice_append hlo (Nat.le_add_right _ _),
      f.content.slice_append (Nat.le_add_right_of_le hlo) hhi]⟩

theorem File.Kept.behind {f : File} {lo hi i : Nat} (h : f.Kept lo hi) (hle : lo ≤ i) :
    f.Kept i hi where
  unescaped j hj := h.unescaped j (Nat.le_trans hle hj)
  no_arrow j hj := h.no_arrow j (Nat.le_trans hle hj)

namespace Cursor

variable {c : Cursor} {f : File} {stop : Nat}

theorem slice_eq_content (h : c.In f) (start : Nat) (hstop : stop ≤ f.size) :
    c.slice start stop = f.content.slice start stop := by
  rw [slice, h.content, h.limit, Nat.min_eq_left hstop]

theorem slice_of_matchesAt (h : c.In f) (hstop : stop ≤ f.size) :
    {p : Bytes} → {i : Nat} → c.matchesAt i stop p → f.content.slice i (i + p.length) = p
  | [], i, _ => f.content.slice_self i
  | b :: p, i, hm => by
    have hbound := matchesAt_bound (List.cons_ne_nil b p) hm
    rw [List.length_cons] at hbound ⊢
    have hb : c.byteAt i = b := byteAt_of_matchesAt hm
    rw [matchesAt, Bool.and_eq_true] at hm
    have hrest := slice_of_matchesAt h hstop hm.2
    rw [Content.slice_eq_cons _ (by omega) (Nat.le_trans hbound hstop), ← h.content, ← byteAt, hb,
      h.content, ← Nat.add_assoc, Nat.add_right_comm, hrest]

theorem slice_of_hasPrefix (h : c.In f) {p : Bytes} (hp : c.hasPrefix p) :
    f.content.slice c.offset (c.offset + p.length) = p := by
  by_cases he : p = []
  · subst he
    exact f.content.slice_self _
  · have hm : c.matchesAt c.offset c.limit p := by simpa [hasPrefix, he] using hp
    exact slice_of_matchesAt h (Nat.le_of_eq h.limit) hm

theorem slice_of_peek (h : c.In f) {b : UInt8} (hb : c.peek = b) (hlt : c.offset < f.size) :
    f.content.slice c.offset (c.offset + 1) = [b] := by
  have hb : f.content.getD c.offset 0 = b := by
    rw [← hb, peek, if_neg (by simpa [atEnd, h.limit] using hlt), byteAt, h.content]
  rw [Content.slice_eq_cons _ (Nat.lt_succ_self _) hlt, hb, Content.slice_self]

/-- Where a bracket is found to close stands the closing one. -/
theorem closeDistance_go_closing {opening closing : UInt8} {depth : Nat} {quote : Option UInt8}
    {i n : Nat} {text : Bytes}
    (h : Markup.closeDistance.go opening closing depth quote i text = some n) :
    ∃ k, n = i + k ∧ text[k]? = some closing := by
  fun_induction Markup.closeDistance.go opening closing depth quote i text with
  | case1 | case2 => cases h
  | case7 =>
    cases h
    exact ⟨0, rfl, rfl⟩
  | case3 =>
    next ih =>
    obtain ⟨k, rfl, hk⟩ := ih h
    exact ⟨k + 2, by omega, hk⟩
  | case4 | case5 | case6 | case8 | case9 =>
    next ih =>
    obtain ⟨k, rfl, hk⟩ := ih h
    exact ⟨k + 1, by omega, hk⟩

theorem byte_of_closeOffset? (h : c.In f) {opening closing : UInt8} {i : Nat}
    (hi : c.closeOffset? opening closing stop = some i) : f.content.getD i 0 = closing := by
  rw [closeOffset?, Option.map_eq_some_iff] at hi
  obtain ⟨n, hn, rfl⟩ := hi
  obtain ⟨k, rfl, hbyte⟩ := closeDistance_go_closing (by exact hn)
  rw [slice, Content.slice, Array.getElem?_toList, Array.getElem?_extract] at hbyte
  split at hbyte
  · rw [Nat.zero_add, ← h.content, Array.getD_eq_getD_getElem?, hbyte, Option.getD_some]
  · cases hbyte

end Cursor

namespace Markup

variable {f : File} {s s' s'' : ParserState} {stop : Nat}

/-! ## What is written -/

theorem Inline.sourceParts_append (ps qs : List (Bytes × Inline)) :
    sourceParts (ps ++ qs) = sourceParts ps ++ sourceParts qs := by
  induction ps with
  | nil => rfl
  | cons p ps ih => simp [sourceParts, ih]

theorem Style.delimiter_ne_nil (style : Style) : style.delimiter ≠ [] := by
  cases style <;> decide

/-- No element is written as nothing. -/
theorem Inline.source_ne_nil (e : Inline) : e.source ≠ [] := by
  have hbrace : ("\x7b" : Bytes) ≠ [] := by decide
  have hjoin : ("<>" : Bytes) ≠ [] := by decide
  cases e with
  | styled style => simp [source, style.delimiter_ne_nil]
  | code => simp [source]
  | join => simpa [source] using hjoin
  | script => simp [source, hbrace]

namespace Draft

variable (d : Draft)

/-- The draft as it is written. -/
def source : Bytes := Inline.sourceParts d.parts.toList ++ d.run.toList

theorem source_write (b : UInt8) : (d.write b).source = d.source ++ [b] := by
  simp [source, write]

theorem source_append (bs : Bytes) : (d.append bs).source = d.source ++ bs := by
  simp [source, append]

theorem source_insert (e : Inline) : (d.insert e).source = d.source ++ e.source := by
  simp [source, insert, Inline.sourceParts_append, Inline.sourceParts]

end Draft

/-! ## What stands at the cursor -/

/-- What opens at the cursor is written there. -/
def Opening.Shows (f : File) (c : Cursor) : Opening → Prop
  | .styled style => f.content.slice c.offset (c.offset + style.delimiter.length) = style.delimiter
  | .code => c.peek = 0x60
  | .script => c.peek = 0x7B
  | .join => f.content.slice c.offset (c.offset + 2) = ("<>" : Bytes)
  | .escape | .divert => False
  | .literal => True

theorem Opening.ofCursor_shows {c : Cursor} (h : c.In f) (hstop : f.BreaksAt stop)
    (hlt : c.offset < stop) (hkept : f.Kept c.offset stop) : (ofCursor c stop).Shows f c := by
  have hsize : c.offset < f.size := Nat.lt_of_lt_of_le hlt hstop.within
  have hat := ofCursor_at c stop
  generalize ofCursor c stop = o at hat ⊢
  cases o with
  | escape =>
    refine hkept.unescaped c.offset (Nat.le_refl _) hlt ?_
    rw [← h.content, ← Cursor.byteAt]
    exact Cursor.byteAt_of_peek h hat (by decide)
  | styled style =>
    cases style with
    | italics => exact Cursor.slice_of_peek h hat hsize
    | bold | underline => exact Cursor.slice_of_hasPrefix h hat
  | code | script => exact hat
  | divert =>
    rcases hat with hp | hp
    · have hslice := Cursor.slice_of_hasPrefix h hp
      have hle := Cursor.hasPrefix_le h hstop (Nat.le_of_lt hlt) (p := "<->") (by decide) hp
      refine hkept.no_arrow (c.offset + 1) (Nat.le_succ _) hle ?_
      have hsplit := f.content.slice_append (Nat.le_succ c.offset) (Nat.le_add_right _ 2)
      have hfirst : (f.content.slice c.offset (c.offset + 1)).length = 1 := by
        rw [Content.length_slice]
        have : f.size = f.content.size := rfl
        omega
      have hcut := congrArg (List.drop 1) (hsplit.trans hslice)
      rw [List.drop_left' hfirst] at hcut
      exact hcut
    · exact hkept.no_arrow _ (Nat.le_refl _)
        (Cursor.hasPrefix_le h hstop (Nat.le_of_lt hlt) (p := "->") (by decide) hp)
        (Cursor.slice_of_hasPrefix h hp)
  | join => exact Cursor.slice_of_hasPrefix h hat
  | literal => trivial

/-- Where a styled text ends stands its delimiter. -/
theorem Style.closesAt_shows {c : Cursor} (h : c.In f) (hlt : c.offset < f.size) {style : Style}
    (hc : style.closesAt c) :
    f.content.slice c.offset (c.offset + style.delimiter.length) = style.delimiter := by
  cases style with
  | italics =>
    simp only [closesAt, Bool.and_eq_true, decide_eq_true_eq] at hc
    exact Cursor.slice_of_peek h hc.1 hlt
  | bold | underline => exact Cursor.slice_of_hasPrefix h hc

namespace Parse

/-! ## What is read -/

/-- Between two states a text of the file was read. -/
structure Reads (f : File) (s s' : ParserState) (text : Bytes) : Prop where
  reaches : Reaches f s s'
  text : f.content.slice s.lexer.cursor.offset s'.lexer.cursor.offset = text

theorem Reads.refl (h : Stands f s) : Reads f s s [] := ⟨.refl h, f.content.slice_self _⟩

theorem Reads.trans {text text' : Bytes} (h : Reads f s s' text) (k : Reads f s' s'' text') :
    Reads f s s'' (text ++ text') := by
  refine ⟨h.reaches.trans k.reaches, ?_⟩
  rw [← f.content.slice_append h.reaches.forward k.reaches.forward, h.text, k.text]

theorem Reads.onward {text : Bytes} (h : Reads f s s' text) (hne : text ≠ []) :
    s.lexer.cursor.offset < s'.lexer.cursor.offset := by
  refine Nat.lt_of_le_of_ne h.reaches.forward fun heq => hne ?_
  rw [← h.text, ← heq, Content.slice_self]

/-- Moving on reads what is passed. -/
theorem Reads.moveTo (h : Stands f s) {n : Nat} {d : Array Diagnostic}
    (hn : s.lexer.cursor.offset ≤ n) (hsize : n ≤ f.size) {text : Bytes}
    (htext : f.content.slice s.lexer.cursor.offset n = text) :
    Reads f s { lexer := s.lexer.moveTo n, log := d, lifted := s.lifted } text :=
  ⟨h.moveTo hn hsize, htext⟩

/-- An element was read as it is written, or nothing happened. -/
def ReadsInline (f : File) (s : ParserState) : Option Inline → ParserState → Prop
  | none, s' => s' = s
  | some e, s' => Reads f s s' e.source

theorem reads_codeSpan (h : Stands f s) (hopen : s.lexer.cursor.peek = 0x60) (stop : Nat) :
    Ends (codeSpan stop) s (ReadsInline f s) := by
  have hlt := Cursor.lt_of_peek h.cursor hopen (by decide)
  have hnext := Cursor.next_offset h.cursor hlt
  have hin := (Cursor.next_ahead h.cursor).here
  simp only [codeSpan, ends_bind, ends_cursor]
  split
  · exact rfl
  · next close hclose =>
    obtain ⟨hle, hfit⟩ := Cursor.positionOf?_within hin hclose
    obtain ⟨-, hm, -⟩ := Cursor.positionOf?_bound hclose
    have hdelimiter : f.content.slice close (close + 1) = [0x60] :=
      Cursor.slice_of_matchesAt hin (by rw [hin.limit]; exact Nat.min_le_right _ _) hm
    rw [hnext] at hle
    refine Reads.moveTo h (by omega) hfit ?_
    rw [Inline.source, hnext, Cursor.slice_eq_content h.cursor _ (by omega)]
    exact f.content.slice_enclosed (Cursor.slice_of_peek h.cursor hopen hlt) hdelimiter
      (Nat.le_succ _) hle (Nat.le_succ _)

theorem reads_scriptSpan (h : Stands f s) (hopen : s.lexer.cursor.peek = 0x7B) (stop : Nat) :
    Ends (scriptSpan stop) s (ReadsInline f s) := by
  have hlt := Cursor.lt_of_peek h.cursor hopen (by decide)
  have hnext := Cursor.next_offset h.cursor hlt
  have hin := (Cursor.next_ahead h.cursor).here
  simp only [scriptSpan, ends_bind, ends_cursor]
  split
  · exact rfl
  · next close hclose =>
    obtain ⟨hle, hfit⟩ := Cursor.closeOffset?_within hin hclose
    have hdelimiter : f.content.slice close (close + 1) = ("\x7d" : Bytes) := by
      rw [Content.slice_eq_cons _ (Nat.lt_succ_self _) hfit, Content.slice_self,
        Cursor.byte_of_closeOffset? hin hclose]
      rfl
    rw [hnext] at hle
    refine Reads.moveTo h (by omega) hfit ?_
    rw [Inline.source, hnext, Cursor.slice_eq_content h.cursor _ (by omega)]
    exact f.content.slice_enclosed (Cursor.slice_of_peek h.cursor hopen hlt) hdelimiter
      (Nat.le_succ _) hle (Nat.le_succ _)

/-- An opening delimiter that is taken as literal text is read as what it is. -/
theorem reads_literalOpening (h : Stands f s) (draft : Draft) (code : Code) {delimiter : Bytes}
    (hshows : f.content.slice s.lexer.cursor.offset (s.lexer.cursor.offset + delimiter.length)
      = delimiter)
    (hfit : s.lexer.cursor.offset + delimiter.length ≤ f.size) :
    Ends (literalOpening draft code delimiter) s fun d s' =>
      Reads f s s' delimiter ∧ d.source = draft.source ++ delimiter := by
  simp only [literalOpening, ends_bind, ends_offset, ends_unclosed, ends_complain, ends_mapCursor,
    ends_pure]
  refine ⟨⟨h.ahead (Cursor.skip_ahead h.cursor hfit), ?_⟩, draft.source_append delimiter⟩
  simp only [Cursor.skip_offset h.cursor hfit, hshows]

/-! ## Texts -/

/-- A text that was read to its end was read as it is written, up to `closer`. -/
def ReadsText (f : File) (s : ParserState) (closer : Bytes) (r : TextResult) (s' : ParserState) :
    Prop :=
  r.closed = true → Reads f s s' (r.text.source ++ closer)

variable {inner : Style → Parse TextResult}

theorem reads_styledSpan (h : Stands f s) {style : Style}
    (hfit : s.lexer.cursor.offset + style.delimiter.length ≤ stop) (hstop : stop ≤ f.size)
    (hshows : f.content.slice s.lexer.cursor.offset
      (s.lexer.cursor.offset + style.delimiter.length) = style.delimiter)
    (hinner : ∀ style s', Stands f s' → s.lexer.cursor.offset ≤ s'.lexer.cursor.offset →
      EndsBy stop s' → Ends (inner style) s' (ReadsText f s' style.delimiter)) :
    Ends (styledSpan inner stop style) s fun r s' => ReadsInline f s (r.map (·.1)) s' := by
  simp only [styledSpan, ends_bind, ends_get]
  split
  · exact rfl
  · have hskip := Cursor.skip_offset h.cursor (Nat.le_trans hfit hstop)
    have hopen : Reads f s { s with
        lexer := s.lexer.moveTo (s.lexer.cursor.skip style.delimiter.length).offset }
        style.delimiter :=
      Reads.moveTo h (by omega) (by omega) (by rw [hskip, hshows])
    simp only [ends_bind, ends_moveTo]
    refine (hinner style _ hopen.reaches.stands hopen.reaches.forward
      (by rw [hskip]; exact hfit)).imp fun r s' hr => ?_
    split
    · next hclosed =>
      have hread := hopen.trans (hr hclosed)
      show Reads f s s' (Inline.source (.styled style r.text.parts r.text.tail _ _))
      simpa [Inline.source, Text.source] using hread
    · exact rfl

/-- What a step adds to the draft is what it reads, and that is not nothing. -/
def Adds (f : File) (s : ParserState) (draft draft' : Draft) (s' : ParserState) : Prop :=
  ∃ text, text ≠ [] ∧ Reads f s s' text ∧ draft'.source = draft.source ++ text

theorem Adds.insert {draft : Draft} {e : Inline} (h : Reads f s s' e.source) (he : e.source ≠ []) :
    Adds f s draft (draft.insert e) s' :=
  ⟨_, he, h, draft.source_insert e⟩

theorem reads_textStep (h : Stands f s) (hstop : f.BreaksAt stop)
    (hlt : s.lexer.cursor.offset < stop) (hkept : f.Kept s.lexer.cursor.offset stop) (draft : Draft)
    (hinner : ∀ style s', Stands f s' → s.lexer.cursor.offset ≤ s'.lexer.cursor.offset →
      EndsBy stop s' → Ends (inner style) s' (ReadsText f s' style.delimiter)) :
    Ends (textStep inner stop draft) s fun r s' => Adds f s draft r.1 s' := by
  have hshows := Opening.ofCursor_shows h.cursor hstop hlt hkept
  have hends := Opening.ofCursor_ends h.cursor hstop hlt
  have hsize : s.lexer.cursor.offset < f.size := Nat.lt_of_lt_of_le hlt hstop.within
  -- what comes to nothing is added as the byte that opened it
  have hopening {code : Code} {b : UInt8} (hb : s.lexer.cursor.peek = b) :
      Ends (literalOpening draft code [b]) s fun d s' => Adds f s draft d s' := by
    have hshows : f.content.slice s.lexer.cursor.offset (s.lexer.cursor.offset + [b].length) = [b] :=
      Cursor.slice_of_peek h.cursor hb hsize
    exact (reads_literalOpening h draft code hshows hsize).imp
      fun d s' hd => ⟨_, List.cons_ne_nil _ _, hd⟩
  simp only [textStep, ends_bind, ends_cursor]
  cases ho : Opening.ofCursor s.lexer.cursor stop with
  | literal =>
    refine ⟨[s.lexer.cursor.peek], List.cons_ne_nil _ _, ⟨h.ahead (Cursor.next_ahead h.cursor), ?_⟩,
      draft.source_write _⟩
    show f.content.slice s.lexer.cursor.offset s.lexer.cursor.next.offset = _
    rw [Cursor.next_offset h.cursor hsize]
    exact Cursor.slice_of_peek h.cursor rfl hsize
  -- the line has no backslash and no arrow, so these two cannot stand here
  | escape | divert =>
    rw [ho] at hshows
    exact hshows.elim
  | styled style =>
    rw [ho] at hshows hends
    simp only [ends_bind]
    refine (reads_styledSpan h hends hstop.within hshows hinner).imp
      fun r s' hr => ?_
    cases r with
    | some p => exact .insert hr p.1.source_ne_nil
    | none =>
      cases hr
      exact (reads_literalOpening h draft _ hshows (Nat.le_trans hends hstop.within)).imp
        fun d s' hd => ⟨_, style.delimiter_ne_nil, hd⟩
  | code =>
    rw [ho] at hshows
    simp only [ends_bind]
    refine (reads_codeSpan h hshows stop).imp fun r s' hr => ?_
    cases r with
    | some e => exact .insert hr e.source_ne_nil
    | none =>
      cases hr
      exact hopening hshows
  | script =>
    rw [ho] at hshows
    simp only [ends_bind]
    refine (reads_scriptSpan h hshows stop).imp fun r s' hr => ?_
    cases r with
    | some e => exact .insert hr e.source_ne_nil
    | none =>
      cases hr
      exact hopening hshows
  | join =>
    rw [ho] at hshows hends
    have hfit : s.lexer.cursor.offset + 2 ≤ f.size := Nat.le_trans hends hstop.within
    refine .insert ⟨h.ahead (Cursor.skip_ahead h.cursor hfit), ?_⟩ (Inline.source_ne_nil _)
    show f.content.slice s.lexer.cursor.offset (s.lexer.cursor.skip 2).offset = _
    rw [Cursor.skip_offset h.cursor hfit]
    exact hshows

/-- A text is read up to its closing delimiter or, if it has none and there is fuel enough, up to
`stop`; whatever was read is in it. -/
theorem reads_textFrom (hstop : f.BreaksAt stop) (fuel : Nat) (h : Stands f s)
    (hle : EndsBy stop s) (hkept : f.Kept s.lexer.cursor.offset stop) (closer : Option Style)
    (start : Nat) (draft : Draft) (out : Outcome) :
    Ends (textFrom fuel stop closer start draft out) s fun r s' => r.closed = true →
      ∃ text, Reads f s s' text
        ∧ r.text.source ++ (closer.map Style.delimiter).getD [] = draft.source ++ text
        ∧ (closer = none → stop < s.lexer.cursor.offset + fuel → s'.lexer.cursor.offset = stop) := by
  -- By induction on the fuel: a round adds the bytes it passed, and the rounds behind it add
  -- theirs.
  induction fuel generalizing s closer start draft out with
  | zero =>
    intro hclosed
    obtain rfl := Option.isNone_iff_eq_none.mp hclosed
    exact ⟨[], .refl h, rfl, fun _ hfuel => absurd hle (Nat.not_le_of_lt hfuel)⟩
  | succ fuel ih =>
    simp only [textFrom, ends_bind, ends_cursor]
    split
    · next hend =>
      intro hclosed
      obtain rfl := Option.isNone_iff_eq_none.mp hclosed
      exact ⟨[], .refl h, rfl, fun _ _ => Nat.le_antisymm hle hend⟩
    · next hlt =>
      have hlt := Nat.lt_of_not_le hlt
      split
      -- the closing delimiter belongs to the text, though not to the draft
      · next style hfound =>
        obtain ⟨rfl, hcloses⟩ : closer = some style ∧ style.closesAt s.lexer.cursor = true :=
          Option.filter_eq_some_iff.mp hfound
        have hfit : s.lexer.cursor.offset + style.delimiter.length ≤ f.size :=
          Style.closesAt_fits h.cursor hcloses
        refine fun _ => ⟨style.delimiter, ⟨h.ahead (Cursor.skip_ahead h.cursor hfit), ?_⟩, rfl,
          fun hnone => absurd hnone (Option.some_ne_none _)⟩
        show f.content.slice s.lexer.cursor.offset (s.lexer.cursor.skip _).offset = _
        rw [Cursor.skip_offset h.cursor hfit]
        exact Style.closesAt_shows h.cursor (Nat.lt_of_lt_of_le hlt hstop.within) hcloses
      · have hempty : Draft.Exact f {} := by simp [Draft.Exact, Inline.scriptsOf]
        have hstand (style : Style) (s : ParserState) (hs : Stands f s) :=
          ends_textFrom hstop.within fuel hs (some style) s.lexer.cursor.offset hempty .parsed
        -- inside an element the text is read by the same function, with less fuel
        have hinner (style : Style) (s' : ParserState) (hs : Stands f s')
            (hforward : s.lexer.cursor.offset ≤ s'.lexer.cursor.offset) (hs' : EndsBy stop s') :
            Ends (textFrom fuel stop (some style) s'.lexer.cursor.offset {} .parsed) s'
              (ReadsText f s' style.delimiter) := by
          refine (ih hs hs' (hkept.behind hforward) (some style) _ {} .parsed).imp
            fun r s'' hr hclosed => ?_
          obtain ⟨text, hreads, hsource, -⟩ := hr hclosed
          have hsource : r.text.source ++ style.delimiter = text := hsource
          rwa [hsource]
        rw [ends_bind]
        refine ((reads_textStep h hstop hlt hkept draft hinner).and
          (textStep_le h hstop hlt draft hstand fun style s' hs hs' =>
            textFrom_le hstop fuel hs hs' (some style) _ hempty .parsed)).imp fun r s' hr => ?_
        obtain ⟨⟨text, hne, hreads, hsource⟩, hle'⟩ := hr
        have hforward := hreads.reaches.forward
        -- a round always passes something, so the fuel lasts
        have honward := hreads.onward hne
        refine (ih hreads.reaches.stands hle' (hkept.behind hforward) closer start r.1 _).imp
          fun r' s'' hr' hclosed => ?_
        obtain ⟨more, hmore, hsource', hend⟩ := hr' hclosed
        refine ⟨text ++ more, hreads.trans hmore, ?_, fun hnone hfuel => hend hnone (by omega)⟩
        rw [hsource', hsource, List.append_assoc]

/-- A text for which no end was asked is closed where it ends. -/
theorem closed_textFrom (stop fuel start : Nat) (s : ParserState) (draft : Draft) (out : Outcome) :
    Ends (textFrom fuel stop none start draft out) s fun r _ => r.closed = true := by
  induction fuel generalizing s draft out with
  | zero => exact rfl
  | succ fuel ih =>
    simp only [textFrom, ends_bind, ends_cursor, Option.filter_none]
    split
    · exact rfl
    · exact ih _ _ _

/-- A line on which no byte escapes another one and no arrow stands is read as it is written: the
text of the line is written as the line is. -/
theorem source_textFrom (h : Stands f s) {line : Bytes}
    (hline : f.content.slice s.lexer.cursor.offset s.lexer.textEnd = line)
    (hescape : ('\\' : UInt8) ∉ line) (harrow : ¬ ("->" : Bytes) <:+: line) {fuel : Nat}
    (hfuel : s.lexer.textEnd < s.lexer.cursor.offset + fuel) :
    Ends (textFrom fuel s.lexer.textEnd none s.lexer.cursor.offset {} .parsed) s fun r s' =>
      r.text.source = line ∧ r.closed = true ∧ s'.lexer.cursor.offset = s.lexer.textEnd := by
  have hstop := Lexer.textEnd_within h.cursor
  have hkept : f.Kept s.lexer.cursor.offset s.lexer.textEnd :=
    .of_line hstop.2 (hline ▸ hescape) (hline ▸ harrow)
  refine ((closed_textFrom _ fuel _ s {} _).and
    (reads_textFrom (Lexer.textEnd_breaks h.cursor) fuel h hstop.1 hkept none _ {} _)).imp
    fun r s' hr => ?_
  obtain ⟨text, hreads, hsource, hend⟩ := hr.2 hr.1
  have hend : s'.lexer.cursor.offset = s.lexer.textEnd := hend rfl hfuel
  have hsource : r.text.source = text := by simpa [Draft.source, Inline.sourceParts] using hsource
  refine ⟨?_, hr.1, hend⟩
  rw [hsource, ← hreads.text, hend, hline]

/-- Also a line whose delimiters cross or stay open is read as it is written. -/
theorem source_textFrom_crossing :
    let line : Bytes := "**a *b** c* `d __e <> \x7bf"
    let l : Lexer := .ofFile (File.ofBytes 1 "a.story" line) {}
    (File.ofBytes 1 "a.story" line).content.slice l.cursor.offset l.textEnd = line
      ∧ ('\\' : UInt8) ∉ line ∧ ¬ ("->" : Bytes) <:+: line
      ∧ Ends (textFrom 100 l.textEnd none 0 {} .parsed) { lexer := l } fun r s' =>
          r.text.source = line ∧ r.closed = true ∧ s'.lexer.cursor.offset = l.textEnd := by
  intro line l
  have hline : (File.ofBytes 1 "a.story" line).content.slice l.cursor.offset l.textEnd = line := by
    decide +kernel
  have hescape : ('\\' : UInt8) ∉ line := by decide +kernel
  have harrow : ¬ ("->" : Bytes) <:+: line := by decide +kernel
  have hstands : Stands (File.ofBytes 1 "a.story" line) { lexer := l } :=
    ⟨⟨rfl, rfl, rfl, Nat.zero_le _, by decide +kernel⟩, by simp⟩
  exact ⟨hline, hescape, harrow, source_textFrom hstands hline hescape harrow (by decide +kernel)⟩

end Parse

end Markup

end Storyline
