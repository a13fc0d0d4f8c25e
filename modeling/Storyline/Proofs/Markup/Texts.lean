import Mathlib.Algebra.GroupWithZero.Nat
import Storyline.Proofs.Markup.Running
import Storyline.Markup.Parser.Inline
import Storyline.Markup.Walk

/-!
# Texts agree with their file

Reading a text moves the cursor ahead inside the file.  Every script found on the way is the text
of the file under its span, and every divert taken out of the text lies inside the file with each
part of its path.

`Parse.textFrom` recurs on a fuel and reads styled texts by itself; the step `Parse.textStep` is
judged for any inner reader that meets the statement, so that one induction on the fuel is enough.
-/

namespace Storyline.Markup

variable {f : File} {s : ParserState}

/-! ## Scripts and their places -/

/-- A script that is the text of the file under its span. -/
structure ScriptRef.Exact (f : File) (r : ScriptRef) : Prop where
  span : r.span.In f
  raw : f.text r.span = r.raw

theorem Inline.scriptsOf_append (ps qs : List (Bytes × Inline)) :
    scriptsOf (ps ++ qs) = scriptsOf ps ++ scriptsOf qs := by
  induction ps with
  | nil => rfl
  | cons p ps ih => simp [scriptsOf, ih]

/-- A draft whose scripts are exact. -/
def Draft.Exact (f : File) (d : Draft) : Prop :=
  ∀ r ∈ Inline.scriptsOf d.parts.toList, r.Exact f

theorem Draft.Exact.insert {d : Draft} (h : d.Exact f) {e : Inline}
    (he : ∀ r ∈ e.scripts, r.Exact f) : (d.insert e).Exact f := by
  intro r hr
  simp only [Draft.insert, Array.toList_push, Inline.scriptsOf_append, Inline.scriptsOf,
    List.append_nil, List.mem_append] at hr
  exact hr.elim (h r) (he r)

/-! ## What opens and closes -/

/-- What is seen at the cursor of that which opens there. -/
def Opening.At (c : Cursor) : Opening → Prop
  | .escape => c.peek = '\\'
  | .styled .italics => c.peek = '*'
  | .styled style => c.hasPrefix style.delimiter
  | .code => c.peek = 0x60
  | .script => c.peek = 0x7B
  | .divert => c.hasPrefix "<->" ∨ c.hasPrefix "->"
  | .join => c.hasPrefix "<>"
  | .literal => True

theorem Opening.ofCursor_at (c : Cursor) (stop : Nat) : (ofCursor c stop).At c := by
  rw [ofCursor]
  split
  · next hb => exact hb
  split
  · next hp => exact hp
  split
  · next hb =>
    split
    · trivial
    · exact hb
  split
  · next hp => exact hp
  split
  · next hb => exact hb
  split
  · next hb => exact hb
  split
  · next hp => exact Bool.or_eq_true_iff.mp hp
  split
  · next hp => exact hp
  · trivial

/-- What is known of the delimiter at the cursor: it lies inside the file. -/
def Opening.Fits (f : File) (c : Cursor) : Opening → Prop
  | .styled style => c.offset + style.delimiter.length ≤ f.size
  | .join => c.offset + 2 ≤ f.size
  | .divert => c.hasPrefix "<->" ∨ c.hasPrefix "->"
  | _ => True

theorem Opening.ofCursor_fits {c : Cursor} (h : c.In f) (hlt : c.offset < f.size) (stop : Nat) :
    (Opening.ofCursor c stop).Fits f c := by
  have hat := ofCursor_at c stop
  generalize ofCursor c stop = o at hat ⊢
  cases o with
  | styled style =>
    cases style with
    | italics => exact hlt
    | bold | underline => exact Cursor.hasPrefix_bound h hat
  | join => exact Cursor.hasPrefix_bound h hat
  | divert => exact hat
  | escape | code | script | literal => trivial

theorem Style.closesAt_fits {c : Cursor} (h : c.In f) {style : Style} (hc : style.closesAt c) :
    c.offset + style.delimiter.length ≤ f.size := by
  cases style with
  | italics =>
    simp only [closesAt, Bool.and_eq_true, decide_eq_true_eq] at hc
    exact Cursor.lt_of_peek h hc.1 (by decide)
  | bold | underline => exact Cursor.hasPrefix_bound h hc

/-! ## Paths -/

/-- The pieces of a text and the separators between them are as long as the text. -/
theorem length_splitOnByte (sep : UInt8) (text : Bytes) :
    ((text.splitOnByte sep).map fun p => p.length + 1).sum = text.length + 1 := by
  induction text with
  | nil => rfl
  | cons b text ih =>
    have hcons : Bytes.splitOnByte sep (b :: text) =
        if b = sep then [] :: Bytes.splitOnByte sep text
        else (b :: (Bytes.splitOnByte sep text).headD []) :: (Bytes.splitOnByte sep text).tail := rfl
    rw [hcons]
    split
    · simp only [List.map_cons, List.length_nil, List.sum_cons, ih, List.length_cons]
      omega
    · cases hp : Bytes.splitOnByte sep text with
      | nil => simp [hp] at ih
      | cons p ps =>
        rw [hp] at ih
        simp only [List.map_cons, List.sum_cons] at ih
        simp only [List.headD_cons, List.tail_cons, List.map_cons, List.length_cons, List.sum_cons]
        omega

/-- The parts of a path stand inside what the whole path takes. -/
theorem segments_in {file : FileId} (hfile : file = f.id) :
    {names : List Bytes} → {start stop : Nat} →
      start + (names.map fun p => p.length + 1).sum ≤ stop + 1 → stop ≤ f.size →
      ∀ p ∈ Parse.segments file start names, p.span.In f
  | [], _, _, _, _ => by simp [Parse.segments]
  | name :: names, start, stop, hsum, hstop => by
    simp only [List.map_cons, List.sum_cons] at hsum
    intro p hp
    simp only [Parse.segments, List.mem_cons] at hp
    rcases hp with rfl | hp
    · exact ⟨hfile, Nat.le_add_right _ _, by simp only; omega⟩
    · exact segments_in hfile (by omega) hstop p hp

namespace Parse

/-! ## Elements -/

/-- Either nothing was read and nothing happened, or an element with exact scripts was read. -/
def Took (f : File) (s : ParserState) : Option Inline → ParserState → Prop
  | none, s' => s' = s
  | some e, s' => Reaches f s s' ∧ ∀ r ∈ e.scripts, r.Exact f

theorem ends_codeSpan (h : Stands f s) (stop : Nat) :
    Ends (codeSpan stop) s (Took f s) := by
  have hnext := Cursor.next_ahead h.cursor
  simp only [codeSpan, ends_bind, ends_cursor]
  split
  · exact rfl
  · next close hc =>
    obtain ⟨hle, hfit⟩ := Cursor.positionOf?_within hnext.here hc
    refine ⟨h.moveTo ?_ hfit, by simp [Inline.scripts]⟩
    have := hnext.forward
    omega

theorem ends_scriptSpan (h : Stands f s) (stop : Nat) :
    Ends (scriptSpan stop) s (Took f s) := by
  have hnext := Cursor.next_ahead h.cursor
  simp only [scriptSpan, ends_bind, ends_cursor]
  split
  · exact rfl
  · next close hc =>
    obtain ⟨hle, hfit⟩ := Cursor.closeOffset?_within hnext.here hc
    have := hnext.forward
    refine ⟨h.moveTo (by omega) hfit, ?_⟩
    intro r hr
    simp only [Inline.scripts, List.mem_singleton] at hr
    subst hr
    exact ⟨Cursor.spanAt_in h.cursor hle (by omega), (Cursor.slice_eq_text h.cursor _ _).symm⟩

theorem ends_inlineDivert (h : Stands f s) (stop : Nat)
    (hp : s.lexer.cursor.hasPrefix "<->" ∨ s.lexer.cursor.hasPrefix "->") :
    Ends (inlineDivert stop) s fun _ s' => Reaches f s s' := by
  simp only [inlineDivert, ends_bind, ends_cursor]
  have hc := h.cursor
  generalize hcur : s.lexer.cursor = c at hp hc ⊢
  -- the cursor behind the arrow, and behind the blanks that follow it, but not behind the end
  generalize harrow : (if c.hasPrefix "<->" then { c with offset := c.offset + 3 } else c.skip 2)
    = arrow
  have hahead : Cursor.Ahead f c arrow := by
    rw [← harrow]
    split
    · next ht => exact hc.ahead (Nat.le_add_right _ _) (Cursor.hasPrefix_bound hc ht)
    · next ht => exact Cursor.skip_ahead hc (Cursor.hasPrefix_bound hc (hp.resolve_left ht))
  generalize hstart : max arrow.offset (min stop (arrow.skipWhile Bytes.isGap).offset) = start
  have hle : c.offset ≤ start := by
    have := hahead.forward
    omega
  have hin : start ≤ f.size := by
    have := hahead.here.within
    have := (Cursor.skipWhile_ahead hahead.here Bytes.isGap).here.within
    omega
  generalize hraw : c.slice start _ = raw
  have hfit : start + raw.length ≤ f.size := by
    rw [← hraw, Cursor.slice_eq_text hc, File.length_text]
    simp only [Cursor.spanAt]
    omega
  have hforward : s.lexer.cursor.offset ≤ start + raw.length := by
    rw [hcur]
    omega
  rw [ends_moveTo]
  -- nothing is lifted where no name follows the arrow
  split
  · exact h.moveTo hforward hfit
  · refine ⟨⟨h.cursor.moved hfit, ?_⟩, hforward⟩
    intro d hd
    rcases Array.mem_push.mp hd with hd | rfl
    · exact h.lifted d hd
    · refine ⟨Cursor.spanAt_in hc (by omega) hfit, segments_in hc.file ?_ hfit, rfl⟩
      rw [length_splitOnByte]
      omega

/-! ## Texts -/

/-- A text with exact scripts was read. -/
def ReadText (f : File) (s : ParserState) (r : TextResult) (s' : ParserState) : Prop :=
  Reaches f s s' ∧ ∀ x ∈ r.text.scripts, x.Exact f

variable {inner : Style → Parse TextResult}

theorem ends_styledSpan (h : Stands f s) (stop : Nat) {style : Style}
    (hfit : s.lexer.cursor.offset + style.delimiter.length ≤ f.size)
    (hinner : ∀ style s, Stands f s → Ends (inner style) s (ReadText f s)) :
    Ends (styledSpan inner stop style) s fun r s' => Took f s (r.map (·.1)) s' := by
  have hskip := Cursor.skip_ahead h.cursor hfit
  simp only [styledSpan, ends_bind, ends_get]
  split
  · exact rfl
  · have hm := h.moveTo (d := s.log) hskip.forward hskip.here.within
    simp only [ends_bind, ends_moveTo]
    refine (hinner style _ hm.stands).imp fun r s' hr => ?_
    split
    · exact ⟨hm.trans hr.1, hr.2⟩
    · exact rfl

theorem ends_literalOpening (h : Stands f s) (draft : Draft) (code : Code) {delimiter : Bytes}
    (hfit : s.lexer.cursor.offset + delimiter.length ≤ f.size) (hd : draft.Exact f) :
    Ends (literalOpening draft code delimiter) s fun d s' => Reaches f s s' ∧ d.Exact f := by
  simp only [literalOpening, ends_bind, ends_offset, ends_unclosed, ends_complain, ends_mapCursor,
    ends_pure]
  exact ⟨h.ahead (Cursor.skip_ahead h.cursor hfit), hd⟩

theorem ends_textStep (h : Stands f s) {stop : Nat} (hlt : s.lexer.cursor.offset < stop)
    (hstop : stop ≤ f.size) {draft : Draft} (hd : draft.Exact f)
    (hinner : ∀ style s, Stands f s → Ends (inner style) s (ReadText f s)) :
    Ends (textStep inner stop draft) s fun r s' => Reaches f s s' ∧ r.1.Exact f := by
  have hsize : s.lexer.cursor.offset < f.size := Nat.lt_of_lt_of_le hlt hstop
  have hfits := Opening.ofCursor_fits h.cursor hsize stop
  have hnext := Cursor.next_ahead h.cursor
  simp only [textStep, ends_bind, ends_cursor]
  -- each start keeps the draft exact: what is inserted is exact itself, what is written are bytes
  cases ho : Opening.ofCursor s.lexer.cursor stop with
  | literal => exact ⟨h.ahead hnext, hd⟩
  | escape =>
    simp only
    split
    · have := Cursor.next_ahead hnext.here
      exact ⟨h.moveTo (hnext.trans this).forward this.here.within, hd⟩
    · exact ⟨h.moveTo hnext.forward hnext.here.within, hd⟩
  | styled style =>
    rw [ho] at hfits
    simp only [ends_bind]
    refine (ends_styledSpan h stop hfits hinner).imp fun r s' ht => ?_
    cases r with
    | some p => exact ⟨ht.1, hd.insert ht.2⟩
    | none =>
      -- an attempt that failed leaves the state as it was
      cases ht
      exact ends_literalOpening h draft _ hfits hd
  | code =>
    simp only [ends_bind]
    refine (ends_codeSpan h stop).imp fun r s' ht => ?_
    cases r with
    | some e => exact ⟨ht.1, hd.insert ht.2⟩
    | none =>
      cases ht
      exact ends_literalOpening h draft _ hsize hd
  | script =>
    simp only [ends_bind]
    refine (ends_scriptSpan h stop).imp fun r s' ht => ?_
    cases r with
    | some e => exact ⟨ht.1, hd.insert ht.2⟩
    | none =>
      cases ht
      exact ends_literalOpening h draft _ hsize hd
  | join =>
    rw [ho] at hfits
    exact ⟨h.ahead (Cursor.skip_ahead h.cursor hfits), hd.insert (by simp [Inline.scripts])⟩
  | divert =>
    rw [ho] at hfits
    simp only [ends_bind]
    refine (ends_inlineDivert h stop hfits).imp fun o s' hr => ?_
    split
    · refine ⟨hr.trans (hr.stands.ahead ?_), hd⟩
      have := Cursor.skipWhile_ahead hr.stands.cursor Bytes.isGap
      refine hr.stands.cursor.ahead (Nat.le_max_left _ _) ?_
      have := this.here.within
      have := hr.stands.cursor.within
      omega
    · exact ⟨hr, hd⟩

theorem ends_textFrom {stop : Nat} (hstop : stop ≤ f.size) (fuel : Nat) (h : Stands f s)
    (closer : Option Style) (start : Nat) {draft : Draft} (hd : draft.Exact f) (out : Outcome) :
    Ends (textFrom fuel stop closer start draft out) s (ReadText f s) := by
  induction fuel generalizing s closer start draft out with
  | zero => exact ⟨.refl h, hd⟩
  | succ fuel ih =>
    simp only [textFrom, ends_bind, ends_cursor]
    split
    · exact ⟨.refl h, hd⟩
    · next hlt =>
      split
      · next style hc =>
        have hc := (Option.filter_eq_some_iff.mp hc).2
        exact ⟨h.ahead (Cursor.skip_ahead h.cursor (Style.closesAt_fits h.cursor hc)), hd⟩
      · rw [ends_bind]
        refine (ends_textStep h (Nat.lt_of_not_le hlt) hstop hd ?_).imp fun r s' hr => ?_
        · intro style s hs
          exact ih hs _ _ (by simp [Draft.Exact, Inline.scriptsOf]) _
        · refine (ih hr.1.stands closer start hr.2 _).imp fun r' s'' hr' => ?_
          exact ⟨hr.1.trans hr'.1, hr'.2⟩

/-- The rest of a line is read with exact scripts and with diverts inside the file. -/
theorem ends_lineText (h : Stands f s) :
    Ends lineText s fun r s' =>
      Reaches f s s' ∧ (∀ x ∈ r.1.scripts, x.Exact f) ∧ ∀ d ∈ r.2.1, d.In f := by
  simp only [lineText, ends_bind, ends_get, ends_textEnd, ends_offset]
  refine (ends_textFrom (Lexer.textEnd_within h.cursor).2 _ h none _
    (by simp [Draft.Exact, Inline.scriptsOf]) _).imp fun r s' hr => ?_
  simp only [ends_modify, ends_pure]
  refine ⟨⟨⟨hr.1.stands.cursor, h.lifted⟩, hr.1.forward⟩, ?_, ?_⟩
  · split
    · exact hr.2
    · exact hr.2
  · intro d hd
    exact hr.1.stands.lifted d (Array.mem_toList_iff.mp (List.mem_of_mem_drop hd))

end Parse

end Storyline.Markup
