import Storyline.Proofs.Markup.Texts
import Storyline.Markup.Parser.Attribute

/-!
# Attributes and conditions agree with their file

An attribute lies inside the file.  The condition of a choice is an attribute `@if(…)` or
`@not(…)`, and its script is taken to start two bytes behind the name, where the parentheses open.
Without parentheses the script is empty and its place is one byte behind the attribute; that place
is outside of the file if the attribute is the last thing in it, and only then.  (Places are words:
behind the end of the largest file comes its start, where an empty script may stand.)
-/

namespace Storyline.Markup

variable {f : File} {s : ParserState}

/-- The empty script of a condition without parentheses with which the file ends: its place is
behind the end of the file. -/
structure ScriptRef.Behind (f : File) (r : ScriptRef) : Prop where
  eq : r = ⟨.condition, [], ⟨f.id, f.size + 1, f.size + 1⟩⟩
  ending : Bytes.ofString "@if" <:+ f.bytes ∨ Bytes.ofString "@not" <:+ f.bytes

/-- A script that is exact or behind the end of the file. -/
def ScriptRef.Known (f : File) (r : ScriptRef) : Prop := r.Exact f ∨ r.Behind f

/-- Whether an attribute is the condition of a choice. -/
def Attribute.isCondition (a : Attribute) : Prop := a.name = "if" ∨ a.name = "not"

/-- The script that a choice takes from its condition. -/
def Attribute.script (a : Attribute) : ScriptRef :=
  let start := Word.add (Word.add a.span.start a.name.length) 2
  ⟨.condition, a.raw, a.span.file, start, Word.add start a.raw.length⟩

/-- An attribute inside the file; the script of a condition is exact or behind the end. -/
structure Attribute.Placed (f : File) (a : Attribute) : Prop where
  span : a.span.In f
  script : a.isCondition → a.script.Known f

/-- What is cut out between two places is exact. -/
theorem exact_slice {c : Cursor} (h : c.In f) (origin : ScriptOrigin) {start stop : Nat}
    (ordered : start ≤ stop) (within : stop ≤ f.size) :
    ScriptRef.Exact f ⟨origin, c.slice start stop, c.spanAt start stop⟩ :=
  ⟨Cursor.spanAt_in h ordered within, (Cursor.slice_eq_text h start stop).symm⟩

theorem length_slice {c : Cursor} (h : c.In f) {start stop : Nat} (ordered : start ≤ stop)
    (within : stop ≤ f.size) : (c.slice start stop).length = stop - start := by
  rw [Cursor.slice_eq_text h, File.length_text_of_in (Cursor.spanAt_in h ordered within)]
  rfl

/-- With parentheses, the script of a condition is what stands between them. -/
theorem Attribute.Placed.of_parameters {c : Cursor} (h : c.In f) {name raw : Bytes}
    {params : Option (List Bytes)} {stop close : Nat} {inner : Cursor} (hinner : inner.In f)
    (hopen : inner.offset = c.offset + name.length + 2) (hraw : raw = inner.slice inner.offset close)
    (hle : inner.offset ≤ close) (hclose : close ≤ stop) (hstop : stop ≤ f.size) :
    Placed f ⟨name, params, raw, c.spanAt c.offset stop⟩ := by
  refine ⟨Cursor.spanAt_in h (by omega) hstop, fun _ => .inl ?_⟩
  have hexact := exact_slice hinner .condition hle (Nat.le_trans hclose hstop)
  have hlen := length_slice hinner hle (Nat.le_trans hclose hstop)
  have hsmall := h.small
  have hstart : Word.add (Word.add c.offset name.length) 2 = inner.offset := by
    rw [Word.add_add, Word.add_of_lt (by omega), hopen]
  have hend : Word.add inner.offset (close - inner.offset) = close := by
    rw [Word.add_of_lt (by omega), Nat.add_sub_cancel' hle]
  have hscript : Attribute.script ⟨name, params, raw, c.spanAt c.offset stop⟩
      = ⟨.condition, inner.slice inner.offset close, inner.spanAt inner.offset close⟩ := by
    subst hraw
    simp only [Attribute.script, Cursor.spanAt, h.file, hinner.file, hlen, hstart, hend]
  rwa [hscript]

/-- Without parentheses, the script of a condition is empty and stands behind the attribute. -/
theorem Attribute.Placed.of_bare {c : Cursor} (h : c.In f) {name : Bytes} {stop : Nat}
    (hat : c.byteAt c.offset = '@') (hname : name = c.slice (c.offset + 1) stop)
    (hle : c.offset + 1 ≤ stop) (hstop : stop ≤ f.size) :
    Placed f ⟨name, none, [], c.spanAt c.offset stop⟩ := by
  refine ⟨Cursor.spanAt_in h (by omega) hstop, fun hc => ?_⟩
  have hlen : name.length = stop - (c.offset + 1) := by rw [hname, length_slice h hle hstop]
  have hscript : Attribute.script ⟨name, none, [], c.spanAt c.offset stop⟩
      = ⟨.condition, [], ⟨f.id, Word.add stop 1, Word.add stop 1⟩⟩ := by
    have hplace : Word.add (c.offset + (stop - (c.offset + 1))) 2 = Word.add stop 1 := by
      rw [Word.add, Word.add]
      congr 1
      omega
    have hnone : Word.add (Word.add stop 1) 0 = Word.add stop 1 := Word.add_add stop 1 0
    simp only [Attribute.script, Cursor.spanAt, h.file, hlen, List.length_nil, Word.add_add, hplace,
      hnone]
  rw [hscript]
  by_cases hlast : Word.modulus ≤ stop + 1
  · -- the attribute ends the largest file, and the place behind it is the start
    have hzero : Word.add stop 1 = 0 := by
      have hsmall := h.small
      rw [show stop = Word.modulus - 1 by omega]
      rfl
    rw [hzero]
    exact .inl ⟨⟨rfl, Nat.le_refl _, Nat.zero_le _⟩, File.text_of_empty _ _ _⟩
  rw [Word.add_of_lt (Nat.lt_of_not_le hlast)]
  -- the place behind the name is in the file, or it is its end
  by_cases hend : stop = f.size
  · right
    subst hend
    refine ⟨rfl, ?_⟩
    have hsuffix : ('@' : UInt8) :: name <:+ f.bytes := by
      rw [hname, ← hat, ← Cursor.slice_eq_cons h hle hstop, Cursor.slice_eq_text h]
      exact File.text_isSuffix (Nat.le_refl _)
    rcases hc with hc | hc
    · exact .inl (by rw [show name = _ from hc] at hsuffix; exact hsuffix)
    · exact .inr (by rw [show name = _ from hc] at hsuffix; exact hsuffix)
  · exact .inl ⟨⟨rfl, Nat.le_refl _, Nat.lt_of_le_of_ne hstop hend⟩, File.text_of_empty _ _ _⟩

namespace Parse

/-- The parameters of an attribute were read: they are what stands between the parenthesis and
`close`. -/
def ReadParameters (f : File) (s : ParserState) (r : Bytes × Outcome) (s' : ParserState) : Prop :=
  Reaches f s s' ∧ ∃ close, s.lexer.cursor.next.offset ≤ close ∧ close ≤ s'.lexer.cursor.offset ∧
    r.1 = s.lexer.cursor.next.slice s.lexer.cursor.next.offset close

theorem ends_parameters (h : Stands f s) (hp : s.lexer.cursor.peek = '(') :
    Ends parameters s (ReadParameters f s) := by
  have hlt := Cursor.lt_of_peek h.cursor hp (by decide)
  have hnext := Cursor.next_ahead h.cursor
  have hoffset := Cursor.next_offset h.cursor hlt
  simp only [parameters, ends_bind, ends_lexer]
  split
  · next close hc =>
    obtain ⟨hle, hfit⟩ := Cursor.closeOffset?_within hnext.here hc
    exact ⟨h.moveTo (by omega) hfit, close, hle, Nat.le_succ _, rfl⟩
  · have hle := Lexer.succ_le_textEnd h.cursor hp (by decide) (by decide)
    have hstop := (Lexer.textEnd_within h.cursor).2
    simp only [ends_bind, ends_unclosed, ends_complain, ends_moveTo, ends_pure]
    exact ⟨h.moveTo (Nat.le_of_succ_le hle) hstop, s.lexer.textEnd, by omega, Nat.le_refl _, rfl⟩

/-- An attribute was read; without one nothing happened. -/
def ReadAttribute (f : File) (s : ParserState) (r : Option (Attribute × Outcome))
    (s' : ParserState) : Prop :=
  match r with
  | none => s' = s
  | some (a, _) => Reaches f s s' ∧ a.Placed f

theorem ends_takeAttribute (h : Stands f s) : Ends takeAttribute s (ReadAttribute f s) := by
  simp only [takeAttribute, ends_bind, ends_cursor]
  split
  · exact rfl
  · next hc =>
    have hat : s.lexer.cursor.peek = '@' := by simp at hc; exact hc.1
    have hlt := Cursor.lt_of_peek h.cursor hat (by decide)
    have hbyte := Cursor.byteAt_of_peek h.cursor hat (by decide)
    have hend := Cursor.skipWhile_ahead (Cursor.next_ahead h.cursor).here isNamePart
    rw [Cursor.next_eq h.cursor hlt] at hend ⊢
    have hcursor (n : Nat) : (s.lexer.moveTo n).cursor = { s.lexer.cursor with offset := n } := rfl
    generalize hc' : Cursor.skipWhile _ isNamePart = c' at hend ⊢
    have hmoved : (s.lexer.moveTo c'.offset).cursor = c' := by rw [← hc', hcursor]; rfl
    have hle : s.lexer.cursor.offset + 1 ≤ c'.offset := hend.forward
    have hm := h.moveTo (d := s.log) (Nat.le_of_succ_le hle) hend.here.within
    have hlen := length_slice h.cursor hle hend.here.within
    rw [ends_bind, ends_moveTo]
    split
    · next hp =>
      rw [ends_bind]
      refine (ends_parameters hm.stands (by rwa [hmoved])).imp fun r s' hr => ?_
      obtain ⟨hr, close, hopen, hclose, hraw⟩ := hr
      have hlt' := Cursor.lt_of_peek hend.here hp (by decide)
      simp only [hmoved] at hopen hraw
      refine ⟨hm.trans hr, .of_parameters h.cursor (Cursor.next_ahead hend.here).here ?_ hraw hopen
        hclose hr.stands.cursor.within⟩
      rw [Cursor.next_offset hend.here hlt', hlen]
      omega
    · exact ⟨hm, .of_bare h.cursor hbyte rfl hle hend.here.within⟩

theorem ends_takeAttribute_of_ne (h : s.lexer.cursor.peek ≠ '@') :
    Ends takeAttribute s fun r s' => r = none ∧ s' = s := by
  have hat : (s.lexer.cursor.peek != '@' || !isNameStart s.lexer.cursor.next.peek) = true := by
    simp [h]
  simp only [takeAttribute, ends_bind, ends_cursor, hat, if_true, ends_pure, and_self]

theorem ends_attributeLine (h : Stands f s) : Ends attributeLine s (ReadAttribute f s) := by
  have hindent := h.ahead (d := s.log) (Lexer.skipIndent_ahead h.cursor)
  simp only [attributeLine, ends_bind, ends_get, ends_mapLexer]
  refine (ends_takeAttribute hindent.stands).imp fun r s' hr => ?_
  rcases r with _ | ⟨a, o⟩
  · exact rfl
  · simp only [ends_bind, ends_offset, ends_textEnd]
    refine (ends_skipSpaces hr.1.stands).imp fun _ s'' hs => ?_
    split
    · rw [ends_bind]
      refine (ends_finishLine hs.stands).imp fun _ s''' hf => ?_
      exact ⟨((hindent.trans hr.1).trans hs).trans hf, hr.2⟩
    · exact rfl

theorem ends_attributeLines (fuel depth : Nat) (h : Stands f s) :
    Ends (attributeLines fuel depth) s fun r s' => Reaches f s s' ∧ ∀ a ∈ r.1, a.Placed f := by
  induction fuel generalizing s with
  | zero => exact ⟨.refl h, List.forall_mem_nil _⟩
  | succ fuel ih =>
    have hblank := h.ahead (d := s.log) (Lexer.skipBlankLines_ahead h.cursor)
    simp only [attributeLines, ends_bind, ends_mapLexer, ends_lexer]
    split
    · exact ⟨hblank, List.forall_mem_nil _⟩
    · rw [ends_bind]
      refine (ends_attributeLine hblank.stands).imp fun r s' hr => ?_
      rcases r with _ | ⟨a, o⟩
      · exact ⟨hr ▸ hblank, List.forall_mem_nil _⟩
      · simp only [ends_bind]
        refine (ih hr.1.stands).imp fun r' s'' hr' => ?_
        refine ⟨(hblank.trans hr.1).trans hr'.1, ?_⟩
        intro b hb
        rcases List.mem_cons.mp hb with rfl | hb
        · exact hr.2
        · exact hr'.2 b hb

end Parse

end Storyline.Markup
