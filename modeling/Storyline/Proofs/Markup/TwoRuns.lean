import Storyline.Proofs.Markup.LineEnds
import Storyline.Markup.Parser.Inline

/-!
# Two runs of the markup parser

`Parse.Pairs` judges two runs together, each from its own state, as `Parse.Ends` judges one.  Both
layouts are compared in this way: one run is in the layout of the file, the other one in the layout
of line feeds from the same place.

Inside a line the layout is never looked at, so the two runs read the same text and stop at the same
place (`Blind`).
-/

namespace Storyline.Markup

variable {s s' t t' : ParserState}

/-- The state in the layout of line feeds, at the same place. -/
def ParserState.inLf (s : ParserState) : ParserState := { s with lexer := s.lexer.inLf }

@[simp] theorem ParserState.inLf_lexer (s : ParserState) : s.inLf.lexer = s.lexer.inLf := rfl

@[simp] theorem ParserState.inLf_log (s : ParserState) : s.inLf.log = s.log := rfl

@[simp] theorem ParserState.inLf_lifted (s : ParserState) : s.inLf.lifted = s.lifted := rfl

namespace Parse

variable {α β : Type}

/-! ## Two runs -/

/-- What holds of the results and the states that two runs end with. -/
def Pairs (m m' : Parse α) (s s' : ParserState)
    (post : α → α → ParserState → ParserState → Prop) : Prop :=
  post (m.run s).1 (m'.run s').1 (m.run s).2 (m'.run s').2

variable {Q : α → α → ParserState → ParserState → Prop}

/-- Two runs that take the same branch. -/
theorem Pairs.ite {p p' : Prop} [Decidable p] [Decidable p'] {m m' n n' : Parse α} (hp : p' ↔ p)
    (pos : p → Pairs m m' s s' Q) (neg : ¬ p → Pairs n n' s s' Q) :
    Pairs (if p then m else n) (if p' then m' else n') s s' Q := by
  by_cases h : p
  · rw [if_pos h, if_pos (hp.mpr h)]
    exact pos h
  · rw [if_neg h, if_neg (hp.not.mpr h)]
    exact neg h

theorem Pairs.imp {m m' : Parse α} {P : α → α → ParserState → ParserState → Prop}
    (h : Pairs m m' s s' P) (imp : ∀ a a' t t', P a a' t t' → Q a a' t t') : Pairs m m' s s' Q :=
  imp _ _ _ _ h

/-- What is known of the first run alone. -/
theorem Pairs.ends {m m' : Parse α} {P : α → ParserState → Prop} (h : Pairs m m' s s' Q)
    (he : Ends m s P) : Pairs m m' s s' fun a a' t t' => Q a a' t t' ∧ P a t :=
  ⟨h, he⟩

/-- Two runs of one parser from one state are the same. -/
theorem Pairs.same {m : Parse α} {P : α → ParserState → Prop} (h : Ends m s P)
    (imp : ∀ a t, P a t → Q a a t t) : Pairs m m s s Q :=
  imp _ _ h

@[simp] theorem pairs_bind {m m' : Parse β} {k k' : β → Parse α} :
    Pairs (m >>= k) (m' >>= k') s s' Q ↔
      Pairs m m' s s' fun b b' t t' => Pairs (k b) (k' b') t t' Q := Iff.rfl

@[simp] theorem pairs_pure {a a' : α} : Pairs (pure a) (pure a') s s' Q ↔ Q a a' s s' := Iff.rfl

@[simp] theorem pairs_get {Q : ParserState → ParserState → ParserState → ParserState → Prop} :
    Pairs get get s s' Q ↔ Q s s' s s' := Iff.rfl

@[simp] theorem pairs_set {t t' : ParserState}
    {Q : PUnit → PUnit → ParserState → ParserState → Prop} :
    Pairs (set t) (set t') s s' Q ↔ Q ⟨⟩ ⟨⟩ t t' := Iff.rfl

@[simp] theorem pairs_modify {g g' : ParserState → ParserState}
    {Q : PUnit → PUnit → ParserState → ParserState → Prop} :
    Pairs (modify g) (modify g') s s' Q ↔ Q ⟨⟩ ⟨⟩ (g s) (g' s') := Iff.rfl

@[simp] theorem pairs_lexer {Q : Lexer → Lexer → ParserState → ParserState → Prop} :
    Pairs lexer lexer s s' Q ↔ Q s.lexer s'.lexer s s' := Iff.rfl

@[simp] theorem pairs_cursor {Q : Cursor → Cursor → ParserState → ParserState → Prop} :
    Pairs cursor cursor s s' Q ↔ Q s.lexer.cursor s'.lexer.cursor s s' := Iff.rfl

@[simp] theorem pairs_offset {Q : Nat → Nat → ParserState → ParserState → Prop} :
    Pairs offset offset s s' Q ↔ Q s.lexer.cursor.offset s'.lexer.cursor.offset s s' := Iff.rfl

@[simp] theorem pairs_textEnd {Q : Nat → Nat → ParserState → ParserState → Prop} :
    Pairs textEnd textEnd s s' Q ↔ Q s.lexer.textEnd s'.lexer.textEnd s s' := Iff.rfl

@[simp] theorem pairs_mapLexer {g g' : Lexer → Lexer}
    {Q : Unit → Unit → ParserState → ParserState → Prop} :
    Pairs (mapLexer g) (mapLexer g') s s' Q ↔
      Q () () { s with lexer := g s.lexer } { s' with lexer := g' s'.lexer } := Iff.rfl

@[simp] theorem pairs_mapCursor {g g' : Cursor → Cursor}
    {Q : Unit → Unit → ParserState → ParserState → Prop} :
    Pairs (mapCursor g) (mapCursor g') s s' Q ↔
      Q () () { s with lexer := { s.lexer with cursor := g s.lexer.cursor } }
        { s' with lexer := { s'.lexer with cursor := g' s'.lexer.cursor } } := Iff.rfl

@[simp] theorem pairs_moveTo {n n' : Nat} {Q : Unit → Unit → ParserState → ParserState → Prop} :
    Pairs (moveTo n) (moveTo n') s s' Q ↔
      Q () () { s with lexer := s.lexer.moveTo n } { s' with lexer := s'.lexer.moveTo n' } := Iff.rfl

@[simp] theorem pairs_report {d d' : Diagnostic}
    {Q : Unit → Unit → ParserState → ParserState → Prop} :
    Pairs (report d) (report d') s s' Q ↔
      Q () () { s with log := s.log.push d } { s' with log := s'.log.push d' } := Iff.rfl

/-! ## Inside a line -/

/-- The same result at the same place, in a layout and in the one of line feeds. -/
def Alike (layout : Layout) (a a' : α) (t t' : ParserState) : Prop :=
  a' = a ∧ t' = t.inLf ∧ t.lexer.layout = layout

/-- A parser that does not look at how lines end. -/
def Blind (m : Parse α) : Prop := ∀ s, Pairs m m s s.inLf (Alike s.lexer.layout)

theorem Blind.bind {m : Parse β} {k : β → Parse α} (hm : Blind m) (hk : ∀ b, Blind (k b)) :
    Blind (m >>= k) := by
  intro s
  rw [pairs_bind]
  refine (hm s).imp fun b b' t t' ht => ?_
  obtain ⟨rfl, rfl, hlayout⟩ := ht
  rw [← hlayout]
  exact hk b' t

theorem blind_pure (a : α) : Blind (pure a) := fun _ => ⟨rfl, rfl, rfl⟩

theorem blind_cursor : Blind cursor := fun _ => ⟨rfl, rfl, rfl⟩

theorem blind_offset : Blind offset := fun _ => ⟨rfl, rfl, rfl⟩

theorem blind_mapCursor (g : Cursor → Cursor) : Blind (mapCursor g) := fun _ => ⟨rfl, rfl, rfl⟩

theorem blind_moveTo (n : Nat) : Blind (moveTo n) := fun _ => ⟨rfl, rfl, rfl⟩

theorem blind_complain (code : Code) (start stop : Nat) (message : Bytes) :
    Blind (complain code start stop message) :=
  fun _ => ⟨rfl, rfl, rfl⟩

/-- Adding a divert to the lifted ones. -/
theorem blind_lift (d : Divert) :
    Blind (modify fun s : ParserState => { s with lifted := s.lifted.push d }) :=
  fun _ => ⟨rfl, rfl, rfl⟩

theorem blind_codeSpan (stop : Nat) : Blind (codeSpan stop) := by
  refine .bind blind_cursor fun c => ?_
  dsimp only
  split
  · exact blind_pure _
  · exact .bind (blind_moveTo _) fun _ => blind_pure _

theorem blind_scriptSpan (stop : Nat) : Blind (scriptSpan stop) := by
  refine .bind blind_cursor fun c => ?_
  dsimp only
  split
  · exact blind_pure _
  · exact .bind (blind_moveTo _) fun _ => blind_pure _

theorem blind_inlineDivert (stop : Nat) : Blind (inlineDivert stop) := by
  refine .bind blind_cursor fun c => ?_
  dsimp only
  generalize (if c.hasPrefix "<->" then { c with offset := c.offset + 3 } else c.skip 2) = arrow
  refine .bind (blind_moveTo _) fun _ => ?_
  split
  · exact .bind (blind_complain _ _ _ _) fun _ => blind_pure _
  · exact .bind (blind_lift _) fun _ => blind_pure _

theorem blind_literalOpening (draft : Draft) (code : Code) (delimiter : Bytes) :
    Blind (literalOpening draft code delimiter) :=
  .bind blind_offset fun _ => .bind (blind_complain _ _ _ _) fun _ =>
    .bind (blind_mapCursor _) fun _ => blind_pure _

variable {inner : Style → Parse TextResult}

/-- An attempt that is undone leaves either state as it was. -/
theorem blind_styledSpan (hinner : ∀ style, Blind (inner style)) (stop : Nat) (style : Style) :
    Blind (styledSpan inner stop style) := by
  intro s
  simp only [styledSpan, pairs_bind, pairs_get]
  refine .ite Iff.rfl (fun _ => ⟨rfl, rfl, rfl⟩) fun _ => ?_
  simp only [pairs_bind, pairs_moveTo]
  refine (hinner style { s with lexer := s.lexer.moveTo _ }).imp fun r r' t t' ht => ?_
  obtain ⟨rfl, rfl, hlayout⟩ := ht
  exact .ite Iff.rfl (fun _ => ⟨rfl, rfl, hlayout⟩) fun _ => ⟨rfl, rfl, rfl⟩

theorem blind_textStep (hinner : ∀ style, Blind (inner style)) (stop : Nat) (draft : Draft) :
    Blind (textStep inner stop draft) := by
  refine .bind blind_cursor fun c => ?_
  cases Opening.ofCursor c stop with
  | literal => exact .bind (blind_mapCursor _) fun _ => blind_pure _
  | escape =>
    dsimp only
    split
    · exact .bind (blind_moveTo _) fun _ => blind_pure _
    · exact .bind (blind_moveTo _) fun _ => blind_pure _
  | styled style =>
    refine .bind (blind_styledSpan hinner stop style) fun r => ?_
    cases r with
    | some p => exact blind_pure _
    | none => exact .bind (blind_literalOpening _ _ _) fun _ => blind_pure _
  | code =>
    refine .bind (blind_codeSpan stop) fun r => ?_
    cases r with
    | some e => exact blind_pure _
    | none => exact .bind (blind_literalOpening _ _ _) fun _ => blind_pure _
  | script =>
    refine .bind (blind_scriptSpan stop) fun r => ?_
    cases r with
    | some e => exact blind_pure _
    | none => exact .bind (blind_literalOpening _ _ _) fun _ => blind_pure _
  | join =>
    exact .bind (blind_mapCursor _) fun _ => .bind blind_offset fun _ => blind_pure _
  | divert =>
    refine .bind (blind_inlineDivert stop) fun o => ?_
    split
    · exact .bind (blind_mapCursor _) fun _ => blind_pure _
    · exact blind_pure _

theorem blind_textFrom (fuel stop : Nat) (closer : Option Style) (start : Nat) (draft : Draft)
    (out : Outcome) : Blind (textFrom fuel stop closer start draft out) := by
  induction fuel generalizing closer start draft out with
  | zero => exact .bind blind_cursor fun _ => blind_pure _
  | succ fuel ih =>
    refine .bind blind_cursor fun c => ?_
    split
    · exact blind_pure _
    · split
      · exact .bind (blind_mapCursor _) fun _ => blind_pure _
      · refine .bind (blind_textStep (fun style => ?_) stop draft) fun r => ih _ _ _ _
        exact .bind blind_offset fun _ => ih _ _ _ _

end Parse

end Storyline.Markup
