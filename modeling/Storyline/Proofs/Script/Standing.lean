import Storyline.Proofs.Diagnostic.Bounds
import Storyline.Proofs.Script.Places

/-!
# Where tokens stand

The tokens of a part of a source stand in it one after the other: each is the text under its span,
begins no earlier than the one before it ends, and what is reported about it lies inside of it.
The substitutions of a template stand in the template, one after the other too.

A `Window` is the part of a source that tokens are read from, and `Window.Tokens` says all of this
of a list of tokens.
-/

namespace Storyline.Script

/-! ## Faults -/

/-- Faults that lie between two offsets. -/
def FaultsIn (lo hi : Nat) (fs : List Fault) : Prop :=
  ∀ f ∈ fs, lo ≤ f.start ∧ f.start ≤ f.stop ∧ f.stop ≤ hi

namespace FaultsIn

variable {lo hi lo' hi' : Nat} {fs gs : List Fault}

theorem nil : FaultsIn lo hi [] := List.forall_mem_nil _

theorem cons {start stop : Nat} {code : Code} {message : Bytes} (hlo : lo ≤ start)
    (hle : start ≤ stop) (hhi : stop ≤ hi) (h : FaultsIn lo hi fs) :
    FaultsIn lo hi (⟨start, stop, code, message⟩ :: fs) :=
  List.forall_mem_cons.mpr ⟨⟨hlo, hle, hhi⟩, h⟩

theorem append (h : FaultsIn lo hi fs) (h' : FaultsIn lo hi gs) : FaultsIn lo hi (fs ++ gs) :=
  List.forall_mem_append.mpr ⟨h, h'⟩

theorem mono (h : FaultsIn lo hi fs) (hlo : lo' ≤ lo) (hhi : hi ≤ hi') : FaultsIn lo' hi' fs := by
  intro f hf
  have := h f hf
  omega

end FaultsIn

theorem digitRun_faults (p : Nat) (s : Bytes) :
    FaultsIn p (p + (digitRun p s).1) (digitRun p s).2 := by
  induction s generalizing p with
  | nil => exact .nil
  | cons b s ih =>
    have h := (ih (p + 1)).mono (Nat.le_succ p)
      (show p + 1 + (digitRun (p + 1) s).1 ≤ p + ((digitRun (p + 1) s).1 + 1) by omega)
    simp only [digitRun]
    split
    · exact h
    · split
      · split
        · exact h
        · exact .cons (Nat.le_refl p) (Nat.le_succ p) (by omega) h
      · exact .nil

theorem morePoints_faults (fuel p : Nat) (s : Bytes) :
    FaultsIn p (p + (morePoints fuel p s).1) (morePoints fuel p s).2 := by
  induction fuel generalizing p s with
  | zero => exact .nil
  | succ fuel ih =>
    cases s with
    | nil => exact .nil
    | cons b s =>
      have hrun := digitRun_faults (p + 1) s
      have hmore := ih (p + 1 + (digitRun (p + 1) s).1) (s.drop (digitRun (p + 1) s).1)
      simp only [morePoints]
      split
      · dsimp only
        refine .append (.cons (Nat.le_refl p) (Nat.le_succ p) ?_ (hrun.mono ?_ ?_)) (hmore.mono ?_ ?_)
        all_goals omega
      · exact .nil

theorem fraction_faults (p : Nat) (s : Bytes) :
    FaultsIn p (p + (fraction p s).1) (fraction p s).2 := by
  simp only [fraction]
  split
  · dsimp only
    refine .append ((digitRun_faults (p + 1) s.tail).mono ?_ ?_)
      ((morePoints_faults _ _ _).mono ?_ ?_)
    all_goals omega
  · exact .nil

theorem exponent_faults (p : Nat) (s : Bytes) :
    FaultsIn p (p + (exponent p s).1) (exponent p s).2 := by
  cases s with
  | nil => exact .nil
  | cons b s =>
    simp only [exponent]
    generalize (if (decide (front s = ('+' : UInt8)) || decide (front s = ('-' : UInt8))) = true
      then 1 else 0) = sign
    split
    · split
      · exact (digitRun_faults _ _).mono (by omega) (by simp only; omega)
      · exact .nil
    · exact .nil

theorem badSuffix_faults (p : Nat) (s : Bytes) :
    FaultsIn p (p + (badSuffix p s).1) (badSuffix p s).2 := by
  simp only [badSuffix]
  split
  · exact .nil
  · next b run hrun =>
    refine .cons (Nat.le_refl p) (Nat.le_succ p) ?_ .nil
    simp only [hrun, List.length_cons]
    omega

theorem decimal_faults (p : Nat) (s : Bytes) :
    FaultsIn p (p + (decimal p s).1) (decimal p s).2 := by
  simp only [decimal]
  have ha := digitRun_faults p s
  generalize digitRun p s = a at ha ⊢
  have hb := fraction_faults (p + a.1) (s.drop a.1)
  generalize fraction (p + a.1) (s.drop a.1) = b at hb ⊢
  have hc := exponent_faults (p + a.1 + b.1) (s.drop (a.1 + b.1))
  generalize exponent (p + a.1 + b.1) (s.drop (a.1 + b.1)) = c at hc ⊢
  have hd := badSuffix_faults (p + a.1 + b.1 + c.1) (s.drop (a.1 + b.1 + c.1))
  refine .append (.append (.append (ha.mono ?_ ?_) (hb.mono ?_ ?_)) (hc.mono ?_ ?_)) (hd.mono ?_ ?_)
  all_goals omega

theorem radixRun_faults (base p : Nat) (reported : Bool) (s : Bytes) :
    FaultsIn p (p + (radixRun base p reported s).1) (radixRun base p reported s).2.2 := by
  induction s generalizing p reported with
  | nil => exact .nil
  | cons b s ih =>
    have h (r : Bool) := (ih (p + 1) r).mono (Nat.le_succ p)
      (show p + 1 + (radixRun base (p + 1) r s).1 ≤ p + ((radixRun base (p + 1) r s).1 + 1) by omega)
    simp only [radixRun]
    split
    · split
      · exact h reported
      · exact .cons (Nat.le_refl p) (Nat.le_succ p) (by omega) (h reported)
    · split
      · split
        · exact h reported
        · exact .cons (Nat.le_refl p) (Nat.le_succ p) (by omega) (h true)
      · exact .nil

theorem number_faults (p : Nat) (s : Bytes) :
    FaultsIn p (p + (number p s).1) (number p s).2 := by
  unfold number
  split
  · exact decimal_faults p s
  · next base _ =>
    have h := radixRun_faults base (p + 2) false (s.drop 2)
    simp only
    split
    · dsimp only
      refine .append (h.mono ?_ ?_) (.cons (Nat.le_refl p) ?_ ?_ .nil)
      all_goals omega
    · exact h.mono (by omega) (by simp only; omega)

/-- What is reported about a token lies inside of it. -/
theorem scan_faults (p : Nat) (s : Bytes) :
    FaultsIn p (p + (scan p s).length) (scan p s).faults := by
  -- a fault of the whole token
  have whole (n : Nat) (code : Code) (message : Bytes) :
      FaultsIn p (p + n) [⟨p, p + n, code, message⟩] :=
    .cons (Nat.le_refl p) (Nat.le_add_right p n) (Nat.le_refl _) .nil
  simp only [scan]
  split
  · simp only [scanName]
    split
    · exact whole _ _ _
    · split <;> exact .nil
  · split
    · exact number_faults p s
    · split
      · simp only [scanString]
        split
        · exact .nil
        · exact whole _ _ _
      · split
        · simp only [scanTemplate]
          split
          · exact .nil
          · exact whole _ _ _
        · simp only [scanSymbol]
          split
          · exact .nil
          · exact whole _ _ _

/-! ## Tokens -/

/-- The part of a source up to `stop`, for reading tokens of a file from it. -/
structure Window where
  source : Content
  file : FileId
  stop : Nat
  inside : stop ≤ source.size

namespace Window

variable (w : Window)

/-- What is said about a part of the source. -/
def Says (d : Diagnostic) : Prop := d.span.Within w.file w.source.size ∧ d.Plain

/-- A word of the source: the text under a span, which is not empty. -/
structure Stands (span : Span) (text : Bytes) : Prop where
  file : span.file = w.file
  nonempty : span.start < span.stop
  within : span.stop ≤ w.source.size
  text : w.source.slice span.start span.stop = text

/-- Tokens that stand one after the other between an offset and the end of the window; the last
one is the end of the script. -/
def Tokens (w : Window) : (lo : Nat) → List Lexeme → Prop
  | lo, [] => lo ≤ w.stop
  | lo, l :: ls =>
    if l.token.kind = .endOfScript then lo ≤ w.stop ∧ l.notices = []
    else lo ≤ l.token.span.start ∧ w.Stands l.token.span l.token.text ∧ (∀ d ∈ l.notices, w.Says d)
      ∧ Tokens w l.token.span.stop ls

variable {w} {lo lo' : Nat} {ls : List Lexeme}

theorem Tokens.lo_le (h : w.Tokens lo ls) : lo ≤ w.stop := by
  induction ls generalizing lo with
  | nil => exact h
  | cons l ls ih =>
    unfold Tokens at h
    split at h
    · exact h.1
    · have := ih h.2.2.2
      have := h.2.1.nonempty
      omega

theorem Tokens.mono (h : w.Tokens lo ls) (hlo : lo' ≤ lo) : w.Tokens lo' ls := by
  cases ls with
  | nil => exact Nat.le_trans hlo h
  | cons l ls =>
    unfold Tokens at h ⊢
    split
    · next hk =>
      rw [if_pos hk] at h
      exact ⟨Nat.le_trans hlo h.1, h.2⟩
    · next hk =>
      rw [if_neg hk] at h
      exact ⟨Nat.le_trans hlo h.1, h.2⟩

/-- The text at the front of a source, up to a length, is what stands there. -/
theorem slice_of_prefix {source : Content} {s : Bytes} {pos n : Nat}
    (h : s <+: source.toList.drop pos) (hn : n ≤ s.length) :
    source.slice pos (pos + n) = s.take n := by
  have hslice : source.slice (pos + 0) (pos + n) = (s.drop 0).take (n - 0) := slice_inside h hn
  simpa using hslice

theorem says_fault {file : FileId} {n : Nat} (hfile : file = w.file) (hn : n ≤ w.source.size)
    {fs : List Fault} (h : FaultsIn lo n fs) : ∀ d ∈ fs.map (Fault.diagnostic · file), w.Says d := by
  intro d hd
  obtain ⟨f, hf, rfl⟩ := List.mem_map.mp hd
  obtain ⟨-, hle, hstop⟩ := h f hf
  exact ⟨⟨hfile, hle, Nat.le_trans hstop hn⟩, ⟨rfl, rfl⟩⟩

theorem tokens_lexemes {pos : Nat} {s : Bytes} (h : s <+: w.source.toList.drop pos)
    (hs : pos + s.length ≤ w.stop) : w.Tokens pos (lexemes w.file pos s) := by
  induction s using lexemes_induction generalizing pos with
  | nil =>
    exact ⟨hs, rfl⟩
  | space b s hb ih =>
    rw [lexemes_space w.file pos s hb]
    rw [List.length_cons] at hs
    exact (ih (prefix_drop 1 h) (by omega)).mono (Nat.le_succ pos)
  | token s hne hb ih =>
    have hbounds := scan_bounds pos hne
    have hsame := (scan_alike pos 0 s).length
    have hinside := w.inside
    have hkind : (lexemeAt w.file pos s).token.kind ≠ .endOfScript := scan_kind_ne_end pos s
    rw [lexemes_token w.file pos hne hb, Tokens, if_neg hkind]
    refine ⟨Nat.le_refl pos, ⟨rfl, ?_, ?_, slice_of_prefix h hbounds.2⟩, ?_, ?_⟩
    · exact Nat.lt_add_of_pos_right hbounds.1
    · simp only [lexemeAt]
      omega
    · exact says_fault rfl (by omega) (scan_faults pos s)
    · rw [hsame]
      refine (ih (prefix_drop _ h) ?_).mono ?_
      · rw [List.length_drop]
        omega
      · simp only [lexemeAt]
        omega

/-- The window that ends at an offset of the source. -/
def upTo (w : Window) (stop : Nat) (h : stop ≤ w.source.size) : Window := { w with stop, inside := h }

/-- The tokens between two offsets of the source stand there. -/
theorem tokens_between {start stop : Nat} (hle : start ≤ stop) (h : stop ≤ w.source.size) :
    (w.upTo stop h).Tokens start (lexemesIn w.source w.file start stop) := by
  refine tokens_lexemes (w := w.upTo stop h) ?_ ?_
  · rw [slice_eq]
    exact List.take_prefix _ _
  · have := Content.length_slice w.source start stop
    simp only [upTo]
    omega

/-- The whole of a script. -/
def whole (text : Bytes) (file : FileId) : Window := ⟨text.toArray, file, text.length, by simp⟩

/-- The tokens of a whole source. -/
theorem tokens_whole (text : Bytes) (file : FileId) :
    (whole text file).Tokens 0 (lexemes file 0 text) :=
  tokens_lexemes (by simp [whole]) (by simp [whole])

end Window

/-! ## Substitutions -/

/-- Substitutions that stand one after the other between two offsets. -/
def PartsIn (hi : Nat) : (lo : Nat) → List TemplatePart → Prop
  | lo, [] => lo ≤ hi
  | lo, p :: ps => lo ≤ p.start ∧ p.start ≤ p.stop ∧ PartsIn hi p.stop ps

theorem PartsIn.mono {lo lo' hi hi' : Nat} {ps : List TemplatePart} (h : PartsIn hi lo ps)
    (hlo : lo' ≤ lo) (hhi : hi ≤ hi') : PartsIn hi' lo' ps := by
  induction ps generalizing lo lo' with
  | nil => exact Nat.le_trans hlo (Nat.le_trans h hhi)
  | cons p ps ih => exact ⟨Nat.le_trans hlo h.1, h.2.1, ih h.2.2 (Nat.le_refl _)⟩

theorem PartsIn.lo_le {lo hi : Nat} {ps : List TemplatePart} (h : PartsIn hi lo ps) : lo ≤ hi := by
  induction ps generalizing lo with
  | nil => exact h
  | cons p ps ih =>
    have := ih h.2.2
    have := h.1
    have := h.2.1
    omega

theorem templateShape_ordered (fuel : Nat) (text : Array UInt8) (pos : Nat) (s : Bytes) :
    PartsIn (pos + s.length) pos (templateShape fuel text pos s).parts
      ∧ ∀ i ∈ (templateShape fuel text pos s).unclosed, pos ≤ i ∧ i ≤ pos + s.length := by
  -- by induction on the fuel, in the steps of the reader
  induction fuel generalizing text pos s with
  | zero => simp [templateShape, PartsIn]
  | succ fuel ih =>
    rcases s with _ | ⟨b, _ | ⟨c, rest⟩⟩
    · simp [templateShape, PartsIn]
    · simp [templateShape, PartsIn]
    · simp only [templateShape, List.length_cons]
      split
      · obtain ⟨hparts, hopen⟩ := ih ((text.push b).push c) (pos + 2) rest
        refine ⟨hparts.mono (by omega) (by omega), fun i hi => ?_⟩
        have := hopen i hi
        omega
      · split
        · cases hclose : closingBrace? 0 0 .plain rest with
          -- an open substitution is reported where its text starts
          | none =>
            simp only [PartsIn, Option.mem_def, Option.some.injEq, forall_eq']
            omega
          | some n =>
            obtain ⟨hparts, hopen⟩ := ih #[] (pos + 2 + n + 1) (rest.drop (n + 1))
            have hn := closingBrace?_bounds hclose
            simp only [List.length_drop] at hparts hopen
            refine ⟨⟨by simp only; omega, by simp only; omega, hparts.mono ?_ ?_⟩, fun i hi => ?_⟩
            · simp only
              omega
            · omega
            · have := hopen i hi
              omega
        · obtain ⟨hparts, hopen⟩ := ih (text.push b) (pos + 1) (c :: rest)
          simp only [List.length_cons] at hparts hopen
          refine ⟨hparts.mono (by omega) (by omega), fun i hi => ?_⟩
          have := hopen i hi
          omega

/-- The substitutions of a template stand in it one after the other, and so does one that is not
closed. -/
theorem templateOf_ordered (pos : Nat) {raw : Bytes} (h : raw ≠ []) :
    PartsIn (pos + raw.length) pos (templateOf pos raw).parts
      ∧ ∀ i ∈ (templateOf pos raw).unclosed, pos ≤ i ∧ i ≤ pos + raw.length := by
  obtain ⟨hparts, hopen⟩ :=
    templateShape_ordered (templateBody raw).length #[] (pos + 1) (templateBody raw)
  have hbody := templateBody_length raw
  have hpos := List.length_pos_of_ne_nil h
  refine ⟨hparts.mono (by omega) (by omega), fun i hi => ?_⟩
  have := hopen i hi
  omega

end Storyline.Script
