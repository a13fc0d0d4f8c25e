import Mathlib.Algebra.GroupWithZero.Nat
import Mathlib.Data.List.Basic
import Storyline.Proofs.Script.Lexing
import Storyline.Script.Parser

/-!
# Tokens at their places

Tokens that were read from a place of a source are `Genuine`: words and symbols are spelled as they
have to be, and a template, whose substitutions the parser looks up in the source, does stand where
it says.  The substitutions of a template stand inside of it, and where the template stands only
shifts them.
-/

namespace Storyline.Script

/-! ## Tokens from a lexer -/

/-- Whether a token is one that a lexer delivers from a source: an unreadable one comes with a
report, words and symbols are spelled as they have to be, and a template stands at its place. -/
structure Lexeme.Genuine (source : Content) (l : Lexeme) : Prop where
  invalid : l.token.kind = .invalid → l.notices ≠ []
  symbol : ∀ s, l.token.kind = .symbol s → l.token.text = (s.text : Bytes)
  keyword : ∀ k, l.token.kind = .keyword k → l.token.text = (k.text : Bytes)
  identifier : l.token.kind = .identifier → Keyword.ofBytes? l.token.text = none
  template : l.token.kind = .template →
    l.token.text <+: source.toList.drop l.token.span.start

/-- How many calls reading tokens takes, up to a factor. -/
def weight (ls : List Lexeme) : Nat := (ls.map fun l => max 1 l.token.text.length).sum

@[simp] theorem weight_nil : weight [] = 0 := rfl

@[simp] theorem weight_cons (l : Lexeme) (ls : List Lexeme) :
    weight (l :: ls) = max 1 l.token.text.length + weight ls := by
  simp [weight]

@[simp] theorem weight_append (ls ms : List Lexeme) :
    weight (ls ++ ms) = weight ls + weight ms := by
  simp [weight]

theorem weight_pos {ls : List Lexeme} (h : ls ≠ []) : 0 < weight ls := by
  cases ls with
  | nil => exact absurd rfl h
  | cons l ls =>
    rw [weight_cons]
    omega

theorem Keyword.ofBytes?_text (k : Keyword) : Keyword.ofBytes? k.text = some k := by
  cases k <;> decide

namespace Lexeme.Genuine

variable {source : Content} {l : Lexeme}

theorem form_symbol (h : l.Genuine source) {s : Symbol} (hk : l.token.kind = .symbol s) :
    l.token.form = .symbol s := by
  simp [Token.form, hk, h.symbol s hk, Form.symbol, Form.of, TokenKind.name]

theorem form_keyword (h : l.Genuine source) {k : Keyword} (hk : l.token.kind = .keyword k) :
    l.token.form = .of (.keyword k) := by
  simp [Token.form, hk, h.keyword k hk, Form.of, TokenKind.name]

theorem form_word (h : l.Genuine source) {k : Keyword} (hk : l.token.kind = .keyword k) :
    l.token.form = .word l.token.text := by
  simp [Token.form, hk, h.keyword k hk, Form.word, Keyword.ofBytes?_text]

/-- The form of a property name does not depend on whether it is a reserved word. -/
theorem form_property (h : l.Genuine source) (hk : l.token.kind.isPropertyName = true) :
    l.token.form = .word l.token.text := by
  cases hkind : l.token.kind with
  | identifier => simp [Token.form, hkind, Form.word, h.identifier hkind]
  | keyword k => exact h.form_word hkind
  | invalid | endOfScript | number | string | template | symbol s =>
    simp [hkind, TokenKind.isPropertyName] at hk

/-- The form of an operator is its spelling. -/
theorem form_operator (h : l.Genuine source) (hk : l.token.kind.binding?.isSome = true) :
    l.token.form = .of l.token.kind := by
  cases hkind : l.token.kind with
  | symbol s => exact h.form_symbol hkind
  | keyword k => exact h.form_keyword hkind
  | invalid | endOfScript | number | string | template | identifier =>
    simp [hkind, TokenKind.binding?] at hk

theorem form_prefixOperator (h : l.Genuine source) (hk : l.token.kind.isPrefixOperator = true) :
    l.token.form = .of l.token.kind := by
  cases hkind : l.token.kind with
  | symbol s => exact h.form_symbol hkind
  | keyword k => exact h.form_keyword hkind
  | invalid | endOfScript | number | string | template | identifier =>
    simp [hkind, TokenKind.isPrefixOperator] at hk

end Lexeme.Genuine

/-! ## Places in a source -/

theorem slice_eq (source : Content) (start stop : Nat) :
    source.slice start stop = (source.toList.drop start).take (stop - start) := by
  simp [Content.slice, List.extract_eq_take_drop]

theorem prefix_drop {source : Content} {s : Bytes} {pos : Nat} (n : Nat)
    (h : s <+: source.toList.drop pos) : s.drop n <+: source.toList.drop (pos + n) := by
  obtain ⟨more, hmore⟩ := h
  rw [← List.drop_drop, ← hmore, List.drop_append]
  exact List.prefix_append _ _

/-- A part of a text that stands in a source is the part of the source at that place. -/
theorem slice_inside {source : Content} {s : Bytes} {pos start stop : Nat}
    (h : s <+: source.toList.drop pos) (hstop : stop ≤ s.length) :
    source.slice (pos + start) (pos + stop) = (s.drop start).take (stop - start) := by
  obtain ⟨more, hmore⟩ := prefix_drop start h
  rw [slice_eq, ← hmore, List.take_append_of_le_length (by rw [List.length_drop]; omega),
    Nat.add_sub_add_left]

theorem scan_genuine (pos : Nat) (s : Bytes) :
    ((scan pos s).kind = .invalid → (scan pos s).faults ≠ [])
    ∧ (∀ op, (scan pos s).kind = .symbol op → s.take (scan pos s).length = (op.text : Bytes))
    ∧ (∀ k, (scan pos s).kind = .keyword k → s.take (scan pos s).length = (k.text : Bytes))
    ∧ ((scan pos s).kind = .identifier → Keyword.ofBytes? (s.take (scan pos s).length) = none) := by
  -- In the order in which the scanner asks, as it is the branch that fixes the kind.
  simp only [scan]
  split
  · simp only [scanName]
    split
    · simp [unknownCharacter]
    · split
      · rename_i k hk
        refine ⟨by simp, by simp, ?_, by simp⟩
        rintro k' ⟨rfl⟩
        have hfound := List.find?_some hk
        exact (of_decide_eq_true hfound).symm
      · rename_i hk
        exact ⟨by simp, by simp, by simp, fun _ => hk⟩
  · split
    · simp
    · split
      · simp only [scanString]
        split <;> simp
      · split
        · simp only [scanTemplate]
          split <;> simp
        · simp only [scanSymbol]
          split
          · rename_i op hop
            refine ⟨by simp, ?_, by simp, by simp⟩
            rintro op' ⟨rfl⟩
            have hstart := List.find?_some hop
            rw [List.isPrefixOf_iff_prefix] at hstart
            exact (List.prefix_iff_eq_take.mp hstart).symm
          · simp [unknownCharacter]

theorem genuine_lexemes {source : Content} (file : FileId) {pos : Nat} {s : Bytes}
    (h : s <+: source.toList.drop pos) : ∀ l ∈ lexemes file pos s, l.Genuine source := by
  induction s using lexemes_induction generalizing pos with
  | nil =>
    intro l hl
    obtain rfl : l = lexemeEnd file pos := by simpa using hl
    exact ⟨nofun, nofun, nofun, nofun, nofun⟩
  | space b s hb ih =>
    rw [lexemes_space file pos s hb]
    exact ih (prefix_drop 1 h)
  | token s hs hb ih =>
    rw [lexemes_token file pos hs hb, (scan_alike pos 0 s).length, List.forall_mem_cons]
    refine ⟨?_, ih (prefix_drop _ h)⟩
    obtain ⟨hinvalid, hsymbol, hkeyword, hname⟩ := scan_genuine pos s
    exact ⟨fun hk => by simpa [lexemeAt] using hinvalid hk, hsymbol, hkeyword, hname,
      fun _ => (List.take_prefix _ _).trans h⟩

theorem weight_lexemes (file : FileId) (pos : Nat) (s : Bytes) :
    weight (lexemes file pos s) ≤ s.length + 1 := by
  induction s using lexemes_induction generalizing pos with
  | nil => simp [lexemeEnd]
  | space b s hb ih =>
    rw [lexemes_space file pos s hb, List.length_cons]
    have := ih (pos + 1)
    omega
  | token s hs hb ih =>
    have hbounds := scan_bounds 0 hs
    have := ih (pos + (scan 0 s).length)
    rw [lexemes_token file pos hs hb, (scan_alike pos 0 s).length, weight_cons]
    simp only [lexemeAt, (scan_alike pos 0 s).length, List.length_take, List.length_drop] at this ⊢
    omega

theorem genuine_lexemesIn (source : Content) (file : FileId) (start stop : Nat) :
    ∀ l ∈ lexemesIn source file start stop, l.Genuine source := by
  refine genuine_lexemes file ?_
  rw [slice_eq]
  exact List.take_prefix _ _

theorem weight_lexemesIn (source : Content) (file : FileId) (start stop : Nat) :
    weight (lexemesIn source file start stop) ≤ stop - start + 1 := by
  have hweight := weight_lexemes file start (source.slice start stop)
  have hlength : (source.slice start stop).length ≤ stop - start := by
    rw [slice_eq]
    exact List.length_take_le _ _
  simp only [lexemesIn]
  omega

/-! ## Places in a template -/

theorem closingBrace?_bounds {length depth n : Nat} {state : TemplateState} {s : Bytes}
    (h : closingBrace? length depth state s = some n) : length ≤ n ∧ n < length + s.length := by
  induction s generalizing length depth state with
  | nil => cases state <;> simp [closingBrace?] at h
  | cons b s ih =>
    -- whatever the state is afterwards, a byte was passed
    have step : ∀ {d st}, closingBrace? (length + 1) d st s = some n →
        length ≤ n ∧ n < length + (b :: s).length := by
      intro d st hrec
      have := ih hrec
      simp only [List.length_cons]
      omega
    cases state with
    | skipping => exact step h
    | quotedSkipping q => exact step h
    | quoted q =>
      simp only [closingBrace?] at h
      split at h
      · exact step h
      · split at h <;> exact step h
    | plain =>
      simp only [closingBrace?] at h
      split at h
      · exact step h
      · split at h
        · exact step h
        · split at h
          · exact step h
          · split at h
            · split at h
              · cases h
                simp
              · exact step h
            · exact step h

/-- A part of a template, moved. -/
def TemplatePart.shift (k : Nat) (p : TemplatePart) : TemplatePart :=
  { p with start := k + p.start, stop := k + p.stop }

theorem templateShape_shift (k fuel : Nat) (text : Array UInt8) (pos : Nat) (s : Bytes) :
    (templateShape fuel text (k + pos) s).parts
        = (templateShape fuel text pos s).parts.map (TemplatePart.shift k)
      ∧ (templateShape fuel text (k + pos) s).tail = (templateShape fuel text pos s).tail
      ∧ ((templateShape fuel text (k + pos) s).unclosed = none
        ↔ (templateShape fuel text pos s).unclosed = none) := by
  induction fuel generalizing text pos s with
  | zero => simp [templateShape]
  | succ fuel ih =>
    match s with
    | [] => simp [templateShape]
    | [b] => simp [templateShape]
    | b :: c :: rest =>
      simp only [templateShape]
      split
      · exact ih _ (pos + 2) rest
      · split
        · cases closingBrace? 0 0 .plain rest with
          | none => simp
          | some n =>
            obtain ⟨hparts, htail, hunclosed⟩ := ih #[] (pos + 2 + n + 1) (rest.drop (n + 1))
            have hpos : k + pos + 2 + n + 1 = k + (pos + 2 + n + 1) := by omega
            simp only [hpos, hparts, htail, hunclosed, List.map_cons, TemplatePart.shift]
            simp only [Nat.add_assoc, and_self]
        · exact ih _ (pos + 1) (c :: rest)

/-- A template says the same wherever it stands. -/
theorem templateOf_shift (pos : Nat) (raw : Bytes) :
    (templateOf pos raw).parts = (templateOf 0 raw).parts.map (TemplatePart.shift pos)
      ∧ (templateOf pos raw).tail = (templateOf 0 raw).tail
      ∧ ((templateOf pos raw).unclosed = none ↔ (templateOf 0 raw).unclosed = none) :=
  templateShape_shift pos _ _ (0 + 1) _

theorem templateShape_bounds (fuel : Nat) (text : Array UInt8) (pos : Nat) (s : Bytes) :
    3 * (templateShape fuel text pos s).parts.length ≤ s.length
      ∧ ∀ p ∈ (templateShape fuel text pos s).parts, pos ≤ p.start ∧ p.start ≤ p.stop
        ∧ p.stop ≤ pos + s.length
        ∧ p.stop - p.start + 3 * (templateShape fuel text pos s).parts.length ≤ s.length := by
  -- By induction on the fuel: an escape takes two bytes, a substitution at least three, a plain
  -- byte one.
  induction fuel generalizing text pos s with
  | zero => simp [templateShape]
  | succ fuel ih =>
    match s with
    | [] => simp [templateShape]
    | [b] => simp [templateShape]
    | b :: c :: rest =>
      simp only [templateShape]
      split
      · obtain ⟨hcount, hparts⟩ := ih ((text.push b).push c) (pos + 2) rest
        simp only [List.length_cons]
        refine ⟨by omega, fun p hp => ?_⟩
        have := hparts p hp
        omega
      · split
        · cases hclose : closingBrace? 0 0 .plain rest with
          | none => simp
          | some n =>
            obtain ⟨hcount, hparts⟩ := ih #[] (pos + 2 + n + 1) (rest.drop (n + 1))
            have hn := closingBrace?_bounds hclose
            simp only [List.length_drop] at hcount hparts
            simp only [List.length_cons, List.forall_mem_cons]
            refine ⟨by omega, by omega, fun p hp => ?_⟩
            have := hparts p hp
            omega
        · obtain ⟨hcount, hparts⟩ := ih (text.push b) (pos + 1) (c :: rest)
          simp only [List.length_cons] at hcount hparts ⊢
          refine ⟨by omega, fun p hp => ?_⟩
          have := hparts p hp
          omega

theorem templateBody_length (raw : Bytes) : (templateBody raw).length ≤ raw.length - 1 := by
  simp only [templateBody]
  split
  · simp only [List.length_dropLast, List.length_tail]
    omega
  · simp

/-- The substitutions of a template stand in it, and none of them is as long as it. -/
theorem templateOf_inside (pos : Nat) (raw : Bytes) : ∀ p ∈ (templateOf pos raw).parts,
    pos < p.start ∧ p.start ≤ p.stop ∧ p.stop ≤ pos + raw.length
    ∧ p.stop - p.start + 3 * (templateOf pos raw).parts.length + 1 ≤ raw.length := by
  intro p hp
  have h := (templateShape_bounds (templateBody raw).length #[] (pos + 1) (templateBody raw)).2 p hp
  have hbody := templateBody_length raw
  have hcount : 0 < (templateOf pos raw).parts.length := List.length_pos_of_mem hp
  simp only [templateOf] at hcount ⊢
  omega

theorem templateOf_bounds (raw : Bytes) : ∀ p ∈ (templateOf 0 raw).parts, p.start ≤ p.stop
    ∧ p.stop ≤ raw.length
    ∧ p.stop - p.start + 3 * (templateOf 0 raw).parts.length + 1 ≤ raw.length := by
  intro p hp
  have h := templateOf_inside 0 raw p hp
  rw [Nat.zero_add] at h
  exact h.2

end Storyline.Script
