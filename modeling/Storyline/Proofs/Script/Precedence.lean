import Mathlib.Data.List.Basic
import Storyline.Proofs.Script.Completeness
import Storyline.Proofs.Script.Soundness

/-!
# The precedence climber

The parser as a function of tokens.  Trees that it returns without a report respect the precedence
table and read from left to right they give back the tokens, but for the semicolons between
statements and the commas after last items; and the tokens of trees that respect the precedence
table are parsed back to these trees.
-/

namespace Storyline.Script

/-! ## Reading trees from left to right -/

namespace Form

/-- A form without the text of a template. -/
def blank (f : Form) : Form := if f.kind = .template then ⟨.template, []⟩ else f

@[simp] theorem blank_kind (f : Form) : f.blank.kind = f.kind := by
  unfold blank
  split
  · rename_i h
    exact h.symm
  · rfl

theorem blank_of_ne {f : Form} (h : f.kind ≠ .template) : f.blank = f := by
  simp [blank, h]

/-- Whether a form is neither a semicolon nor a comma. -/
def Stays (f : Form) : Prop := f.kind ≠ .symbol .semicolon ∧ f.kind ≠ .symbol .comma

theorem stays_word (n : Bytes) : (word n).Stays := by
  unfold Stays word
  cases Keyword.ofBytes? n <;> simp

theorem word_ne_template (n : Bytes) : (word n).kind ≠ .template := by
  unfold word
  cases Keyword.ofBytes? n <;> simp

theorem stays_of_binding {op : TokenKind} {b : Binding} (h : op.binding? = some b) :
    (of op).Stays := by
  constructor <;> rintro (rfl : op = _) <;> cases h

theorem stays_of_prefixOperator {op : TokenKind} (h : op.isPrefixOperator = true) :
    (of op).Stays := by
  constructor <;> rintro (rfl : op = _) <;> cases h

end Form

/-- Tokens without separators and without the texts of templates. -/
def outline (ts : List Form) : List Form := (withoutSeparators ts).map Form.blank

attribute [local simp] withoutSeparators

@[simp] theorem outline_nil : outline [] = [] := rfl

theorem outline_cons {f : Form} (h : f.Stays) (ts : List Form) :
    outline (f :: ts) = f.blank :: outline ts := by
  have h1 : f ≠ .symbol .semicolon := fun he => h.1 (congrArg Form.kind he)
  have h2 : f ≠ .symbol .comma := fun he => h.2 (congrArg Form.kind he)
  simp [outline, h1, h2]

theorem outline_semicolon (ts : List Form) : outline (.symbol .semicolon :: ts) = outline ts := by
  simp [outline]

theorem outline_last_comma {f : Form} (h : f.isCloser = true) (ts : List Form) :
    outline (.symbol .comma :: f :: ts) = outline (f :: ts) := by
  simp [outline, h]

theorem outline_comma {f : Form} (h : f.isCloser = false) (ts : List Form) :
    outline (.symbol .comma :: f :: ts) = .symbol .comma :: outline (f :: ts) := by
  have hne : Form.symbol .comma ≠ .symbol .semicolon := by decide
  have hb : (Form.symbol .comma).blank = .symbol .comma := by decide
  rw [outline, withoutSeparators]
  simp [h, hne, hb, outline]

theorem isCloser_of_startsTree {f : Form} (h : f.kind.startsTree = true) : f.isCloser = false := by
  simp only [Form.isCloser, Bool.or_eq_false_iff, decide_eq_false_iff_not]
  constructor <;> rintro rfl <;> cases h

namespace Expr

mutual

/-- The tokens of a tree are its forms, but for commas after last items and the spacing of
substitutions. -/
-- By induction on the expression, for every rest: each form that is printed stays in the outline,
-- and the rest is met when the last of them is passed.
theorem outline_spells : ∀ (e : Expr) {ts : List Form}, Spells ts e → e.Respects →
    ∀ rest, outline (ts ++ rest) = e.forms.map Form.blank ++ outline rest
  | .literal _ .number _ _, _, rfl, _, rest | .literal _ .string _ _, _, rfl, _, rest
  | .identifier _ _, _, rfl, _, rest => by
    simp only [List.singleton_append, forms, List.map_cons, List.map_nil]
    exact outline_cons ⟨by simp, by simp⟩ rest
  | .literal _ .bool raw _, _, rfl, _, rest | .literal _ .null raw _, _, rfl, _, rest
  | .literal _ .undefined raw _, _, rfl, _, rest => outline_cons (Form.stays_word raw) rest
  | .binary _ op l r, _, ⟨us, vs, rfl, hus, hvs⟩, ⟨⟨b, hb, _⟩, hl, hr⟩, rest => by
    rw [List.append_assoc, l.outline_spells hus hl, List.cons_append,
      outline_cons (Form.stays_of_binding hb), r.outline_spells hvs hr]
    simp [forms]
  | .unary _ op x, _, ⟨us, rfl, hus⟩, ⟨hop, _, hx⟩, rest => by
    rw [List.cons_append, outline_cons (Form.stays_of_prefixOperator hop), x.outline_spells hus hx]
    simp [forms]
  | .trailing _ op x, _, ⟨us, rfl, hus⟩, ⟨hop, _, hx⟩, rest => by
    have hstays : (Form.of op).Stays := by
      rcases hop with rfl | rfl <;> exact ⟨by simp, by simp⟩
    rw [List.append_assoc, x.outline_spells hus hx, List.singleton_append, outline_cons hstays]
    simp [forms]
  | .member _ b n _, _, ⟨us, rfl, hus⟩, ⟨_, _, hb⟩, rest => by
    rw [List.append_assoc, b.outline_spells hus hb, List.cons_append,
      outline_cons ⟨by simp, by simp⟩, List.singleton_append, outline_cons (Form.stays_word n)]
    simp [forms]
  | .index _ b i, _, ⟨us, vs, rfl, hus, hvs⟩, ⟨_, hb, hi⟩, rest => by
    rw [List.append_assoc, List.append_assoc, b.outline_spells hus hb, List.cons_append,
      outline_cons ⟨by simp, by simp⟩, i.outline_spells hvs hi, List.singleton_append,
      outline_cons ⟨by simp, by simp⟩]
    simp [forms]
  | .call _ c args, _, ⟨us, vs, rfl, hus, hvs⟩, ⟨_, _, hc, hargs⟩, rest => by
    rw [List.append_assoc, List.append_assoc, c.outline_spells hus hc, List.cons_append,
      outline_cons ⟨by simp, by simp⟩, List.singleton_append,
      outline_spellsList args hvs hargs _ (by decide), outline_cons ⟨by simp, by simp⟩]
    simp [forms]
  | .array _ xs, _, ⟨us, rfl, hus⟩, hxs, rest => by
    rw [List.append_assoc, List.cons_append, outline_cons ⟨by simp, by simp⟩,
      List.singleton_append, outline_spellsList xs hus hxs _ (by decide),
      outline_cons ⟨by simp, by simp⟩]
    simp [forms]
  | .construct _ c args true, _, ⟨us, vs, rfl, hus, hvs⟩, ⟨_, _, _, hc, hargs⟩, rest => by
    obtain ⟨ws, rfl, hws⟩ := hvs
    rw [List.append_assoc, List.cons_append, outline_cons ⟨by simp, by simp⟩,
      c.outline_spells hus hc, List.append_assoc, List.cons_append,
      outline_cons ⟨by simp, by simp⟩, List.singleton_append,
      outline_spellsList args hws hargs _ (by decide), outline_cons ⟨by simp, by simp⟩]
    simp [forms]
  | .construct _ c args false, _, ⟨us, vs, rfl, hus, hvs⟩, ⟨_, _, _, hc, _⟩, rest => by
    obtain rfl : vs = [] := hvs
    rw [List.append_nil, List.cons_append, outline_cons ⟨by simp, by simp⟩,
      c.outline_spells hus hc]
    simp [forms]
  | .ternary _ c a b, _, ⟨us, vs, ws, rfl, hus, hvs, hws⟩, ⟨_, hc, ha, hb⟩, rest => by
    rw [List.append_assoc, List.append_assoc, c.outline_spells hus hc, List.cons_append,
      outline_cons ⟨by simp, by simp⟩, a.outline_spells hvs ha, List.cons_append,
      outline_cons ⟨by simp, by simp⟩, b.outline_spells hws hb]
    simp [forms]
  -- a template stands for itself, whatever is substituted in it
  | .template _ parts tail, _, ⟨raw, rfl, _⟩, _, rest => by
    rw [List.singleton_append, outline_cons ⟨by simp, by simp⟩]
    simp [forms, Form.blank]
  | .group _ x, _, ⟨us, rfl, hus⟩, hx, rest => by
    rw [List.append_assoc, List.cons_append, outline_cons ⟨by simp, by simp⟩,
      x.outline_spells hus hx, List.singleton_append, outline_cons ⟨by simp, by simp⟩]
    simp [forms]

/-- The tokens of a list before its closing token. -/
theorem outline_spellsList : ∀ (xs : List Expr) {ts : List Form}, SpellsList ts xs →
    RespectsAll xs → ∀ {closer : Form} (rest : List Form), closer.isCloser = true →
    outline (ts ++ closer :: rest) = (formsList xs).map Form.blank ++ outline (closer :: rest)
  | [], _, rfl, _, _, _, _ => rfl
  | [x], _, ⟨us, hus, .inl ⟨_, rfl⟩⟩, ⟨hx, _⟩, _, _, _ => x.outline_spells hus hx _
  | [x], _, ⟨us, hus, .inr ⟨_, rfl, rfl⟩⟩, ⟨hx, _⟩, closer, rest, hcloser => by
    rw [List.append_assoc, x.outline_spells hus hx, List.singleton_append,
      outline_last_comma hcloser]
    rfl
  | x :: y :: xs, _, ⟨us, hus, .inr ⟨vs, rfl, hvs⟩⟩, ⟨hx, hxs⟩, closer, rest, hcloser => by
    have hrec := outline_spellsList (y :: xs) hvs hxs rest hcloser
    obtain ⟨ws, hws, hmore⟩ := hvs
    obtain ⟨f, fs, rfl, hstart, _⟩ := y.first_of_spells hws hxs.1
    obtain ⟨gs, rfl⟩ : ∃ gs, vs = f :: gs := by
      rcases hmore with ⟨_, rfl⟩ | ⟨_, rfl, _⟩ <;> exact ⟨_, rfl⟩
    rw [List.append_assoc, x.outline_spells hus hx, List.cons_append, List.cons_append,
      outline_comma (isCloser_of_startsTree hstart), ← List.cons_append, hrec]
    have hb : (Form.symbol .comma).blank = .symbol .comma := by decide
    simp [formsList, hb]

end

end Expr

/-- The tokens of a script are the forms of its trees and semicolons. -/
theorem outline_spellsScript {ts : List Form} {es : Statements} (h : SpellsScript ts es)
    (hrespects : ∀ e ∈ es, e.Respects) :
    outline ts = (es.flatMap Expr.forms).map Form.blank := by
  induction h with
  | nil => rfl
  | skip h ih => rw [outline_semicolon, ih hrespects]
  | @cons ts us e es he _ _ ih =>
    rw [e.outline_spells he (hrespects e (by simp)), ih fun x hx => hrespects x (by simp [hx])]
    simp

/-! ## Trees as tokens -/

namespace Expr

mutual

/-- The templates of a tree that stand in no other template. -/
def templates : Expr → List Expr
  | literal .. | identifier .. | missing => []
  | binary _ _ l r => l.templates ++ r.templates
  | unary _ _ x | trailing _ _ x | group _ x => x.templates
  | member _ b _ _ => b.templates
  | index _ b i => b.templates ++ i.templates
  | call _ c args => c.templates ++ templatesAll args
  | array _ xs => templatesAll xs
  | construct _ c args _ => c.templates ++ templatesAll args
  | ternary _ c a b => c.templates ++ a.templates ++ b.templates
  | e@(template ..) => [e]

/-- The templates of trees that stand in no other template. -/
def templatesAll : List Expr → List Expr
  | [] => []
  | x :: xs => x.templates ++ templatesAll xs

end

mutual

/-- The forms of a tree spell it, if those of its templates spell them. -/
theorem spells_forms : ∀ (e : Expr), e.Respects → (∀ t ∈ e.templates, Spells t.forms t) →
    Spells e.forms e
  | .literal _ .number _ _, _, _ | .literal _ .string _ _, _, _ | .literal _ .bool _ _, _, _
  | .literal _ .null _ _, _, _ | .literal _ .undefined _ _, _, _ | .identifier _ _, _, _ => rfl
  | .binary _ _ l r, ⟨_, hl, hr⟩, h => by
    simp only [templates, List.forall_mem_append] at h
    exact ⟨_, _, rfl, l.spells_forms hl h.1, r.spells_forms hr h.2⟩
  | .unary _ _ x, ⟨_, _, hx⟩, h => ⟨_, rfl, x.spells_forms hx h⟩
  | .trailing _ _ x, ⟨_, _, hx⟩, h => ⟨_, rfl, x.spells_forms hx h⟩
  | .member _ b _ _, ⟨_, _, hb⟩, h => ⟨_, rfl, b.spells_forms hb h⟩
  | .index _ b i, ⟨_, hb, hi⟩, h => by
    simp only [templates, List.forall_mem_append] at h
    exact ⟨_, _, rfl, b.spells_forms hb h.1, i.spells_forms hi h.2⟩
  | .call _ c args, ⟨_, _, hc, hargs⟩, h => by
    simp only [templates, List.forall_mem_append] at h
    exact ⟨_, _, rfl, c.spells_forms hc h.1, spellsList_formsList args hargs h.2⟩
  | .array _ xs, hxs, h => ⟨_, rfl, spellsList_formsList xs hxs h⟩
  | .construct _ c args true, ⟨_, _, _, hc, hargs⟩, h => by
    simp only [templates, List.forall_mem_append] at h
    exact ⟨c.forms, _, rfl, c.spells_forms hc h.1, _, rfl, spellsList_formsList args hargs h.2⟩
  | .construct _ c args false, ⟨_, _, _, hc, _⟩, h => by
    simp only [templates, List.forall_mem_append] at h
    exact ⟨c.forms, [], rfl, c.spells_forms hc h.1, rfl⟩
  | .ternary _ c a b, ⟨_, hc, ha, hb⟩, h => by
    simp only [templates, List.forall_mem_append] at h
    exact ⟨_, _, _, rfl, c.spells_forms hc h.1.1, a.spells_forms ha h.1.2, b.spells_forms hb h.2⟩
  | .template .., _, h => h _ (by simp [templates])
  | .group _ x, hx, h => ⟨_, rfl, x.spells_forms hx h⟩

theorem spellsList_formsList : ∀ (xs : List Expr), RespectsAll xs →
    (∀ t ∈ templatesAll xs, Spells t.forms t) → SpellsList (formsList xs) xs
  | [], _, _ => rfl
  | [x], ⟨hx, _⟩, h => by
    simp only [templatesAll, List.forall_mem_append] at h
    exact ⟨_, x.spells_forms hx h.1, .inl ⟨rfl, rfl⟩⟩
  | x :: y :: xs, ⟨hx, hxs⟩, h => by
    rw [templatesAll, List.forall_mem_append] at h
    exact ⟨_, x.spells_forms hx h.1, .inr ⟨_, rfl, spellsList_formsList (y :: xs) hxs h.2⟩⟩

end

mutual

/-- Without templates no token of a tree is one. -/
-- A form of an expression without templates comes from a part without templates, or it is an
-- operator, a bracket or a word.
theorem forms_ne_template : ∀ (e : Expr), e.Respects → e.templates = [] →
    ∀ f ∈ e.forms, f.kind ≠ .template
  | .literal _ .number _ _, _, _ | .literal _ .string _ _, _, _ | .identifier _ _, _, _ => by
    simp [forms]
  | .literal _ .bool raw _, _, _ | .literal _ .null raw _, _, _ | .literal _ .undefined raw _, _, _ => by
    simpa [forms] using Form.word_ne_template raw
  | .binary _ op l r, ⟨⟨b, hb, _⟩, hl, hr⟩, h => by
    obtain ⟨h1, h2⟩ := List.append_eq_nil_iff.mp h
    have hop : op ≠ .template := by
      rintro rfl
      cases hb
    have := l.forms_ne_template hl h1
    have := r.forms_ne_template hr h2
    grind [forms, Form.of]
  | .unary _ op x, ⟨hop, _, hx⟩, h => by
    have hne : op ≠ .template := by
      rintro rfl
      cases hop
    have := x.forms_ne_template hx h
    grind [forms, Form.of]
  | .trailing _ op x, ⟨hop, _, hx⟩, h => by
    have := x.forms_ne_template hx h
    grind [forms, Form.of]
  | .member _ b n _, ⟨_, _, hb⟩, h => by
    have := b.forms_ne_template hb h
    have := Form.word_ne_template n
    grind [forms, Form.symbol_kind]
  | .index _ b i, ⟨_, hb, hi⟩, h => by
    obtain ⟨h1, h2⟩ := List.append_eq_nil_iff.mp h
    have := b.forms_ne_template hb h1
    have := i.forms_ne_template hi h2
    grind [forms, Form.symbol_kind]
  | .call _ c args, ⟨_, _, hc, hargs⟩, h => by
    obtain ⟨h1, h2⟩ := List.append_eq_nil_iff.mp h
    have := c.forms_ne_template hc h1
    have := formsList_ne_template args hargs h2
    grind [forms, Form.symbol_kind]
  | .array _ xs, hxs, h => by
    have := formsList_ne_template xs hxs h
    grind [forms, Form.symbol_kind]
  | .construct _ c args hasArgs, ⟨_, _, _, hc, hargs⟩, h => by
    obtain ⟨h1, h2⟩ := List.append_eq_nil_iff.mp h
    have := c.forms_ne_template hc h1
    have := formsList_ne_template args hargs h2
    grind [forms, Form.symbol_kind, Form.of_kind]
  | .ternary _ c a b, ⟨_, hc, ha, hb⟩, h => by
    obtain ⟨h12, h3⟩ := List.append_eq_nil_iff.mp h
    obtain ⟨h1, h2⟩ := List.append_eq_nil_iff.mp h12
    have := c.forms_ne_template hc h1
    have := a.forms_ne_template ha h2
    have := b.forms_ne_template hb h3
    grind [forms, Form.symbol_kind]
  | .group _ x, hx, h => by
    have := x.forms_ne_template hx h
    grind [forms, Form.symbol_kind]

theorem formsList_ne_template : ∀ (xs : List Expr), RespectsAll xs → templatesAll xs = [] →
    ∀ f ∈ formsList xs, f.kind ≠ .template
  | [], _, _ => by simp [formsList]
  | [x], ⟨hx, _⟩, h => x.forms_ne_template hx (List.append_eq_nil_iff.mp h).1
  | x :: y :: xs, ⟨hx, hxs⟩, h => by
    obtain ⟨h1, h2⟩ := List.append_eq_nil_iff.mp h
    have := x.forms_ne_template hx h1
    have := formsList_ne_template (y :: xs) hxs h2
    grind [formsList, Form.symbol_kind]

end

end Expr

/-- The forms of statements with semicolons between them. -/
def scriptForms : Statements → List Form
  | [] => []
  | [e] => e.forms
  | e :: es => e.forms ++ .symbol .semicolon :: scriptForms es

theorem spellsScript_scriptForms : ∀ {es : Statements}, (∀ e ∈ es, Spells e.forms e) →
    SpellsScript (scriptForms es) es
  | [], _ => .nil
  | [e], h => by
    have := SpellsScript.cons (h e (by simp)) .nil (.inl rfl)
    simpa [scriptForms] using this
  | e :: y :: es, h => by
    have hrec := spellsScript_scriptForms fun x hx => h x (List.mem_cons_of_mem e hx)
    exact .cons (h e (by simp)) (.skip hrec) (.inr ⟨_, rfl⟩)

theorem scriptForms_ne_template : ∀ {es : Statements}, (∀ e ∈ es, ∀ f ∈ e.forms, f.kind ≠ .template) →
    ∀ f ∈ scriptForms es, f.kind ≠ .template
  | [], _ => by simp [scriptForms]
  | [e], h => h e (by simp)
  | e :: y :: es, h => by
    have hrec := scriptForms_ne_template fun x hx => h x (List.mem_cons_of_mem e hx)
    have he := h e (by simp)
    grind [scriptForms, Form.symbol_kind]

/-! ## Parsing tokens -/

/-- Parses the tokens of a source, the end of the script being the last.  `fuel` bounds the depth
of the calls. -/
def parseTokens (source : Content) (file : FileId) (maxErrors fuel : Nat) (ls : List Lexeme) :
    Parsed :=
  let start : ParserState := { source, file, maxErrors, rest := ls, last := ⟨file, 0, 0⟩ }
  let (script, final) := (Parse.statements fuel #[]).run start
  ⟨script, final.log.toList⟩

/-- A script is parsed as the tokens that its lexer delivers. -/
theorem parse_eq_parseTokens (text : Bytes) (file : FileId) (maxErrors : Nat) :
    parse text file maxErrors =
      parseTokens text.toArray file maxErrors (parseFuel text.length) (lexemes file 0 text) :=
  rfl

/-- What a text without reports spells. -/
theorem parse_sound {text : Bytes} {file : FileId} (h : (parse text file 0).diagnostics = []) :
    Faultless text ∧ SpellsScript (formsOf text) (parse text file 0).script
      ∧ ∀ e ∈ (parse text file 0).script, e.Respects := by
  have hplace : text <+: text.toArray.toList.drop 0 := by simp
  have hw := weight_lexemes file 0 text
  let start : ParserState := {
    source := text.toArray, file, maxErrors := 0
    rest := lexemes file 0 text
    last := ⟨file, 0, 0⟩ }
  have hready : Ready start := ⟨rfl, genuine_lexemes file hplace, by simp [start]⟩
  rcases hrun : Parse.statements (parseFuel text.length) #[] start with ⟨r, s'⟩
  have hparse : parse text file 0 = ⟨r, s'.log.toList⟩ := by
    change (let (script, final) := Parse.statements (parseFuel text.length) #[] start
      (⟨script, final.log.toList⟩ : Parsed)) = _
    rw [hrun]
  rw [hparse] at h ⊢
  have hlog : s'.log.size = start.log.size := by
    have : s'.log.toList = [] := h
    simp [start, ← Array.length_toList, this]
  obtain ⟨es, ts, rfl, hread, hend, hspells, hrespects⟩ :=
    Parse.statements_sound hready (by simp only [start, parseFuel]; omega) hrun hlog
  obtain ⟨hforms, hfaultless⟩ := Parse.formsOf_of_reads hread.rest hread.clean hend
  exact ⟨hfaultless, by simpa [hforms] using hspells, by simpa using hrespects⟩

/-- Tokens that spell statements are parsed to them without a report. -/
theorem parseTokens_complete {es : Statements} {ls : List Lexeme} {ts : List Form}
    (hspells : SpellsScript ts es) (hrespects : ∀ e ∈ es, e.Respects) (hls : formsIn ls = ts)
    (source : Content) (file : FileId) (stop fuel : Nat)
    (hsilent : ∀ l ∈ ls, l.notices = []
      ∧ (l.token.kind = .template → l.token.text <+: source.toList.drop l.token.span.start))
    (hfuel : 8 * weight ls + 13 ≤ fuel) (maxErrors : Nat) :
    (parseTokens source file maxErrors fuel (ls ++ [lexemeEnd file stop])).diagnostics = []
      ∧ (parseTokens source file maxErrors fuel (ls ++ [lexemeEnd file stop])).script.map Expr.erase
        = es.map Expr.erase := by
  let start : ParserState := {
    source, file, maxErrors, rest := ls ++ [lexemeEnd file stop], last := ⟨file, 0, 0⟩ }
  have hstart : Silent start := by
    intro l hl
    rcases List.mem_append.mp hl with hl | hl
    · exact hsilent l hl
    · obtain rfl : l = lexemeEnd file stop := by simpa using hl
      exact ⟨rfl, nofun⟩
  have hw : 8 * weight start.rest + 5 ≤ fuel := by
    simp only [start, weight_append, weight_cons, lexemeEnd, weight_nil, List.length_nil]
    omega
  obtain ⟨es', s', hrun, herase, hlog⟩ := Parse.statements_complete hspells hrespects #[] fuel
    hstart rfl hls rfl hw
  have hparse : parseTokens source file maxErrors fuel (ls ++ [lexemeEnd file stop])
      = ⟨es', s'.log.toList⟩ := by
    change (let (script, final) := Parse.statements fuel #[] start
      (⟨script, final.log.toList⟩ : Parsed)) = _
    rw [hrun]
    simp
  rw [hparse]
  exact ⟨by simp [hlog, start], herase⟩

/-- A text that spells statements is parsed to them without a report. -/
theorem parse_complete {text : Bytes} {es : Statements} (file : FileId) (maxErrors : Nat)
    (hfaultless : Faultless text) (hspells : SpellsScript (formsOf text) es)
    (hrespects : ∀ e ∈ es, e.Respects) :
    (parse text file maxErrors).diagnostics = []
      ∧ (parse text file maxErrors).script.map Expr.erase = es.map Expr.erase := by
  obtain ⟨ls, stop, hls, hforms, _⟩ := lexemes_eq file 0 text
  have hplace : text <+: text.toArray.toList.drop 0 := by simp
  have hw := weight_lexemes file 0 text
  rw [hls, weight_append] at hw
  rw [parse_eq_parseTokens, hls]
  refine parseTokens_complete hspells hrespects hforms _ _ _ _ (fun l hl => ?_) ?_ _
  · have hl' : l ∈ lexemes file 0 text := by simp [hls, hl]
    exact ⟨(faultless_iff file 0 text).mpr hfaultless l hl',
      (genuine_lexemes file hplace l hl').template⟩
  · simp only [parseFuel, lexemeEnd, weight_cons, weight_nil, List.length_nil] at hw ⊢
    omega

theorem map_blank_of_ne {ts : List Form} (h : ∀ f ∈ ts, f.kind ≠ .template) :
    ts.map Form.blank = ts := by
  rw [List.map_congr_left fun f hf => Form.blank_of_ne (h f hf), List.map_id']

theorem mem_withoutSeparators {ts : List Form} {f : Form} (h : f ∈ withoutSeparators ts) :
    f ∈ ts := by
  induction ts with
  | nil => exact h
  | cons g ts ih =>
    rw [withoutSeparators] at h
    split at h
    · exact List.mem_cons_of_mem g (ih h)
    · rcases List.mem_cons.mp h with rfl | h
      · exact List.mem_cons_self
      · exact List.mem_cons_of_mem g (ih h)

/-- The parser over tokens, without templates.  What it returns without a report respects the
precedence table, and its trees read from left to right give back the tokens but for separators.
The tokens of trees that respect the table, joined by semicolons, are parsed without a report to
these trees. -/
theorem precedence_climber :
    (∀ (text : Bytes) (file : FileId), (∀ f ∈ formsOf text, f.kind ≠ .template) →
      (parse text file 0).diagnostics = [] →
      (∀ e ∈ (parse text file 0).script, e.Respects)
        ∧ withoutSeparators (formsOf text) = (parse text file 0).script.flatMap Expr.forms)
    ∧ ∀ (es : Statements) (ls : List Lexeme) (source : Content) (file : FileId)
        (stop fuel : Nat), (∀ e ∈ es, e.Respects ∧ e.templates = []) →
      formsIn ls = scriptForms es → (∀ l ∈ ls, l.notices = []) → parseFuel (weight ls) ≤ fuel →
      (parseTokens source file 0 fuel (ls ++ [lexemeEnd file stop])).diagnostics = []
        ∧ (parseTokens source file 0 fuel (ls ++ [lexemeEnd file stop])).script.map Expr.erase
          = es.map Expr.erase := by
  constructor
  · intro text file hplain hquiet
    obtain ⟨_, hspells, hrespects⟩ := parse_sound hquiet
    refine ⟨hrespects, ?_⟩
    -- without templates nothing is blanked, so the outline is the list of forms itself
    have houtline := outline_spellsScript hspells hrespects
    rw [outline, map_blank_of_ne fun f hf => hplain f (mem_withoutSeparators hf)] at houtline
    rw [houtline, map_blank_of_ne]
    intro f hf
    have hblank : f.blank ∈ withoutSeparators (formsOf text) := by
      rw [houtline]
      exact List.mem_map_of_mem hf
    have := hplain _ (mem_withoutSeparators hblank)
    rwa [Form.blank_kind] at this
  · intro es ls source file stop fuel hes hls hsilent hfuel
    have hspells : ∀ e ∈ es, Spells e.forms e := fun e he =>
      e.spells_forms (hes e he).1 (by simp [(hes e he).2])
    refine parseTokens_complete (spellsScript_scriptForms hspells) (fun e he => (hes e he).1) hls _
      _ _ _ (fun l hl => ⟨hsilent l hl, fun hk => ?_⟩) (by unfold parseFuel at hfuel; omega) 0
    -- a token that is a template would be a form of one of the statements
    have hform : l.token.form ∈ scriptForms es := hls ▸ List.mem_map_of_mem hl
    exact absurd hk (scriptForms_ne_template (fun e he =>
      e.forms_ne_template (hes e he).1 (hes e he).2) _ hform)

/-- A token that stands nowhere. -/
def Form.lexeme (f : Form) : Lexeme := ⟨⟨f.kind, Expr.nowhere, f.text⟩, []⟩

/-- The climber at a call with a comma after its last argument and a conditional, and at the tokens
of an assignment of a difference. -/
theorem precedence_climber_call_and_assignment :
    withoutSeparators (formsOf ("f(x,);-a ? b : c" : String))
        = (parse ("f(x,);-a ? b : c" : String) 0 0).script.flatMap Expr.forms
      ∧ (let e : Expr := .binary Expr.nowhere (.symbol .assign) (.identifier Expr.nowhere "x")
          (.binary Expr.nowhere (.symbol .minus)
            (.binary Expr.nowhere (.symbol .minus) (.identifier Expr.nowhere "a")
              (.identifier Expr.nowhere "b"))
            (.unary Expr.nowhere (.symbol .minus) (.identifier Expr.nowhere "c")))
        (parseTokens #[] 0 0 1000 ((scriptForms [e, e]).map Form.lexeme ++ [lexemeEnd 0 0])).script.map
          Expr.erase = [e.erase, e.erase]) := by
  refine ⟨(precedence_climber.1 _ 0 (by decide +kernel) (by decide +kernel)).2, ?_⟩
  intro e
  have hassign : (TokenKind.symbol .assign).binding? = some ⟨2, true⟩ := rfl
  have hminus : (TokenKind.symbol .minus).binding? = some ⟨11, false⟩ := rfl
  have he : e.Respects ∧ e.templates = [] :=
    ⟨⟨⟨_, hassign, by decide⟩, trivial, ⟨_, hminus, by decide⟩,
      ⟨⟨_, hminus, by decide⟩, trivial, trivial⟩, rfl, by decide, trivial⟩, rfl⟩
  refine (precedence_climber.2 [e, e] ((scriptForms [e, e]).map Form.lexeme) #[] 0 0 1000
    (by simp [he]) (by decide +kernel) ?_ (by decide +kernel)).2
  intro l hl
  obtain ⟨f, _, rfl⟩ := List.mem_map.mp hl
  rfl

end Storyline.Script
