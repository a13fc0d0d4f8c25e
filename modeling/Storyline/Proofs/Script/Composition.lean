import Mathlib
import Storyline.Proofs.Script.Balance
import Storyline.Proofs.Script.Relocation

/-!
# Scripts in substitutions

A script may stand in a substitution of a template, and that template in a substitution of another
one.  The tree in the substitution is then the tree of the script, moved to where the script stands
now (`Around`).

Two things are in the way.  A substitution holds a single expression, so a semicolon, which is
allowed behind a statement, is an error in a substitution (`substitution_composes_fails`).  And
neither the lexer, which looks for the end of the template, nor the parser, which looks for the end
of the substitution, reads what is in between.  Each follows braces and quotes in its own way, and
the script has to be one that both of them pass over (`Followed`).
-/

namespace Storyline.Script

/-! ## Two ways through a substitution -/

namespace Tracker

/-- How the lexer follows a substitution, in search of the end of the template around it. -/
def ofLexer : Tracker := ⟨false, true⟩

/-- How the parser follows a substitution, in search of the brace that closes it. -/
def ofParser : Tracker := ⟨true, true⟩

end Tracker

namespace Reader

theorem code_slash : ('\\' : UInt8) = 0x5C := rfl

theorem code_double : ('"' : UInt8) = 0x22 := rfl

theorem code_single : ('\'' : UInt8) = 0x27 := rfl

theorem substitution_step (c : Reading) (b a : UInt8) :
    substitution.step c b a = Tracker.ofParser.step c b := by
  rcases c with ⟨d, _ | _ | q | q⟩
  · simp only [step, meaning, Tracker.step, Tracker.opens, Tracker.ofParser]
    grind [code_slash, code_double, code_single]
  · rfl
  · rfl
  · rfl

theorem substitution_run (c : Reading) (u : Bytes) (a : UInt8) :
    substitution.run c u a = Tracker.ofParser.run c u := by
  induction u generalizing c with
  | nil => rfl
  | cons b u ih =>
    rw [run, Tracker.run_cons, substitution_step]
    congr 1
    funext c'
    exact ih c'

/-- Inside a substitution, a byte means the same to the lexer as to its tracker, except for a dollar
sign with a brace behind it. -/
theorem template_step {d d' : Nat} {m m' : TemplateState} {b a : UInt8}
    (h : Tracker.ofLexer.step (d, m) b = some (d', m'))
    (ha : ¬ (m = .plain ∧ b = '$' ∧ a = 0x7B)) :
    template.step (d + 1, m) b a = some (d' + 1, m') := by
  cases m with
  | skipping | quotedSkipping q =>
    cases h
    rfl
  | quoted q =>
    simp only [step, Tracker.step] at h ⊢
    grind
  | plain =>
    simp only [step, meaning, Tracker.step, Tracker.opens, Tracker.ofLexer] at h ⊢
    grind [code_slash, code_double, code_single]

/-- Inside a substitution, the lexer goes the way of its tracker.  The two part for one byte after a
dollar sign with a brace behind it: the lexer has opened the brace already. -/
theorem template_run {d d' : Nat} {m m' : TemplateState} {u : Bytes} {a : UInt8} (ha : a ≠ 0x7B)
    (h : Tracker.ofLexer.run (d, m) u = some (d', m')) :
    template.run (d + 1, m) u a = some (d' + 1, m') := by
  -- the byte and the brace behind it are passed together, so the induction is on the length
  induction hn : u.length using Nat.strong_induction_on generalizing u d m with
  | _ n ih =>
    subst hn
    cases u with
    | nil =>
      cases h
      rfl
    | cons b u =>
      rw [Tracker.run_cons] at h
      obtain ⟨⟨d₁, m₁⟩, hstep, hrun⟩ := Option.bind_eq_some_iff.mp h
      by_cases hopening : m = .plain ∧ b = '$' ∧ front (u ++ [a]) = 0x7B
      · obtain ⟨rfl, rfl, hfront⟩ := hopening
        cases u with
        | nil => exact absurd hfront ha
        | cons brace u =>
          obtain rfl : brace = 0x7B := hfront
          cases hstep
          have hdollar : template.step (d + 1, .plain) '$' 0x7B = some (d + 1 + 1, .skipping) := rfl
          rw [run, show front (0x7B :: u ++ [a]) = 0x7B from rfl, hdollar]
          exact ih (u.length + 1) (by simp) hrun rfl
      · rw [run, template_step hstep hopening]
        exact ih u.length (by simp) hrun rfl

end Reader

/-- Whether both the lexer and the parser pass over a text in a substitution. -/
structure Followed (e : Bytes) : Prop where
  lexer : Tracker.ofLexer.Balanced e
  parser : Tracker.ofParser.Balanced e

instance (e : Bytes) : Decidable (Followed e) :=
  decidable_of_iff (Tracker.ofLexer.Balanced e ∧ Tracker.ofParser.Balanced e)
    ⟨fun h => ⟨h.1, h.2⟩, fun h => ⟨h.lexer, h.parser⟩⟩

/-- Both pass over an accepted script if they pass over its templates. -/
theorem followed_of_accepted {e : Bytes} {file : FileId} (h : (parse e file 0).diagnostics = [])
    (htemplates : ∀ f ∈ formsOf e, f.kind = .template → Followed f.text) : Followed e :=
  ⟨balanced_of_accepted h fun f hf hk => (htemplates f hf hk).lexer,
    balanced_of_accepted h fun f hf hk => (htemplates f hf hk).parser⟩

/-! ## A template around a script -/

/-- A template that is nothing but one substitution. -/
def inTemplate (e : Bytes) : Bytes := fenced ('$' :: 0x7B :: (e ++ [0x7D]))

@[simp] theorem length_inTemplate (e : Bytes) : (inTemplate e).length = e.length + 5 := by
  simp [inTemplate, fenced]

/-- The whole of a template around a script. -/
def templateSpan (file : FileId) (e : Bytes) : Span := ⟨file, 0, e.length + 5⟩

/-- The token of a template around a script. -/
def templateToken (file : FileId) (e : Bytes) : Token :=
  ⟨.template, templateSpan file e, inTemplate e⟩

theorem before_inTemplate {e : Bytes} (h : Tracker.ofLexer.Balanced e) (k : Bytes) :
    (⟨.template, inTemplate e⟩ : Form).Before k := by
  refine template_before ?_ k
  have hinside : Reader.template.run (1, .plain) e 0x7D = some (1, .plain) :=
    Reader.template_run (by decide) h
  have hopening : Reader.template.run (0, .plain) [('$' : UInt8), 0x7B]
      (front (e ++ [0x7D] ++ [0x60])) = some (1, .plain) := rfl
  have hclosing : Reader.template.run (1, .plain) [0x7D] 0x60 = some (0, .plain) := rfl
  have hsplit : ('$' : UInt8) :: 0x7B :: (e ++ [0x7D])
      = [('$' : UInt8), 0x7B] ++ (e ++ [0x7D]) := rfl
  rw [hsplit, Reader.run_append, hopening, Option.bind_some, Reader.run_append]
  change (Reader.template.run (1, .plain) e 0x7D).bind _ = _
  rw [hinside]
  exact hclosing

/-- A template around a script is a single token. -/
theorem lexemes_inTemplate {e : Bytes} (h : Tracker.ofLexer.Balanced e) (file : FileId) :
    lexemes file 0 (inTemplate e)
      = [⟨templateToken file e, []⟩, lexemeEnd file (e.length + 5)] := by
  have hbefore := before_inTemplate h []
  have hscan := hbefore.scan
  rw [List.append_nil] at hscan
  rw [lexemes_token file 0 hbefore.ne_nil rfl, lexemeAt, hscan]
  simp only [List.take_length, List.drop_length, lexemes_nil, List.map_nil]
  simp only [Nat.zero_add, length_inTemplate, templateToken, templateSpan]

/-- The only substitution of a template around a script is the script. -/
theorem templateOf_inTemplate {e : Bytes} (h : Tracker.ofParser.Balanced e) :
    templateOf 0 (inTemplate e) = ⟨[⟨[], 3, 3 + e.length⟩], [], none⟩ := by
  have hrun : Reader.substitution.run (0, .plain) e (front [0x7D]) = some (0, .plain) := by
    rw [Reader.substitution_run]
    exact h
  have hclose := closingBrace?_run (c := (0, .plain)) trivial hrun 0
  rw [Nat.zero_add] at hclose
  rw [inTemplate, templateOf_fenced, List.length_cons]
  rw [templateShape_part _ #[] 1 hclose]
  rfl

theorem templatePieces_inTemplate {e : Bytes} (h : Tracker.ofParser.Balanced e) :
    templatePieces (inTemplate e) = [([], e)] := by
  rw [templatePieces, templateOf_inTemplate h]
  simp [inTemplate, fenced]

/-! ## A script that is an expression -/

/-- Where the parser starts. -/
def startOf (text : Bytes) (file : FileId) (maxErrors : Nat) : ParserState where
  source := text.toArray
  file := file
  maxErrors := maxErrors
  rest := lexemes file 0 text
  last := ⟨file, 0, 0⟩

theorem startOf_rest (text : Bytes) (file : FileId) (maxErrors : Nat) :
    (startOf text file maxErrors).rest = lexemes file 0 text := rfl

/-- A script is read as a substitution would be that reached from its start to its end. -/
theorem startOf_inside (text : Bytes) (file : FileId) (maxErrors : Nat) :
    (startOf text file maxErrors).inside 0 text.length = startOf text file maxErrors := by
  simp [ParserState.inside, startOf, lexemesIn, slice_eq]

namespace Parse

/-- Tokens that spell a single tree are read to a single statement. -/
theorem statements_lone {fuel : Nat} {s : ParserState} {ls rest : List Lexeme} {x : Expr}
    (h : Faces s ls rest x) (hend : nextKind rest = .endOfScript)
    (hfuel : 8 * weight s.rest + 4 ≤ fuel) :
    ∃ y s', binary fuel 0 s.look = (some y, s') ∧ s'.front.kind = .endOfScript
      ∧ (statements (fuel + 1) #[] s).1 = [y] := by
  have hlook := Reaches.look h.silent
  have hfaces : Faces s.look ls rest x :=
    ⟨hlook.silent, by rw [s.look_rest, h.rest], h.spells, h.respects⟩
  obtain ⟨y, s', hbinary, -, hreach⟩ := (complete x).binary fuel 0
    (Nat.lt_of_lt_of_le (by decide) (Expr.assignmentStrength_le h.respects)) (by decide) hfaces
    (by rw [hend]; rfl) (by rw [hend]; decide) (by rw [s.look_rest]; exact hfuel)
  have hend' : s'.front.kind = .endOfScript := by rw [hreach.front_kind, hend]
  refine ⟨y, s', hbinary, hend', ?_⟩
  obtain ⟨f, fs, hfs, hstart, -⟩ := x.first_of_spells h.spells h.respects
  obtain ⟨l, ls, rfl, hl, -⟩ := formsIn_eq_cons hfs
  have hfront : s.front.kind = f.kind := by rw [s.front_kind, h.rest]; exact hl
  have hnot : s.front.kind ≠ .endOfScript ∧ s.front.kind ≠ .symbol .semicolon := by
    rw [hfront]
    constructor <;> intro hk <;> rw [hk] at hstart <;> cases hstart
  rw [statements]
  simp only [bind_run, peek_run, hnot.1, hnot.2, if_false, hbinary, hend', decide_true,
    Bool.or_true, if_true]
  cases fuel with
  | zero => rfl
  | succ fuel =>
    rw [statements]
    simp [bind_run, peek_run, hend', pure_run]

end Parse

/-- A text without faults that spells a single tree is read to a single statement, which ends where
the text ends. -/
theorem run_of_spells {text : Bytes} {x : Expr} (hfaultless : Faultless text)
    (hspells : Spells (formsOf text) x) (hrespects : x.Respects) (file : FileId) (maxErrors : Nat) :
    ∃ y s', Parse.binary (16 * text.length + 15) 0 (startOf text file maxErrors).look = (some y, s')
      ∧ s'.front.kind = .endOfScript ∧ (parse text file maxErrors).script = [y] := by
  obtain ⟨ls, stop, hls, hforms, -⟩ := lexemes_eq file 0 text
  have hplace : text <+: text.toArray.toList.drop 0 := by simp
  have hsilent : Silent (startOf text file maxErrors) := fun l hl =>
    ⟨(faultless_iff file 0 text).mpr hfaultless l hl, (genuine_lexemes file hplace l hl).template⟩
  have hweight := weight_lexemes file 0 text
  exact Parse.statements_lone ⟨hsilent, hls, by rwa [hforms], hrespects⟩ rfl
    (by simp only [startOf]; omega)

/-- A script that is accepted as a single expression and nothing else. -/
structure Lone (file : FileId) (e : Bytes) (x : Expr) : Prop where
  accepted : (parse e file 0).diagnostics = []
  one : (parse e file 0).script = [x]
  alone : Form.symbol .semicolon ∉ formsOf e

namespace Lone

variable {file : FileId} {e : Bytes} {x : Expr}

theorem faultless (h : Lone file e x) : Faultless e := (parse_sound h.accepted).1

theorem respects (h : Lone file e x) : x.Respects :=
  (parse_sound h.accepted).2.2 x (by simp [h.one])

theorem spells (h : Lone file e x) : Spells (formsOf e) x := by
  have hscript := (parse_sound h.accepted).2.1
  have halone := h.alone
  rw [h.one] at hscript
  generalize formsOf e = ts at hscript halone ⊢
  cases hscript with
  | skip => simp at halone
  | @cons ts us _ _ hx hrest hsep =>
    rcases hsep with rfl | ⟨vs, rfl⟩
    · rwa [List.append_nil]
    · simp at halone

theorem run (h : Lone file e x) :
    ∃ s', Parse.binary (16 * e.length + 15) 0 (startOf e file 0).look = (some x, s') := by
  obtain ⟨y, s', hbinary, -, hscript⟩ := run_of_spells h.faultless h.spells h.respects file 0
  rw [h.one] at hscript
  obtain ⟨rfl, -⟩ := List.cons.inj hscript
  exact ⟨s', hbinary⟩

end Lone

/-! ## Reading the template -/

/-- A script inside the template around it. -/
def inset (file : FileId) (e : Bytes) : Inset where
  inner := e.toArray
  outer := (inTemplate e).toArray
  file := file
  offset := 3
  stands := ⟨[0x7D, 0x60], by simp [inTemplate, fenced]⟩

/-- In a substitution, the expression is read that was read on its own. -/
theorem Lone.binary_inside {file : FileId} {e : Bytes} {x : Expr} (h : Lone file e x) {fuel : Nat}
    (hfuel : 8 * e.length + 12 ≤ fuel) {s : ParserState}
    (hsource : s.source = (inTemplate e).toArray) (hfile : s.file = file) :
    (Parse.binary fuel 0 (s.inside 3 (3 + e.length))).1 = some (x.later 3) := by
  have htwins : (inset file e).Twins (e.length + 1) (startOf e file 0)
      (s.inside 3 (3 + e.length)) := by
    have hstop : e.length ≤ (inset file e).inner.size := by simp [inset]
    have hinside := Inset.Twins.inside (s := startOf e file 0) 0 rfl hsource rfl hfile hstop
    rwa [startOf_inside] at hinside
  have hlook := htwins.congr (startOf e file 0).follows_look (.refl _)
    (startOf e file 0).look_rest rfl (startOf e file 0).look_last rfl
  obtain ⟨s', hrun⟩ := h.run
  have hagrees := ((inset file e).agreesAt (16 * e.length + 15)).binary fuel (e.length + 1) 0
    (by omega) (by omega)
  obtain ⟨-, -, -, hfound⟩ := hagrees _ _ hlook trivial
  rw [hrun] at hfound
  generalize (Parse.binary fuel 0 (s.inside 3 (3 + e.length))).1 = r at hfound ⊢
  cases hfound with
  | some hmoved => rw [hmoved.eq]; rfl

/-- The template around a script is the template of its token, with one substitution. -/
theorem template_inTemplate {file : FileId} {e : Bytes} (h : Tracker.ofParser.Balanced e)
    (fuel : Nat) (s : ParserState) :
    Parse.template (fuel + 3) (templateToken file e) s
      = let r := Parse.substitution (fuel + 1) 3 (3 + e.length) s
        (.template (templateSpan file e) [([], r.1)] [], r.2) := by
  have hshape : templateOf (templateToken file e).span.start (templateToken file e).text
      = ⟨[⟨[], 3, 3 + e.length⟩], [], none⟩ := templateOf_inTemplate h
  rw [Parse.template]
  simp only [hshape, Parse.bind_run, Parse.pure_run, Parse.substitutions]
  rfl

/-- A template with the end of the script behind it is an expression of its own. -/
theorem binary_template {s : ParserState} (fuel floor : Nat) (hkind : s.front.kind = .template)
    (hend : (Parse.template fuel s.front s.pass).2.front.kind = .endOfScript) :
    (Parse.binary (fuel + 3) floor s).1 = some (Parse.template fuel s.front s.pass).1 := by
  have hprimary : Parse.primary (fuel + 1) s.look
      = (some (Parse.template fuel s.front s.pass).1, (Parse.template fuel s.front s.pass).2) := by
    rw [Parse.primary_look, Parse.primary_template fuel hkind]
  have hprefix : s.front.kind.isPrefixOperator = false := by rw [hkind]; rfl
  rw [Parse.binary]
  simp only [Parse.bind_run]
  rw [Parse.unary]
  simp only [Parse.bind_run, Parse.peek_run, hprefix, Bool.false_eq_true, if_false, hprimary]
  rw [Parse.chain_stops (by rw [hend]; rfl)]
  simp only [Parse.pure_run, Parse.bind_run]
  rw [Parse.climb_stops (by rw [ParserState.look_front, hend]; exact Nat.zero_le _)]

/-- What the parser faces at the start of a template around a script, and behind its token. -/
theorem startOf_inTemplate {e : Bytes} (h : Tracker.ofLexer.Balanced e) (file : FileId)
    (maxErrors : Nat) {s : ParserState}
    (hs : (startOf (inTemplate e) file maxErrors).look = s) :
    s.front = templateToken file e ∧ s.pass.rest = [lexemeEnd file (e.length + 5)]
      ∧ s.pass.source = (inTemplate e).toArray ∧ s.pass.file = file := by
  subst hs
  have hrest : (startOf (inTemplate e) file maxErrors).rest
      = [⟨templateToken file e, []⟩, lexemeEnd file (e.length + 5)] := by
    rw [startOf_rest, lexemes_inTemplate h]
  have hfront : (startOf (inTemplate e) file maxErrors).front = templateToken file e := by
    simp [ParserState.front, hrest]
  have hfollows := (startOf (inTemplate e) file maxErrors).follows_look.trans
    (startOf (inTemplate e) file maxErrors).look.follows_pass
  have hlook : (startOf (inTemplate e) file maxErrors).look.front = templateToken file e := by
    rw [ParserState.look_front, hfront]
  have hpass : (startOf (inTemplate e) file maxErrors).look.pass.rest
      = [lexemeEnd file (e.length + 5)] := by
    simp [ParserState.pass, hfront, hrest, templateToken]
  exact ⟨hlook, hpass, hfollows.source, hfollows.file⟩

theorem formsOf_inTemplate {e : Bytes} (h : Tracker.ofLexer.Balanced e) :
    formsOf (inTemplate e) = [⟨.template, inTemplate e⟩] := by
  have hforms := (before_inTemplate h []).formsOf
  rwa [List.append_nil, formsOf_nil] at hforms

theorem faultless_inTemplate {e : Bytes} (h : Tracker.ofLexer.Balanced e) :
    Faultless (inTemplate e) := by
  have hfaultless := (before_inTemplate h []).faultless.mpr faultless_nil
  rwa [List.append_nil] at hfaultless

namespace Lone

variable {file : FileId} {e : Bytes} {x : Expr}

theorem spells_inTemplate (h : Lone file e x) (hfollowed : Followed e) :
    Spells (formsOf (inTemplate e)) (.template Expr.nowhere [([], x)] []) := by
  have hshape := templateOf_inTemplate hfollowed.parser
  have hparts : SpellsParts (templatePieces (inTemplate e)) [([], x)] := by
    rw [templatePieces_inTemplate hfollowed.parser]
    exact ⟨e, [], rfl, h.faultless, h.spells, rfl⟩
  rw [formsOf_inTemplate hfollowed.lexer]
  exact ⟨inTemplate e, rfl, by rw [hshape], by rw [hshape], hparts⟩

/-- The tree is found by running the parser, since what a text spells says nothing about places. -/
theorem parse_inTemplate (h : Lone file e x) (hfollowed : Followed e) (maxErrors : Nat) :
    parse (inTemplate e) file maxErrors
      = ⟨[.template (templateSpan file e) [([], x.later 3)] []], []⟩ := by
  have hfaultless := faultless_inTemplate hfollowed.lexer
  have hspells := h.spells_inTemplate hfollowed
  have hrespects : (Expr.template Expr.nowhere [([], x)] []).Respects := ⟨h.respects, trivial⟩
  -- the whole text is one template: it is read, and what is read is compared with what had to be
  obtain ⟨y, s', hbinary, -, hscript⟩ := run_of_spells hfaultless hspells hrespects file maxErrors
  generalize hs : (startOf (inTemplate e) file maxErrors).look = s at hbinary
  obtain ⟨htoken, hrest, hsource, hfile⟩ := startOf_inTemplate hfollowed.lexer file maxErrors hs
  obtain ⟨more, hmore⟩ : ∃ more, 16 * (inTemplate e).length + 15 = more + 4 + 3 :=
    ⟨16 * (inTemplate e).length + 8, by omega⟩
  have hfuel : 8 * e.length + 12 ≤ more + 1 := by
    rw [length_inTemplate] at hmore
    omega
  have htemplate : Parse.template (more + 4) s.front s.pass
      = (.template (templateSpan file e) [([], x.later 3)] [],
        (Parse.substitution (more + 2) 3 (3 + e.length) s.pass).2) := by
    rw [htoken, template_inTemplate hfollowed.parser (more + 1)]
    simp only [Parse.substitution_run, h.binary_inside hfuel hsource hfile, Option.getD_some]
  -- behind the template stands only the end of the script
  have hend : (Parse.template (more + 4) s.front s.pass).2.front.kind = .endOfScript := by
    rw [htemplate, Parse.substitution_run]
    simp [ParserState.outside, ParserState.front, hrest, lexemeEnd]
  -- so the operator loop returns the template as it is
  have htree := binary_template (more + 4) 0 (by rw [htoken]; rfl) hend
  rw [← hmore, hbinary, htemplate] at htree
  obtain ⟨rfl⟩ := Option.some.inj htree
  have hquiet := (parse_complete file maxErrors hfaultless
    (by simpa using SpellsScript.cons hspells .nil (.inl rfl)) (by simpa using hrespects)).1
  rcases hparse : parse (inTemplate e) file maxErrors with ⟨script, diagnostics⟩
  rw [hparse] at hscript hquiet
  exact congrArg₂ Parsed.mk hscript hquiet

end Lone

/-! ## Templates in templates -/

namespace Tracker

/-- A template around a script closes every brace and every string if the script does. -/
theorem balanced_inTemplate {e : Bytes} (h : ofLexer.Balanced e) :
    ofLexer.Balanced (inTemplate e) := by
  have hopening : ofLexer.run (0, .plain) [0x60, ('$' : UInt8), 0x7B] = some (1, .plain) := rfl
  have hclosing : ofLexer.run (1, .plain) [0x7D, 0x60] = some (0, .plain) := rfl
  have hsplit : inTemplate e = [0x60, ('$' : UInt8), 0x7B] ++ (e ++ [0x7D, 0x60]) := by
    simp [inTemplate, fenced]
  rw [Balanced, hsplit, run_append, hopening, Option.bind_some, run_append, h.run]
  exact hclosing

/-- The parser skips the start and the end of a template around a script as strings if the script
is in no string, and the other way round. -/
theorem run_inTemplate {e : Bytes} {m m' : TemplateState}
    (hm : m = .plain ∧ m' = .quoted 0x60 ∨ m = .quoted 0x60 ∧ m' = .plain)
    (h : ofParser.run (0, m') e = some (0, m')) :
    ofParser.run (0, m) (inTemplate e) = some (0, m) := by
  have hsplit : inTemplate e = [0x60, ('$' : UInt8), 0x7B] ++ (e ++ [0x7D, 0x60]) := by
    simp [inTemplate, fenced]
  rw [hsplit, run_append]
  rcases hm with ⟨rfl, rfl⟩ | ⟨rfl, rfl⟩
  · have hopening : ofParser.run (0, .plain) [0x60, ('$' : UInt8), 0x7B]
        = some (0, .quoted 0x60) := rfl
    rw [hopening, Option.bind_some, run_append, h]
    rfl
  · have hopening : ofParser.run (0, .quoted 0x60) [0x60, ('$' : UInt8), 0x7B]
        = some (1, .plain) := rfl
    rw [hopening, Option.bind_some, run_append, Balanced.run h 1]
    rfl

end Tracker

/-- Whether the parser also passes over a text where it takes it for a part of a string. -/
def Quotable (e : Bytes) : Prop :=
  Tracker.ofParser.run (0, .quoted 0x60) e = some (0, .quoted 0x60)

instance (e : Bytes) : Decidable (Quotable e) :=
  inferInstanceAs (Decidable (Tracker.ofParser.run (0, .quoted 0x60) e = some (0, .quoted 0x60)))

theorem Followed.inTemplate {e : Bytes} (h : Followed e) (hquotable : Quotable e) :
    Followed (inTemplate e) ∧ Quotable (Script.inTemplate e) :=
  ⟨⟨Tracker.balanced_inTemplate h.lexer, Tracker.run_inTemplate (.inl ⟨rfl, rfl⟩) hquotable⟩,
    Tracker.run_inTemplate (.inr ⟨rfl, rfl⟩) h.parser⟩

namespace Tracker

/-- The state in a string that a backquote opened. -/
def inFence (escaped : Bool) : TemplateState :=
  if escaped then .quotedSkipping 0x60 else .quoted 0x60

theorem run_inFence {u : Bytes} (h : ∀ b ∈ u, b ≠ 0x60 ∧ b ≠ '\\') :
    ofParser.run (0, .quoted 0x60) u = some (0, .quoted 0x60) := by
  induction u with
  | nil => rfl
  | cons b u ih =>
    rw [List.forall_mem_cons] at h
    rw [run_cons]
    simp only [step, h.1, if_false, Option.bind_some]
    exact ih h.2

/-- The backslashes of a string hide the same bytes where the string is a part of another one. -/
theorem run_stringInFence {q : UInt8} (length : Nat) (escaped : Bool) {body : Bytes}
    (hq : q ≠ '\\') (hbody : (0x60 : UInt8) ∉ body)
    (h : stringLength q length escaped body = (length + body.length, true)) :
    ofParser.run (0, inFence escaped) body = some (0, .quoted 0x60) := by
  -- By induction on the body: within the fence the tracker follows the quotes of the string,
  -- escapes included.
  induction body generalizing length escaped with
  | nil => cases escaped <;> simp [stringLength] at h
  | cons b body ih =>
    rw [List.mem_cons, not_or] at hbody
    have hb : b ≠ 0x60 := Ne.symm hbody.1
    have hlength : length + (b :: body).length = length + 1 + body.length := by
      rw [List.length_cons]
      omega
    rw [hlength] at h
    rw [run_cons]
    cases escaped with
    | true => exact ih (length + 1) false hbody.2 h
    | false =>
      simp only [stringLength] at h
      -- the closing quote is the last byte of the body
      by_cases hclose : b = q
      · rw [if_pos hclose] at h
        have hnil : body.length = 0 := by
          have := congrArg Prod.fst h
          simp only at this
          omega
        have hslash : b ≠ '\\' := hclose ▸ hq
        rw [List.length_eq_zero_iff.mp hnil]
        simp [inFence, step, hb, hslash]
      · rw [if_neg hclose] at h
        have hrec := ih (length + 1) (decide (b = ('\\' : UInt8))) hbody.2 h
        by_cases hslash : b = '\\'
        · simpa [inFence, step, hslash] using hrec
        · simpa [inFence, step, hslash, hb] using hrec

end Tracker

/-- A token without backquotes is passed over in a string. -/
theorem Form.Before.quotable {f : Form} {k : Bytes} (h : f.Before k)
    (hfence : (0x60 : UInt8) ∉ f.text) : Quotable f.text := by
  have hscan := h.scan
  obtain ⟨hinvalid, hsymbol, -, -⟩ := scan_genuine 0 (f.text ++ k)
  have hne : ∀ b ∈ f.text, b ≠ 0x60 := fun b hb => by
    rintro rfl
    exact hfence hb
  have hword : (∀ b ∈ f.text, Tracker.isInert b = true) → Quotable f.text := fun hinert =>
    Tracker.run_inFence fun b hb => ⟨hne b hb, by
      have := hinert b hb
      simp only [Tracker.isInert, Bool.and_eq_true, bne_iff_ne] at this
      exact this.2⟩
  -- By the kind of the form; only texts in quotes hold backslashes, and these are balanced inside.
  cases hkind : f.kind with
  | invalid => exact absurd (by rw [hscan]) (hinvalid (by rw [hscan, hkind]))
  | endOfScript => exact absurd (by rw [hscan, hkind]) (scan_kind_ne_end 0 (f.text ++ k))
  | template =>
    obtain ⟨body, htext, -⟩ := h.templateText hkind
    exact absurd (by simp [htext, fenced]) hfence
  | identifier =>
    exact hword fun b hb => Tracker.isInert_of_isWordByte (h.wordBytes (.inl hkind) b hb)
  | keyword w =>
    exact hword fun b hb => Tracker.isInert_of_isWordByte (h.wordBytes (.inr ⟨w, hkind⟩) b hb)
  | number =>
    exact hword fun b hb => Tracker.isInert_of_isNumberByte ((h.numberText hkind).mem hb)
  | string =>
    obtain ⟨quote, body, htext, hquote, -, hlength⟩ := h.stringText hkind
    rw [htext, List.mem_cons, not_or] at hfence
    have hslash : quote ≠ '\\' := by
      rcases hquote with rfl | rfl <;> decide
    have hbody := Tracker.run_stringInFence 1 false hslash hfence.2 (by simpa using hlength [])
    rw [htext, Quotable, Tracker.run_cons]
    simpa [Tracker.step, Tracker.inFence, hslash, Ne.symm hfence.1] using hbody
  | symbol op =>
    have htext := hsymbol op (by rw [hscan, hkind])
    rw [hscan, List.take_left] at htext
    have hslash : (op.text : Bytes).all (· != '\\') = true := by
      cases op <;> decide
    refine Tracker.run_inFence fun b hb => ⟨hne b hb, ?_⟩
    rw [htext] at hb
    exact bne_iff_ne.mp (List.all_eq_true.mp hslash b hb)

/-- A text without faults and backquotes is passed over in a string. -/
theorem quotable_of_faultless {e : Bytes} (h : Faultless e) (hfence : (0x60 : UInt8) ∉ e) :
    Quotable e := by
  induction e using lexemes_induction with
  | nil => rfl
  | space b s hb ih =>
    rw [List.mem_cons, not_or] at hfence
    have hslash : b ≠ '\\' := by
      rintro rfl
      exact absurd hb (by decide)
    rw [Quotable, Tracker.run_cons]
    simp only [Tracker.step, hslash, Ne.symm hfence.1, if_false, Option.bind_some]
    exact ih ((faultless_space hb s).mp h) hfence.2
  | token s hne hb ih =>
    obtain ⟨f, k, rfl, hbefore, -, hk⟩ := before_of_faultless hne hb h
    rw [hbefore.scan, List.drop_left] at ih
    rw [List.mem_append, not_or] at hfence
    rw [Quotable, Tracker.run_append, hbefore.quotable hfence.1]
    exact ih hk hfence.2

/-- What a template around a script is read to: a single token, and a template with the script's
tree in its only substitution. -/
structure Around (file : FileId) (e : Bytes) (x : Expr) : Prop where
  token : lexemes file 0 (inTemplate e)
    = [⟨templateToken file e, []⟩, lexemeEnd file (e.length + 5)]
  tree : ∀ maxErrors, parse (inTemplate e) file maxErrors
    = ⟨[.template (templateSpan file e) [([], x.later 3)] []], []⟩

/-- Whether a script may stand in templates in templates, however many. -/
def Nests (file : FileId) (e : Bytes) : Prop :=
  ∀ n, ∃ y, (parse (inTemplate^[n] e) file 0).script = [y] ∧ Around file (inTemplate^[n] e) y

namespace Lone

variable {file : FileId} {e : Bytes} {x : Expr}

theorem around (h : Lone file e x) (hfollowed : Followed e) : Around file e x :=
  ⟨lexemes_inTemplate hfollowed.lexer file, h.parse_inTemplate hfollowed⟩

theorem inTemplate (h : Lone file e x) (hfollowed : Followed e) :
    Lone file (inTemplate e) (.template (templateSpan file e) [([], x.later 3)] []) := by
  have hparse := h.parse_inTemplate hfollowed 0
  refine ⟨by rw [hparse], by rw [hparse], ?_⟩
  simp [formsOf_inTemplate hfollowed.lexer, Form.symbol, Form.of]

theorem nests (h : Lone file e x) (hfollowed : Followed e) (hquotable : Quotable e) :
    Nests file e := by
  intro n
  suffices hlone : ∃ y, Lone file (Script.inTemplate^[n] e) y ∧ Followed (Script.inTemplate^[n] e)
      ∧ Quotable (Script.inTemplate^[n] e) by
    obtain ⟨y, hy, hy', -⟩ := hlone
    exact ⟨y, hy.one, hy.around hy'⟩
  induction n with
  | zero => exact ⟨x, h, hfollowed, hquotable⟩
  | succ n ih =>
    obtain ⟨y, hy, hy', hquotable'⟩ := ih
    rw [Function.iterate_succ_apply']
    exact ⟨_, hy.inTemplate hy', hy'.inTemplate hquotable'⟩

end Lone

/-- A script that is accepted as a single expression, with no semicolon behind it, may stand in a
template if the lexer and the parser pass over its own templates, and its tree is then the tree in
the template.  If the parser passes over it in a string too, as it does over every script without
backquotes, then it may stand in templates in templates, however many. -/
theorem substitution_composes {e : Bytes} {x : Expr} {file : FileId}
    (accepted : (parse e file 0).diagnostics = []) (one : (parse e file 0).script = [x])
    (alone : Form.symbol .semicolon ∉ formsOf e)
    (templates : ∀ f ∈ formsOf e, f.kind = .template → Followed f.text) :
    Around file e x ∧ (Quotable e → Nests file e) ∧ ((0x60 : UInt8) ∉ e → Nests file e) := by
  have hlone : Lone file e x := ⟨accepted, one, alone⟩
  have hfollowed : Followed e := followed_of_accepted accepted templates
  exact ⟨hlone.around hfollowed, hlone.nests hfollowed, fun hfence =>
    hlone.nests hfollowed (quotable_of_faultless hlone.faultless hfence)⟩

/-- A sum with a template in it may stand in templates in templates. -/
theorem substitution_composes_sum :
    let e : Bytes := ("b+`c$\x7bd\x7d`" : String)
    let x : Expr := .binary ⟨0, 0, 9⟩ (.symbol .plus) (.identifier ⟨0, 0, 1⟩ ("b" : String))
      (.template ⟨0, 2, 9⟩ [(("c" : String), .identifier ⟨0, 6, 7⟩ ("d" : String))] [])
    ((parse e 0 0).diagnostics = [] ∧ (parse e 0 0).script = [x]
      ∧ Form.symbol .semicolon ∉ formsOf e
      ∧ (∀ f ∈ formsOf e, f.kind = .template → Followed f.text) ∧ Quotable e)
    ∧ Around 0 e x ∧ Nests 0 e := by
  intro e x
  have accepted : (parse e 0 0).diagnostics = [] := by decide +kernel
  have one : (parse e 0 0).script = [x] := by cbv
  have alone : Form.symbol .semicolon ∉ formsOf e := by decide +kernel
  have templates : ∀ f ∈ formsOf e, f.kind = .template → Followed f.text := by decide +kernel
  have quotable : Quotable e := by decide +kernel
  obtain ⟨around, nests, -⟩ := substitution_composes accepted one alone templates
  exact ⟨⟨accepted, one, alone, templates, quotable⟩, around, nests quotable⟩

/-- A semicolon behind an expression is an error in a substitution, and so is a template with an
apostrophe in it, which the lexer takes for the start of a string. -/
theorem substitution_composes_fails :
    ((parse ("x;" : String) 0 0).diagnostics = []
      ∧ (parse ("x;" : String) 0 0).script = [.identifier ⟨0, 0, 1⟩ ("x" : String)]
      ∧ (parse (inTemplate ("x;" : String)) 0 0).diagnostics
        = [.error .unexpectedToken ⟨0, 4, 5⟩ "unexpected ';' in template substitution"])
    ∧ (parse ("`'`" : String) 0 0).diagnostics = []
      ∧ (parse ("`'`" : String) 0 0).script = [.template ⟨0, 0, 3⟩ [] ("'" : String)]
      ∧ (parse (inTemplate ("`'`" : String)) 0 0).diagnostics
        = [.error .unterminatedString ⟨0, 0, 8⟩ "unterminated template literal"] := by
  refine ⟨⟨?_, ?_, ?_⟩, ?_, ?_, ?_⟩
  · decide +kernel
  · with_unfolding_all rfl
  · decide +kernel
  · decide +kernel
  · with_unfolding_all rfl
  · decide +kernel

end Storyline.Script
