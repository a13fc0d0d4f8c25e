import Storyline.Proofs.Markup.OneLine
import Storyline.Proofs.Script.Balance

/-!
# Scripts between braces

A story takes the end of a script from `closeDistance`, which counts braces and skips what stands
between quotes, backquotes among them, without knowing that a template may hold further strings and
templates in its substitutions.  As a `Script.Tracker` it opens strings at backquotes, and a
backslash outside of strings hides nothing.

`script_between_braces` says for which scripts this is right: for those that are balanced to that
tracker, and of the scripts that the parser accepts at least for those whose templates are.  A
template that holds a quote or a brace inside another template or string may not be
(`script_between_braces_fails`).
-/

namespace Storyline.Markup

open Script (Tracker)

/-! ## The closing brace -/

/-- How a story follows the braces and quotes of a script. -/
def scriptTracker : Tracker := ⟨true, false⟩

/-- The state of a tracker inside a string, if there is one. -/
def trackerState : Option UInt8 → Script.TemplateState
  | none => .plain
  | some q => .quoted q

theorem closeDistance_go_eq (depth : Nat) (quote : Option UInt8) (i : Nat) (text : Bytes) :
    closeDistance.go 0x7B 0x7D depth quote i text
      = scriptTracker.find (depth, trackerState quote) i text := by
  have hopens : ∀ b, scriptTracker.opens b = isQuote b := fun b => rfl
  have hhides : scriptTracker.hides = false := rfl
  -- along the search itself, inside a quoted string first and then outside
  fun_induction closeDistance.go 0x7B 0x7D depth quote i text with
  | case1 => rfl
  | case2 => rfl
  | case3 depth i q e rest ih =>
    rw [ih]
    rfl
  | case4 depth i b rest q hb ih =>
    -- the quote which opened the string closes it, any other byte is passed
    rw [ih]
    by_cases hq : b = q
    · subst hq
      simp [Tracker.find, trackerState, Tracker.step, hb]
    · simp [Tracker.find, trackerState, Tracker.step, hb, hq]
  | case5 depth i b rest hb ih =>
    rw [ih]
    simp [Tracker.find, trackerState, Tracker.step, hopens, hb]
  | case6 depth i rest hb ih =>
    rw [ih]
    simp [Tracker.find, trackerState, Tracker.step, hopens, hb]
  | case7 i rest hb hopening =>
    simp [Tracker.find, trackerState, Tracker.step, hopens, hb]
  | case8 depth i rest hdepth hb hopening ih =>
    rw [ih]
    simp [Tracker.find, trackerState, Tracker.step, hopens, hb, hdepth]
  | case9 depth i b rest hb hopening hclosing ih =>
    rw [ih]
    simp [Tracker.find, trackerState, Tracker.step, hopens, hb, hopening, hclosing, hhides]

/-- The brace behind a script is found if and only if the script is balanced. -/
theorem closeDistance_eq_length_iff (s : Bytes) :
    closeDistance 0x7B 0x7D (s ++ [0x7D]) = some s.length ↔ scriptTracker.Balanced s := by
  have hfind := Tracker.find_closing (t := scriptTracker) (0, .plain) 0 s []
  rw [Nat.zero_add] at hfind
  rw [closeDistance, closeDistance_go_eq]
  exact hfind

/-! ## What a draft starts with -/

/-- Whether a draft was extended at its end: its parts are the first ones, and what follows them
starts with its literal run. -/
def Draft.GrowsTo (d d' : Draft) : Prop :=
  ∃ more, d'.parts.toList = d.parts.toList ++ more
    ∧ d.run.toList <+: (more.head?.map Prod.fst).getD d'.run.toList

namespace Draft.GrowsTo

variable {d d' d'' : Draft}

theorem refl (d : Draft) : d.GrowsTo d := ⟨[], by simp, List.prefix_rfl⟩

theorem trans (h : d.GrowsTo d') (h' : d'.GrowsTo d'') : d.GrowsTo d'' := by
  obtain ⟨more, hparts, hrun⟩ := h
  obtain ⟨more', hparts', hrun'⟩ := h'
  refine ⟨more ++ more', by rw [hparts', hparts, List.append_assoc], ?_⟩
  cases more with
  | nil => exact hrun.trans hrun'
  | cons p more => exact hrun

theorem write (d : Draft) (b : UInt8) : d.GrowsTo (d.write b) :=
  ⟨[], by simp [Draft.write], by simp [Draft.write]⟩

theorem append (d : Draft) (bs : Bytes) : d.GrowsTo (d.append bs) :=
  ⟨[], by simp [Draft.append], by simp [Draft.append]⟩

theorem insert (d : Draft) (e : Inline) : d.GrowsTo (d.insert e) :=
  ⟨[(d.run.toList, e)], by simp [Draft.insert], by simp⟩

end Draft.GrowsTo

namespace Parse

variable {f : File} {s : ParserState} {inner : Style → Parse TextResult} {stop : Nat}

theorem Ends.any {α : Type} (m : Parse α) : Ends m s fun _ _ => True := trivial

/-- An element that is not closed adds its delimiter. -/
theorem ends_literalOpening_grows (draft : Draft) (code : Code) (delimiter : Bytes) :
    Ends (literalOpening draft code delimiter) s fun d _ => draft.GrowsTo d := by
  simp only [literalOpening, ends_bind, ends_offset, ends_unclosed, ends_mapCursor, ends_pure]
  exact .append draft delimiter

/-- What stands at the cursor is an element, or its delimiter is literal. -/
theorem ends_element_grows (m : Parse (Option Inline)) (draft : Draft) (code : Code)
    (delimiter : Bytes) :
    Ends (do
      match ← m with
      | some e => return (draft.insert e, Outcome.parsed)
      | none => return (← literalOpening draft code delimiter, .recovered)) s
      fun r _ => draft.GrowsTo r.1 := by
  rw [ends_bind]
  refine (Ends.any m).imp fun e s' _ => ?_
  cases e with
  | some e => exact .insert draft e
  | none => exact ends_literalOpening_grows (s := s') draft code delimiter

theorem ends_textStep_grows (draft : Draft) :
    Ends (textStep inner stop draft) s fun r _ => draft.GrowsTo r.1 := by
  simp only [textStep, ends_bind, ends_cursor]
  cases Opening.ofCursor s.lexer.cursor stop with
  -- by what stands at the cursor: a written piece, an element, or a diverted one
  | literal => exact .write draft _
  | escape =>
    simp only
    split
    · exact .write draft _
    · exact .write draft _
  | styled style =>
    simp only [ends_bind]
    refine (Ends.any (styledSpan inner stop style)).imp fun e s' _ => ?_
    cases e with
    | some e => exact .insert draft e.1
    | none => exact ends_literalOpening_grows (s := s') draft .unclosedDelimiter style.delimiter
  | code => exact ends_element_grows (codeSpan stop) draft _ _
  | script => exact ends_element_grows (scriptSpan stop) draft _ _
  | join => exact .insert draft _
  | divert =>
    simp only [ends_bind]
    refine (Ends.any (inlineDivert stop)).imp fun o s' _ => ?_
    split
    · exact .refl draft
    · exact .refl draft

/-- Reading on only extends what was read. -/
theorem ends_textFrom_grows (fuel : Nat) (closer : Option Style) (start : Nat) (draft : Draft)
    (out : Outcome) :
    Ends (textFrom fuel stop closer start draft out) s fun r _ =>
      ∃ d, draft.GrowsTo d ∧ r.text.parts = d.parts.toList := by
  induction fuel generalizing s draft out with
  | zero => exact ⟨draft, .refl draft, rfl⟩
  | succ fuel ih =>
    simp only [textFrom, ends_bind, ends_cursor]
    split
    · exact ⟨draft, .refl draft, rfl⟩
    · split
      · exact ⟨draft, .refl draft, rfl⟩
      · rw [ends_bind]
        refine (ends_textStep_grows draft).imp fun r s' hr => ?_
        refine (ih r.1 _).imp fun r' s'' hr' => ?_
        obtain ⟨d, hd, hparts⟩ := hr'
        exact ⟨d, hr.trans hd, hparts⟩

/-! ## A line that starts with a brace -/

/-- A text is read on behind a script at its start, or behind a literal brace. -/
theorem ends_textFrom_brace {fuel start : Nat} {post : TextResult → ParserState → Prop}
    (hlt : s.lexer.cursor.offset < stop) (hb : s.lexer.cursor.peek = 0x7B)
    (hfound : ∀ close, s.lexer.cursor.next.closeOffset? 0x7B 0x7D stop = some close →
      Ends (textFrom fuel stop none start
        (Draft.insert {} (.script (s.lexer.cursor.slice s.lexer.cursor.next.offset close)
          (s.lexer.cursor.spanAt s.lexer.cursor.next.offset close)
          (s.lexer.cursor.spanAt s.lexer.cursor.offset (close + 1)))) .parsed)
        { s with lexer := s.lexer.moveTo (close + 1) } post)
    (hnone : s.lexer.cursor.next.closeOffset? 0x7B 0x7D stop = none → ∀ s',
      Ends (textFrom fuel stop none start (Draft.append {} [0x7B]) .recovered) s' post) :
    Ends (textFrom (fuel + 1) stop none start {} .parsed) s post := by
  have hend : s.lexer.cursor.atEnd = false := by
    cases hend : s.lexer.cursor.atEnd with
    | false => rfl
    | true => simp [Cursor.peek, hend] at hb
  -- an opening brace is none of the longer openings, which would be tried before it
  have hopening : Opening.ofCursor s.lexer.cursor stop = .script := by
    have hbyte : s.lexer.cursor.byteAt s.lexer.cursor.offset = 0x7B := by
      simpa [Cursor.peek, hend] using hb
    have hprefix : ∀ (b : UInt8) (p : Bytes), b ≠ 0x7B →
        s.lexer.cursor.hasPrefix (b :: p) = false := by
      intro b p hne
      simp [Cursor.hasPrefix, Cursor.matchesAt, hbyte, hne.symm]
    have hbold : s.lexer.cursor.hasPrefix "**" = false := hprefix _ [42] (by decide)
    have hunder : s.lexer.cursor.hasPrefix "__" = false := hprefix _ [95] (by decide)
    have hslash : (0x7B : UInt8) ≠ '\\' := by decide
    have hstar : (0x7B : UInt8) ≠ '*' := by decide
    simp [Opening.ofCursor, hb, hbold, hunder, hslash, hstar]
  simp only [textFrom, ends_bind, ends_cursor, if_neg (Nat.not_le_of_lt hlt), Option.filter_none,
    textStep, hopening, scriptSpan]
  cases hclose : s.lexer.cursor.next.closeOffset? 0x7B 0x7D stop with
  | some close => exact hfound close hclose
  | none => exact hnone hclose _

end Parse

/-! ## Stories that are a script -/

/-- A file that is a script between braces. -/
structure Braced (f : File) (script : Bytes) : Prop where
  small : f.size < Word.modulus
  bytes : f.bytes = 0x7B :: (script ++ [0x7D])
  feeds : ('\n' : UInt8) ∉ script

namespace Braced

variable {f : File} {script : Bytes} {s : ParserState}

theorem size (h : Braced f script) : f.size = script.length + 2 := by
  have := congrArg List.length h.bytes
  simpa [File.bytes, File.size] using this

theorem getD (h : Braced f script) (i : Nat) :
    f.content.getD i 0 = (0x7B :: (script ++ [0x7D]) : Bytes).getD i 0 := by
  rw [← h.bytes, File.bytes, Array.getD_eq_getD_getElem?, List.getD_eq_getElem?_getD,
    Array.getElem?_toList]

theorem oneLine (h : Braced f script) : f.OneLine where
  small := h.small
  feeds := by
    have hopening : ('\n' : UInt8) ≠ 0x7B := by decide
    have hclosing : ('\n' : UInt8) ≠ 0x7D := by decide
    simp [h.bytes, h.feeds, hopening, hclosing]
  start := by
    rw [h.getD, List.getD_cons_zero]
    decide
  last := by
    rw [h.getD, h.size, show script.length + 2 - 1 = script.length + 1 by omega,
      List.getD_cons_succ, List.getD_eq_getElem?_getD, List.getElem?_concat_length]
    decide

/-- Behind the first brace stand the script and the last brace. -/
theorem slice {c : Cursor} (h : Braced f script) (hc : c.In f) {n : Nat} (hn : n ≤ f.size) :
    c.slice 1 n = (script ++ [0x7D]).take (n - 1) := by
  rw [Cursor.slice, hc.content, hc.limit, Nat.min_eq_left hn, Content.slice, Array.toList_extract,
    List.extract_eq_take_drop]
  rw [show f.content.toList = 0x7B :: (script ++ [0x7D]) from h.bytes, List.drop_succ_cons,
    List.drop_zero]

end Braced

namespace Parse

variable {f : File} {script : Bytes} {s : ParserState}

open File.OneLine (AtStart)

section

variable (h : Braced f script) (hs : Stands f s) (hl : AtStart f s.lexer)

include h hs hl

/-- Where the reader of the line looks for the closing brace. -/
theorem closeOffset?_braced :
    s.lexer.cursor.next.closeOffset? 0x7B 0x7D s.lexer.textEnd
      = (closeDistance 0x7B 0x7D (script ++ [0x7D])).map (1 + ·) := by
  have hsize := h.size
  have hnext : s.lexer.cursor.next = { s.lexer.cursor with offset := 1 } := by
    rw [Cursor.next_eq hs.cursor (by rw [hl.offset]; omega), hl.offset]
  rw [hnext, h.oneLine.textEnd hs.cursor, Cursor.closeOffset?]
  simp only
  rw [h.slice (hs.cursor.moved (by omega)) (Nat.le_refl _), List.take_of_length_le (by simp; omega)]

theorem peek_braced : s.lexer.cursor.peek = 0x7B := by
  rw [h.oneLine.peek hl, Cursor.byteAt, hs.cursor.content, h.getD]
  rfl

/-- If the line is read as a script and nothing else, the brace that closes it was found behind
the script. -/
theorem ends_lineText_braced :
    Ends lineText s fun r _ => ∀ raw inner span, r.1.parts = [([], .script raw inner span)] →
      closeDistance 0x7B 0x7D (script ++ [0x7D]) = some raw.length := by
  have hsize := h.size
  have hclose := closeOffset?_braced h hs hl
  have htextEnd := h.oneLine.textEnd hs.cursor
  simp only [lineText, ends_bind, ends_get, ends_textEnd, ends_offset, hl.offset, Nat.sub_zero]
  refine Ends.imp (P := fun r _ => ∀ raw inner span,
    r.text.parts = [([], .script raw inner span)] →
      closeDistance 0x7B 0x7D (script ++ [0x7D]) = some raw.length)
    (ends_textFrom_brace (by rw [htextEnd, hl.offset]; omega) (peek_braced h hs hl) ?_ ?_) ?_
  -- the brace closes within the line, and the script in the paragraph is what stood before it
  · intro close hfound
    refine (ends_textFrom_grows _ none 0 _ .parsed).imp fun r s' hr => ?_
    obtain ⟨d, ⟨more, hparts, -⟩, hr⟩ := hr
    intro raw inner span hraw
    rw [hr, hparts] at hraw
    rw [hclose, Option.map_eq_some_iff] at hfound
    obtain ⟨n, hn, rfl⟩ := hfound
    have hlt := Cursor.closeDistance_go_lt (by exact hn)
    have hlength : raw.length = n := by
      have htext : s.lexer.cursor.slice s.lexer.cursor.next.offset (1 + n) = raw := by
        simp only [Draft.insert, List.push_toArray, List.nil_append, List.singleton_append,
          List.cons.injEq, Prod.mk.injEq, Inline.script.injEq] at hraw
        exact hraw.1.2.1
      rw [← htext, Cursor.next_offset hs.cursor (by rw [hl.offset]; omega), hl.offset, Cursor.slice,
        Content.length_slice, hs.cursor.limit, hs.cursor.content]
      simp only [List.length_append, List.length_singleton] at hlt
      simp only [File.size] at hsize ⊢
      omega
    rw [hn, hlength]
  -- without its closing brace no script is put into the text
  · intro hmissing s'
    refine (ends_textFrom_grows _ none 0 _ .recovered).imp fun r s'' hr => ?_
    obtain ⟨d, ⟨more, hparts, hrun⟩, hr⟩ := hr
    intro raw inner span hraw
    rw [hr, hparts] at hraw
    obtain rfl : more = [([], .script raw inner span)] := hraw
    cases hrun.length_le
  · intro r s' hr
    simp only [ends_modify, ends_pure]
    split
    · exact hr
    · exact hr

/-- A balanced script is all that is read. -/
theorem ends_lineText_balanced (hbalanced : scriptTracker.Balanced script)
    (hlifted : s.lifted = #[]) :
    Ends lineText s fun r s' =>
      (∃ inner span, r.1.parts = [([], .script script inner span)]) ∧ r.1.tail = []
        ∧ r.2.1 = [] ∧ s'.log = s.log := by
  have hsize := h.size
  have hclose := closeOffset?_braced h hs hl
  have htextEnd := h.oneLine.textEnd hs.cursor
  rw [(closeDistance_eq_length_iff script).mpr hbalanced, Option.map_some] at hclose
  simp only [lineText, ends_bind, ends_get, ends_textEnd, ends_offset, hl.offset, Nat.sub_zero]
  refine Ends.imp (P := fun r s' => (∃ inner span, r.text.parts = [([], .script script inner span)])
    ∧ r.text.tail = [] ∧ s'.lifted = #[] ∧ s'.log = s.log)
    -- of the text only the brace decides where the script ends
    (ends_textFrom_brace (by rw [htextEnd, hl.offset]; omega) (peek_braced h hs hl) ?_ ?_) ?_
  · intro close hfound
    rw [hclose] at hfound
    obtain rfl := Option.some.inj hfound
    have hraw : s.lexer.cursor.slice s.lexer.cursor.next.offset (1 + script.length) = script := by
      rw [Cursor.next_offset hs.cursor (by rw [hl.offset]; omega), hl.offset, Nat.zero_add,
        h.slice hs.cursor (by omega), Nat.add_sub_cancel_left, List.take_left]
    -- behind the closing brace nothing is left of the text, so that one more step ends it
    obtain ⟨fuel, hfuel⟩ : ∃ n, s.lexer.textEnd = n + 1 := ⟨f.size - 1, by omega⟩
    have hdone : fuel + 1 ≤ 1 + script.length + 1 := by omega
    rw [hfuel, hraw]
    simp only [textFrom, ends_bind, ends_cursor, Lexer.moveTo, if_pos hdone, ends_pure]
    exact ⟨⟨_, _, rfl⟩, rfl, hlifted, trivial⟩
  · intro hmissing
    rw [hclose] at hmissing
    cases hmissing
  · intro r s' hr
    obtain ⟨hparts, htail, hnone, hlog⟩ := hr
    have hdiverts : s'.lifted.toList.drop s.lifted.size = [] := by simp [hnone]
    simp only [ends_modify, ends_pure, hdiverts, List.isEmpty_nil, if_true]
    exact ⟨hparts, htail, trivial, hlog⟩

end

end Parse

/-! ## The theorem -/

open Script Parse

/-- Whether a story is a single script: a paragraph without text before or after it, and nothing
was reported. -/
def Parsed.IsScript (p : Parsed) (script : Bytes) : Prop :=
  p.diagnostics = [] ∧ ∃ q : Paragraph, p.document.blocks = [.paragraph q] ∧ q.text.tail = []
    ∧ ∃ inner span, q.text.parts = [([], .script script inner span)]

theorem isScript_iff_balanced {f : File} {script : Bytes} (h : Braced f script) (layout : Layout)
    (maxErrors : Nat) :
    (parse f layout maxErrors).IsScript script ↔ scriptTracker.Balanced script := by
  obtain ⟨hblocks, hdiagnostics⟩ := parse_oneLine h.oneLine layout maxErrors
  have hat : File.OneLine.AtStart f (Lexer.ofFile f layout) :=
    ⟨⟨rfl, rfl, rfl, Nat.zero_le _, h.small⟩, rfl⟩
  set start : ParserState := { lexer := (Lexer.ofFile f layout).skipIndent } with hstart
  have hcursor : start.lexer.cursor = (Lexer.ofFile f layout).cursor := by
    rw [hstart, h.oneLine.skipIndent hat]
  have hl : File.OneLine.AtStart f start.lexer :=
    ⟨by rw [hcursor]; exact hat.cursor, by rw [hcursor]; rfl⟩
  have hs : Stands f start := ⟨hl.cursor, by simp [hstart]⟩
  -- a script inline has the length that the search found, and it finds the whole script only if
  -- that is balanced
  constructor
  · rintro ⟨-, q, hq, -, inner, span, hparts⟩
    have hread := ends_lineText_braced h hs hl
    rw [← closeDistance_eq_length_iff]
    refine hread script inner span ?_
    -- the paragraph is the text of the line, for diverts alone give none
    rw [hblocks, lineBlocks] at hq
    split at hq
    · obtain ⟨d, ds, -, hd, -⟩ := List.map_eq_cons_iff.mp hq
      cases hd
    · obtain rfl := Block.paragraph.inj (List.cons.inj hq).1
      exact hparts
  · intro hbalanced
    obtain ⟨⟨inner, span, hparts⟩, htail, hdiverts, hlog⟩ :=
      ends_lineText_balanced h hs hl hbalanced rfl
    have hnonempty : (lineText.run start).1.1.isEmpty = false := by
      simp [Text.isEmpty, hparts]
    have hnone : (parse f layout maxErrors).diagnostics = [] := by
      rw [hdiagnostics, hlog, hstart]
      cases maxErrors <;> rfl
    rw [lineBlocks, hnonempty, hdiverts] at hblocks
    exact ⟨hnone, _, hblocks, htail, inner, span, hparts⟩

/-- A script that the parser accepts, alone between braces on a line, is read back as that script if
and only if it is balanced.  It is if its templates are: only a template can hold a quote or a brace
that means something else to the parser than to the story. -/
theorem script_between_braces {script : Bytes} {file : FileId}
    (accepted : (Script.parse script file 0).diagnostics = []) (feeds : ('\n' : UInt8) ∉ script)
    {f : File} (bytes : f.bytes = 0x7B :: (script ++ [0x7D])) (small : f.size < Word.modulus)
    (layout : Layout) (maxErrors : Nat) :
    ((parse f layout maxErrors).IsScript script ↔ scriptTracker.Balanced script)
      ∧ ((∀ t ∈ formsOf script, t.kind = .template → scriptTracker.Balanced t.text) →
        (parse f layout maxErrors).IsScript script) := by
  have hiff := isScript_iff_balanced ⟨small, bytes, feeds⟩ layout maxErrors
  exact ⟨hiff, fun htemplates => hiff.mpr (balanced_of_accepted accepted htemplates)⟩

/-- A script with strings that hold braces, and a template in a substitution of another one. -/
theorem script_between_braces_nested :
    let script : Bytes := "x = '\x7d' + `a $\x7by + `b`\x7d`"
    let f := File.ofBytes 0 "a.story" (0x7B :: (script ++ [0x7D]))
    (Script.parse script 0 0).diagnostics = [] ∧ ('\n' : UInt8) ∉ script
      ∧ (∀ t ∈ formsOf script, t.kind = .template → scriptTracker.Balanced t.text)
      ∧ (parse f).IsScript script := by
  intro script f
  have accepted : (Script.parse script 0 0).diagnostics = [] := by decide +kernel
  have feeds : ('\n' : UInt8) ∉ script := by decide +kernel
  have templates : ∀ t ∈ formsOf script, t.kind = .template → scriptTracker.Balanced t.text := by
    decide +kernel
  exact ⟨accepted, feeds, templates,
    (script_between_braces accepted feeds (f := f) (by decide +kernel) (by decide +kernel) {} 0).2
      templates⟩

/-- A backquote in a string of a substitution closes nothing to the parser, but to the story it
closes the template, and the quote behind it opens a string that takes the closing brace. -/
theorem script_between_braces_fails :
    let script : Bytes := "`$\x7b\"`\"\x7d`"
    let f := File.ofBytes 0 "a.story" (0x7B :: (script ++ [0x7D]))
    (Script.parse script 0 0).diagnostics = [] ∧ ('\n' : UInt8) ∉ script
      ∧ ¬ (parse f).IsScript script := by
  intro script f
  refine ⟨by decide +kernel, by decide +kernel, fun h => ?_⟩
  have hreported : (parse f).diagnostics ≠ [] := by decide +kernel
  exact hreported h.1

end Storyline.Markup
