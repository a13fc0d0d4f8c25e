import Mathlib.Data.List.Basic
import Storyline.Proofs.Script.Precedence
import Storyline.Proofs.Script.Templates

/-!
# Printed trees and their sources

A printed tree reads like the tokens that spell it, but for the white space and the commas between
them.  So a template that is printed anew, with its substitutions printed, is still one token, and
has the same texts and the printed substitutions.
-/

namespace Storyline.Script

/-! ## Bytes -/

/-- The texts of tokens with nothing between them. -/
def textOf (ts : List Form) : Bytes := ts.flatMap Form.text

@[simp] theorem textOf_nil : textOf [] = [] := rfl

@[simp] theorem textOf_cons (f : Form) (ts : List Form) : textOf (f :: ts) = f.text ++ textOf ts := by
  simp [textOf]

@[simp] theorem textOf_append (ts us : List Form) : textOf (ts ++ us) = textOf ts ++ textOf us := by
  simp [textOf]

theorem tame_of_forall {u : Bytes} {p : UInt8 → Bool} (h : ∀ b ∈ u, p b = true)
    (hbrace : p 0x7B = false) (hslash : p '\\' = false) : Tame u := by
  refine ⟨?_, ?_⟩
  · cases u with
    | nil => decide
    | cons b u =>
      rintro rfl
      rw [h _ List.mem_cons_self] at hbrace
      cases hbrace
  · intro hlast
    rw [h _ (List.mem_of_getLast? hlast)] at hslash
    cases hslash

/-- Whether a token is not an opening brace, which is no part of a tree. -/
def Form.Braceless (f : Form) : Prop := f.kind ≠ .symbol .leftBrace

theorem Form.Delivered.tame {f : Form} (h : f.Delivered) (hbrace : f.Braceless) : Tame f.text := by
  obtain ⟨k, hk⟩ := h
  have hscan := hk.scan
  obtain ⟨hinvalid, hsymbol, _, _⟩ := scan_genuine 0 (f.text ++ k)
  rw [hscan] at hinvalid hsymbol
  -- By the kind of the form: its bytes are known, and no brace can be the first or the last of
  -- them.
  cases hkind : f.kind with
  | invalid => exact absurd rfl (hinvalid hkind)
  | endOfScript =>
    have := scan_kind_ne_end 0 (f.text ++ k)
    rw [hscan] at this
    exact absurd hkind this
  | identifier => exact tame_of_forall (hk.wordBytes (.inl hkind)) (by decide) (by decide)
  | keyword w => exact tame_of_forall (hk.wordBytes (.inr ⟨w, hkind⟩)) (by decide) (by decide)
  | number =>
    exact tame_of_forall (fun b hb => (hk.numberText hkind).mem hb) (by decide) (by decide)
  | string =>
    obtain ⟨quote, body, htext, hquote, hlast, _⟩ := hk.stringText hkind
    have hne : body ≠ [] := by
      rintro rfl
      cases hlast
    rw [htext]
    -- a text in quotes starts and ends with its quote, whatever is inside
    refine ⟨?_, ?_⟩
    · rcases hquote with rfl | rfl
      · exact (by decide : ('"' : UInt8) ≠ 0x7B)
      · exact (by decide : ('\'' : UInt8) ≠ 0x7B)
    · rw [List.getLast?_cons_of_ne_nil hne, hlast]
      rcases hquote with rfl | rfl <;> decide
  | template =>
    obtain ⟨body, htext, _⟩ := hk.templateText hkind
    rw [htext]
    exact tame_fenced body
  | symbol op =>
    have htext := hsymbol op hkind
    rw [List.take_left] at htext
    rw [htext]
    have hne : op ≠ .leftBrace := by
      rintro rfl
      exact hbrace hkind
    -- only the operators are left, and their texts are known
    refine ⟨?_, ?_⟩ <;> cases op <;> first | exact absurd rfl hne | decide

/-- A text reads like its tokens. -/
theorem sameReading_textOf {s : Bytes} (h : Faultless s) (hbrace : ∀ f ∈ formsOf s, f.Braceless) :
    SameReading s (textOf (formsOf s)) := by
  induction s using lexemes_induction with
  | nil => exact .nil
  | space b s hb ih =>
    rw [formsOf_space hb] at hbrace ⊢
    have hgap : SameReading [b] [] := .gap (by simp [Reader.isGap, hb])
    exact hgap.append (ih ((faultless_space hb s).mp h) hbrace)
  | token s hs hb ih =>
    obtain ⟨f, k, rfl, hbefore, hforms, hk⟩ := before_of_faultless hs hb h
    rw [hbefore.scan, List.drop_left] at ih
    rw [hforms, List.forall_mem_cons] at hbrace
    rw [hforms, textOf_cons]
    have htame := Form.Delivered.tame ⟨k, hbefore⟩ hbrace.1
    exact (SameReading.refl htame).append (ih hk hbrace.2)

/-- The texts and the printed substitutions of a template. -/
def formatPieces (parts : List (Bytes × Expr)) : List (Bytes × Bytes) :=
  parts.map fun p => (p.1, p.2.format)

theorem formatParts_append (parts : List (Bytes × Expr)) (tail : Bytes) :
    Expr.formatParts parts ++ tail = joinPieces (formatPieces parts) tail := by
  induction parts with
  | nil => rfl
  | cons p parts ih =>
    have hopening : (("$\x7b" : String) : Bytes) = [('$' : UInt8), 0x7B] := by decide
    have hclosing : (("\x7d" : String) : Bytes) = [0x7D] := by decide
    rw [formatPieces] at ih
    simp [Expr.formatParts, formatPieces, joinPieces, ← ih, hopening, hclosing]

theorem format_template (span : Span) (parts : List (Bytes × Expr)) (tail : Bytes) :
    (Expr.template span parts tail).format = fenced (joinPieces (formatPieces parts) tail) := by
  show [0x60] ++ Expr.formatParts parts ++ tail ++ [0x60] = _
  rw [fenced, ← formatParts_append]
  simp

/-! ## Printed trees -/

/-- The white space between tokens. -/
def blank : Bytes := [(' ' : UInt8)]

@[simp] theorem Form.word_text (n : Bytes) : (Form.word n).text = n := rfl

namespace Expr

theorem format_binary (span : Span) (op : TokenKind) (l r : Expr) :
    (binary span op l r).format
      = l.format ++ (blank ++ ((Form.of op).text ++ (blank ++ r.format))) := by
  have hblank : ((" " : String) : Bytes) = blank := by decide
  show l.format ++ " " ++ op.name ++ " " ++ r.format = _
  simp [hblank, Form.of]

/-- The white space after an operator before its operand: some after a word. -/
def signGap (op : TokenKind) : Bytes :=
  if op = .keyword .typeof || op = .keyword .void then blank else []

theorem format_unary (span : Span) (op : TokenKind) (x : Expr) :
    (unary span op x).format = (Form.of op).text ++ (signGap op ++ x.format) := by
  have hblank : ((" " : String) : Bytes) = blank := by decide
  have hnone : (("" : String) : Bytes) = [] := by decide
  show op.name ++ (if op = .keyword .typeof || op = .keyword .void then (" " : Bytes) else "")
    ++ x.format = _
  simp only [signGap, hblank, hnone, List.append_assoc]
  rfl

theorem format_trailing (span : Span) (op : TokenKind) (x : Expr) :
    (trailing span op x).format = x.format ++ (Form.of op).text := rfl

theorem format_member (span : Span) (b : Expr) (n : Bytes) (nameSpan : Span) :
    (member span b n nameSpan).format
      = b.format ++ ((Form.symbol .dot).text ++ (Form.word n).text) := by
  show b.format ++ "." ++ n = _
  rw [List.append_assoc]
  rfl

theorem format_index (span : Span) (b i : Expr) :
    (index span b i).format = b.format ++ ((Form.symbol .leftBracket).text
      ++ (i.format ++ (Form.symbol .rightBracket).text)) := by
  show b.format ++ "[" ++ i.format ++ "]" = _
  rw [List.append_assoc, List.append_assoc]
  rfl

/-- The text of an argument list. -/
def formatArgs (args : List Expr) : Bytes :=
  (Form.symbol .leftParen).text ++ (formatList args ++ (Form.symbol .rightParen).text)

theorem format_call (span : Span) (c : Expr) (args : List Expr) :
    (call span c args).format = c.format ++ formatArgs args := by
  show c.format ++ "(" ++ formatList args ++ ")" = _
  rw [List.append_assoc, List.append_assoc]
  rfl

theorem format_array (span : Span) (xs : List Expr) :
    (array span xs).format = (Form.symbol .leftBracket).text
      ++ (formatList xs ++ (Form.symbol .rightBracket).text) := by
  show "[" ++ formatList xs ++ "]" = _
  rw [List.append_assoc]
  rfl

theorem format_construct (span : Span) (c : Expr) (args : List Expr) (hasArgs : Bool) :
    (construct span c args hasArgs).format = (Form.of (.keyword .new)).text
      ++ (blank ++ (c.format ++ if hasArgs then formatArgs args else [])) := by
  have hnew : (("new " : String) : Bytes) = (Form.of (.keyword .new)).text ++ blank := by decide
  show "new " ++ c.format ++ (if hasArgs then "(" ++ formatList args ++ ")" else []) = _
  simp only [hnew, List.append_assoc]
  rfl

theorem format_ternary (span : Span) (c a b : Expr) :
    (ternary span c a b).format = c.format ++ (blank ++ ((Form.symbol .question).text
      ++ (blank ++ (a.format ++ (blank ++ ((Form.symbol .colon).text
      ++ (blank ++ b.format))))))) := by
  have hquestion : ((" ? " : String) : Bytes)
      = blank ++ ((Form.symbol .question).text ++ blank) := by decide
  have hcolon : ((" : " : String) : Bytes)
      = blank ++ ((Form.symbol .colon).text ++ blank) := by decide
  show c.format ++ " ? " ++ a.format ++ " : " ++ b.format = _
  simp only [hquestion, hcolon, List.append_assoc]

theorem format_group (span : Span) (x : Expr) :
    (group span x).format
      = (Form.symbol .leftParen).text ++ (x.format ++ (Form.symbol .rightParen).text) := by
  show "(" ++ x.format ++ ")" = _
  rw [List.append_assoc]
  rfl

theorem formatList_cons (x y : Expr) (rest : List Expr) :
    formatList (x :: y :: rest)
      = x.format ++ ((Form.symbol .comma).text ++ (blank ++ formatList (y :: rest))) := by
  have hcomma : ((", " : String) : Bytes) = (Form.symbol .comma).text ++ blank := by decide
  show x.format ++ ", " ++ formatList (y :: rest) = _
  simp only [hcomma, List.append_assoc]

end Expr

theorem braceless_of_binding {op : TokenKind} {b : Binding} (h : op.binding? = some b) :
    (Form.of op).Braceless := by
  rintro (rfl : op = _)
  cases h

theorem braceless_of_prefixOperator {op : TokenKind} (h : op.isPrefixOperator = true) :
    (Form.of op).Braceless := by
  rintro (rfl : op = _)
  cases h

theorem braceless_word (n : Bytes) : (Form.word n).Braceless := by
  intro h
  rcases Form.word_kind n with hn | ⟨w, hn⟩ <;> rw [hn] at h <;> cases h

/-- Whether tokens are delivered, braceless and read like a text. -/
structure Prints (ts : List Form) (s : Bytes) : Prop where
  delivered : ∀ f ∈ ts, f.Delivered
  braceless : ∀ f ∈ ts, f.Braceless
  reading : SameReading (textOf ts) s

namespace Prints

theorem single {f : Form} (h : f.Delivered) (hf : f.Braceless) : Prints [f] f.text := by
  refine ⟨by simpa using h, by simpa using hf, ?_⟩
  simpa using SameReading.refl (h.tame hf)

theorem append {ts us : List Form} {s t : Bytes} (h : Prints ts s) (h' : Prints us t) :
    Prints (ts ++ us) (s ++ t) := by
  refine ⟨?_, ?_, ?_⟩
  · rw [List.forall_mem_append]
    exact ⟨h.delivered, h'.delivered⟩
  · rw [List.forall_mem_append]
    exact ⟨h.braceless, h'.braceless⟩
  · rw [textOf_append]
    exact h.reading.append h'.reading

theorem space {ts : List Form} {s : Bytes} (h : Prints ts s) : Prints ts (blank ++ s) := by
  have hblank : SameReading [] blank := (SameReading.gap (List.all_eq_true.mp (by decide))).symm
  exact ⟨h.delivered, h.braceless, hblank.append h.reading⟩

/-- A comma after the last item is not printed. -/
theorem dropComma {ts : List Form} {s : Bytes} (h : Prints ts s)
    (hcomma : (Form.symbol .comma).Delivered) : Prints (ts ++ [.symbol .comma]) s := by
  have hprints := Prints.single hcomma nofun
  have hgap : SameReading (Form.symbol .comma).text [] := .gap (List.all_eq_true.mp (by decide))
  have hall := h.append hprints
  refine ⟨hall.delivered, hall.braceless, ?_⟩
  rw [textOf_append]
  simpa using h.reading.append hgap

end Prints

namespace Expr

mutual

/-- The text of a tree reads like the tokens that spell it. -/
-- Induction on the expression.  In each case its forms are taken apart as the expression is, each
-- part prints its own, and the blanks of the printed text fall between forms.
theorem prints_of_spells : ∀ (e : Expr) {ts : List Form}, Spells ts e → e.Respects →
    (∀ f ∈ ts, f.Delivered) → Prints ts e.format
  | .literal _ .number _ _, _, rfl, _, h => .single (h _ (by simp)) nofun
  | .literal _ .string _ _, _, rfl, _, h => .single (h _ (by simp)) nofun
  | .literal _ .bool _ _, _, rfl, _, h => .single (h _ (by simp)) (braceless_word _)
  | .literal _ .null _ _, _, rfl, _, h => .single (h _ (by simp)) (braceless_word _)
  | .literal _ .undefined _ _, _, rfl, _, h => .single (h _ (by simp)) (braceless_word _)
  | .identifier _ _, _, rfl, _, h => .single (h _ (by simp)) nofun
  | .binary _ op l r, _, ⟨us, vs, rfl, hus, hvs⟩, ⟨⟨b, hb, _⟩, hl, hr⟩, h => by
    rw [List.forall_mem_append, List.forall_mem_cons] at h
    have hleft := l.prints_of_spells hus hl h.1
    have hright := r.prints_of_spells hvs hr h.2.2
    have hop := Prints.single h.2.1 (braceless_of_binding hb)
    simpa [format_binary] using hleft.append (hop.append hright.space).space
  | .unary _ op x, _, ⟨us, rfl, hus⟩, ⟨hop, _, hx⟩, h => by
    rw [List.forall_mem_cons] at h
    have hoperand := x.prints_of_spells hus hx h.2
    -- the sign stands right before its operand unless the two would be read as one operator
    have hsign := Prints.single h.1 (braceless_of_prefixOperator hop)
    rw [format_unary, signGap]
    split
    · exact hsign.append hoperand.space
    · exact hsign.append hoperand
  | .trailing _ op x, _, ⟨us, rfl, hus⟩, ⟨hop, _, hx⟩, h => by
    rw [List.forall_mem_append] at h
    have hbrace : (Form.of op).Braceless := by
      rcases hop with rfl | rfl <;> nofun
    exact (x.prints_of_spells hus hx h.1).append (.single (h.2 _ (by simp)) hbrace)
  | .member _ b n _, _, ⟨us, rfl, hus⟩, ⟨_, _, hb⟩, h => by
    rw [List.forall_mem_append] at h
    have hdot := Prints.single (h.2 (.symbol .dot) (by simp)) nofun
    have hname := Prints.single (h.2 (.word n) (by simp)) (braceless_word n)
    rw [format_member]
    exact (b.prints_of_spells hus hb h.1).append (hdot.append hname)
  | .index _ b i, _, ⟨us, vs, rfl, hus, hvs⟩, ⟨_, hb, hi⟩, h => by
    simp only [List.append_assoc, List.cons_append, List.forall_mem_append,
      List.forall_mem_cons] at h
    have hopening := Prints.single h.2.1 nofun
    have hclosing := Prints.single h.2.2.2.1 nofun
    have hbase := b.prints_of_spells hus hb h.1
    have hindex := i.prints_of_spells hvs hi h.2.2.1
    simpa [format_index] using hbase.append (hopening.append (hindex.append hclosing))
  | .call _ c args, _, ⟨us, vs, rfl, hus, hvs⟩, ⟨_, _, hc, hargs⟩, h => by
    simp only [List.append_assoc, List.cons_append, List.forall_mem_append,
      List.forall_mem_cons] at h
    have hopening := Prints.single h.2.1 nofun
    have hclosing := Prints.single h.2.2.2.1 nofun
    have hcallee := c.prints_of_spells hus hc h.1
    have hlist := printsList_of_spells args hvs hargs h.2.2.1
    simpa [format_call, formatArgs] using hcallee.append (hopening.append (hlist.append hclosing))
  | .array _ xs, _, ⟨us, rfl, hus⟩, hxs, h => by
    simp only [List.cons_append, List.forall_mem_append, List.forall_mem_cons] at h
    have hopening := Prints.single h.1 nofun
    have hclosing := Prints.single h.2.2.1 nofun
    have hlist := printsList_of_spells xs hus hxs h.2.1
    simpa [format_array] using hopening.append (hlist.append hclosing)
  | .construct _ c args true, _, ⟨us, vs, rfl, hus, hvs⟩, ⟨_, _, _, hc, hargs⟩, h => by
    obtain ⟨ws, rfl, hws⟩ := hvs
    simp only [List.cons_append, List.forall_mem_append,
      List.forall_mem_cons] at h
    have hnew := Prints.single h.1 nofun
    have hopening := Prints.single h.2.2.1 nofun
    have hclosing := Prints.single h.2.2.2.2.1 nofun
    have hcallee := c.prints_of_spells hus hc h.2.1
    have hlist := printsList_of_spells args hws hargs h.2.2.2.1
    simpa [format_construct, formatArgs] using
      hnew.append (hcallee.append (hopening.append (hlist.append hclosing))).space
  | .construct _ c args false, _, ⟨us, vs, rfl, hus, hvs⟩, ⟨_, _, _, hc, _⟩, h => by
    obtain rfl : vs = [] := hvs
    simp only [List.append_nil, List.forall_mem_cons] at h
    have hnew := Prints.single h.1 nofun
    simpa [format_construct] using hnew.append (c.prints_of_spells hus hc h.2).space
  | .ternary _ c a b, _, ⟨us, vs, ws, rfl, hus, hvs, hws⟩, ⟨_, hc, ha, hb⟩, h => by
    simp only [List.append_assoc, List.cons_append, List.forall_mem_append,
      List.forall_mem_cons] at h
    have hquestion := Prints.single h.2.1 nofun
    have hcolon := Prints.single h.2.2.2.1 nofun
    have hcond := c.prints_of_spells hus hc h.1
    have hyes := a.prints_of_spells hvs ha h.2.2.1
    have hno := b.prints_of_spells hws hb h.2.2.2.2
    simpa [format_ternary] using
      hcond.append (hquestion.append (hyes.append (hcolon.append hno.space).space).space).space
  -- a template is one form: what changes is what its substitutions look like, which are printed
  -- afresh
  | .template _ parts tail, _, ⟨raw, rfl, hclosed, htail, hparts⟩, hrespects, h => by
    subst htail
    obtain ⟨k, hk⟩ := h _ (List.mem_singleton_self _)
    obtain ⟨body, rfl, hrun⟩ := hk.templateText rfl
    have hsame := samePieces_of_spells parts hparts hrespects
    obtain ⟨_, rfl, _, _, _, _, hreading⟩ := template_replace hrun hclosed hsame
    refine ⟨h, by simp [Form.Braceless], ?_⟩
    rw [format_template]
    simpa using hreading
  | .group _ x, _, ⟨us, rfl, hus⟩, hx, h => by
    simp only [List.cons_append, List.forall_mem_append, List.forall_mem_cons] at h
    have hopening := Prints.single h.1 nofun
    have hclosing := Prints.single h.2.2.1 nofun
    simpa [format_group] using hopening.append ((x.prints_of_spells hus hx h.2.1).append hclosing)

theorem printsList_of_spells : ∀ (xs : List Expr) {ts : List Form}, SpellsList ts xs →
    RespectsAll xs → (∀ f ∈ ts, f.Delivered) → Prints ts (formatList xs)
  | [], _, rfl, _, _ => ⟨nofun, nofun, .nil⟩
  | [x], _, ⟨us, hus, .inl ⟨_, rfl⟩⟩, ⟨hx, _⟩, h => x.prints_of_spells hus hx h
  | [x], _, ⟨us, hus, .inr ⟨vs, rfl, hvs⟩⟩, ⟨hx, _⟩, h => by
    obtain rfl : vs = [] := hvs
    rw [List.forall_mem_append] at h
    exact (x.prints_of_spells hus hx h.1).dropComma (h.2 _ (by simp))
  | x :: y :: xs, _, ⟨us, hus, .inr ⟨vs, rfl, hvs⟩⟩, ⟨hx, hxs⟩, h => by
    rw [List.forall_mem_append, List.forall_mem_cons] at h
    have hcomma := Prints.single h.2.1 nofun
    have hrest := printsList_of_spells (y :: xs) hvs hxs h.2.2
    rw [formatList_cons]
    exact (x.prints_of_spells hus hx h.1).append (hcomma.append hrest.space)

/-- Printed substitutions read like their sources. -/
theorem samePieces_of_spells : ∀ (parts : List (Bytes × Expr)) {pieces : List (Bytes × Bytes)},
    SpellsParts pieces parts → RespectsParts parts →
    List.Forall₂ SamePiece pieces (formatPieces parts)
  | [], _, rfl, _ => .nil
  | (_, x) :: rest, _, ⟨source, more, rfl, hfaultless, hsource, hmore⟩, ⟨hx, hrest⟩ => by
    have hprints := x.prints_of_spells hsource hx (delivered_of_faultless hfaultless)
    have hreading := (sameReading_textOf hfaultless hprints.braceless).trans hprints.reading
    exact .cons ⟨rfl, hreading⟩ (samePieces_of_spells rest hmore hrest)

end

/-- A printed template is one token before every text, and its texts and substitutions are the
printed ones. -/
theorem template_reads {span : Span} {parts : List (Bytes × Expr)} {tail : Bytes} {ts : List Form}
    (h : Spells ts (template span parts tail)) (hrespects : RespectsParts parts)
    (hdelivered : ∀ f ∈ ts, f.Delivered) :
    (∀ k, (⟨.template, (template span parts tail).format⟩ : Form).Before k)
      ∧ (templateOf 0 (template span parts tail).format).unclosed = none
      ∧ (templateOf 0 (template span parts tail).format).tail = tail
      ∧ templatePieces (template span parts tail).format = formatPieces parts := by
  obtain ⟨raw, rfl, hclosed, rfl, hparts⟩ := h
  obtain ⟨k, hk⟩ := hdelivered _ (List.mem_singleton_self _)
  obtain ⟨body, rfl, hrun⟩ := hk.templateText rfl
  have hsame := samePieces_of_spells parts hparts hrespects
  obtain ⟨body', hbody, hrun', hclosed', htail, hpieces, _⟩ := template_replace hrun hclosed hsame
  rw [format_template, ← hbody]
  exact ⟨fun k => template_before hrun' k, hclosed', htail, hpieces⟩

end Expr

end Storyline.Script
