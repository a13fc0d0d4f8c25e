import Storyline.Proofs.Markup.PlainLines
import Storyline.Proofs.Text.Ascii
import Storyline.Proofs.Text.Lists

/-!
# Attribute lines decode what they encode

Two scanners read the parameters of an attribute, by different rules.  The closing parenthesis is
found by counting parentheses alone, and only then the text before it is split at the commas
outside of brackets of any kind.  On a text whose quotes are closed and whose brackets nest outside
of quotes (`Nested`) both pass over the whole text and come out as they went in
(`closeDistance_go_nested`, `splitParams_go_nested`); this is an induction on how the text is
nested, so that both agree on where a parameter ends.

From this an attribute that is written on a line of its own, with its parameters between commas, is
read back with the same name and the same parameters, and belongs to the line of text behind it
(`parse_attributeSource`).
-/

namespace Storyline

namespace Markup

/-! ## Parameters -/

/-- What stands between two quotes `q`: each of them inside is escaped. -/
inductive Quoted (q : UInt8) : Bytes → Prop
  | nil : Quoted q []
  | escaped {b : UInt8} {text : Bytes} (h : Quoted q text) : Quoted q ('\\' :: b :: text)
  | byte {b : UInt8} {text : Bytes} (hq : b ≠ q) (hb : b ≠ '\\') (h : Quoted q text) :
      Quoted q (b :: text)

/-- Brackets that belong together. -/
def brackets : List (UInt8 × UInt8) := [('(', ')'), ('[', ']'), (0x7B, 0x7D)]

/-- A text whose quotes are closed and whose brackets nest outside of quotes; `commas` says whether
commas may stand outside of both. -/
inductive Nested : (commas : Bool) → Bytes → Prop
  | nil {commas : Bool} : Nested commas []
  | byte {commas : Bool} {b : UInt8} {text : Bytes} (hquote : isQuote b = false)
      (hopening : isOpening b = false) (hclosing : isClosing b = false)
      (hcomma : b = ',' → commas = true) (h : Nested commas text) : Nested commas (b :: text)
  | quoted {commas : Bool} {q : UInt8} {body text : Bytes} (hq : isQuote q = true)
      (hbody : Quoted q body) (h : Nested commas text) : Nested commas (q :: body ++ q :: text)
  | bracketed {commas : Bool} {pair : UInt8 × UInt8} {inner text : Bytes} (hpair : pair ∈ brackets)
      (hinner : Nested true inner) (h : Nested commas text) :
      Nested commas (pair.1 :: inner ++ pair.2 :: text)

variable {q b : UInt8} {body text rest : Bytes} {commas : Bool}

theorem Nested.loosen (h : Nested commas text) : Nested true text := by
  induction h with
  | nil => exact .nil
  | byte hquote hopening hclosing _ _ ih => exact .byte hquote hopening hclosing (fun _ => rfl) ih
  | quoted hq hbody _ ih => exact .quoted hq hbody ih
  | bracketed hpair hinner _ _ ih => exact .bracketed hpair hinner ih

theorem Nested.append (h : Nested commas text) (hrest : Nested commas rest) :
    Nested commas (text ++ rest) := by
  induction h with
  | nil => exact hrest
  | byte hquote hopening hclosing hcomma _ ih =>
    exact .byte hquote hopening hclosing hcomma (ih hrest)
  | quoted hq hbody _ ih =>
    rw [List.append_assoc]
    exact .quoted hq hbody (ih hrest)
  | bracketed hpair hinner _ _ ih =>
    rw [List.append_assoc]
    exact .bracketed hpair hinner (ih hrest)

theorem ne_backslash_of_isQuote (h : isQuote q = true) : q ≠ '\\' := by
  rintro rfl
  cases h

/-! ## The closing parenthesis -/

section ClosingParenthesis

open closeDistance (go)

variable {opening closing : UInt8}

theorem closeDistance_go_escape (depth i : Nat) :
    go opening closing depth (some q) i ('\\' :: b :: rest)
      = go opening closing depth (some q) (i + 2) rest := by
  rw [go, if_pos rfl]

theorem closeDistance_go_byte (hb : b ≠ '\\') (depth i : Nat) :
    go opening closing depth (some q) i (b :: rest)
      = go opening closing depth (if b = q then none else some q) (i + 1) rest := by
  cases rest <;> simp [go, hb]

theorem closeDistance_go_quoted (hq : isQuote q = true) (h : Quoted q body) (depth i : Nat) :
    go opening closing depth (some q) i (body ++ q :: rest)
      = go opening closing depth none (i + body.length + 1) rest := by
  induction h generalizing i with
  | nil =>
    rw [List.nil_append, closeDistance_go_byte (ne_backslash_of_isQuote hq), if_pos rfl]
    rfl
  | escaped h ih =>
    rw [List.cons_append, List.cons_append, closeDistance_go_escape, ih, List.length_cons,
      List.length_cons]
    congr 1
    omega
  | byte hne hb h ih =>
    rw [List.cons_append, closeDistance_go_byte hb, if_neg hne, ih, List.length_cons]
    congr 1
    omega

/-- No parenthesis of a nested text closes one that was opened before. -/
theorem closeDistance_go_nested (h : Nested commas text) (depth i : Nat) :
    go '(' ')' depth none i (text ++ rest) = go '(' ')' depth none (i + text.length) rest := by
  -- By induction on the nesting: every part leaves the depth as it found it.
  induction h generalizing depth i rest with
  | nil => rfl
  | @byte commas b text hquote hopening hclosing hcomma h ih =>
    have hopen : b ≠ '(' := by rintro rfl; cases hopening
    have hclose : b ≠ ')' := by rintro rfl; cases hclosing
    rw [List.cons_append, go, hquote, if_neg Bool.false_ne_true, if_neg hopen, if_neg hclose, ih,
      List.length_cons]
    congr 1
    omega
  | @quoted commas q body text hq hbody h ih =>
    rw [List.cons_append, List.cons_append, List.append_assoc, List.cons_append, go, if_pos hq,
      closeDistance_go_quoted hq hbody, ih, List.length_cons, List.length_append, List.length_cons]
    congr 1
    omega
  | @bracketed commas pair inner text hpair hinner h ihinner ih =>
    -- to this scanner brackets that are no parentheses are bytes like others
    have hother (b : UInt8) (hb : b ≠ '(' ∧ b ≠ ')' ∧ isQuote b = false) (depth i : Nat)
        (rest : Bytes) :
        go '(' ')' depth none i (b :: rest) = go '(' ')' depth none (i + 1) rest := by
      rw [go, hb.2.2, if_neg Bool.false_ne_true, if_neg hb.1, if_neg hb.2.1]
    have hlength : i + (pair.1 :: (inner ++ pair.2 :: text)).length
        = i + 1 + inner.length + 1 + text.length := by
      simp only [List.length_cons, List.length_append]
      omega
    simp only [List.cons_append, List.append_assoc, hlength]
    simp only [brackets, List.mem_cons, List.not_mem_nil, or_false] at hpair
    -- parentheses count, the other two pairs do not
    rcases hpair with rfl | rfl | rfl
    · rw [go, if_neg (by decide), if_pos rfl, ihinner, go, if_neg (by decide), if_neg (by decide),
        if_pos rfl, if_neg (Nat.succ_ne_zero depth), ih]
      rfl
    · rw [hother _ (by decide), ihinner, hother _ (by decide), ih]
    · rw [hother _ (by decide), ihinner, hother _ (by decide), ih]

end ClosingParenthesis

/-! ## The commas -/

section Commas

open splitParams (go)

variable {depth : Int}

theorem splitParams_go_escape (current : Bytes) :
    go depth (some q) current ('\\' :: b :: rest)
      = go depth (some q) (b :: '\\' :: current) rest := by
  rw [go, if_pos rfl]

theorem splitParams_go_byte (hb : b ≠ '\\') (current : Bytes) :
    go depth (some q) current (b :: rest)
      = go depth (if b = q then none else some q) (b :: current) rest := by
  cases rest <;> simp [go, hb]

theorem splitParams_go_quoted (hq : isQuote q = true) (h : Quoted q body) (current : Bytes) :
    go depth (some q) current (body ++ q :: rest)
      = go depth none (q :: (body.reverse ++ current)) rest := by
  induction h generalizing current with
  | nil =>
    rw [List.nil_append, splitParams_go_byte (ne_backslash_of_isQuote hq), if_pos rfl]
    rfl
  | escaped h ih =>
    rw [List.cons_append, List.cons_append, splitParams_go_escape, ih]
    simp
  | byte hne hb h ih =>
    rw [List.cons_append, splitParams_go_byte hb, if_neg hne, ih]
    simp

/-- Brackets of both kinds are no quotes, and an opening one is no closing one. -/
theorem isBracket_of_mem_brackets : ∀ pair ∈ brackets,
    isQuote pair.1 = false ∧ isQuote pair.2 = false ∧ isOpening pair.1 = true
      ∧ isOpening pair.2 = false ∧ isClosing pair.2 = true := by
  simp only [brackets, List.forall_mem_cons]
  exact ⟨by decide, by decide, by decide, List.forall_mem_nil _⟩

/-- No comma of a nested text ends a parameter. -/
theorem splitParams_go_nested (h : Nested commas text) (hdepth : 0 ≤ depth)
    (hcommas : commas = true → 0 < depth) (current : Bytes) :
    go depth none current (text ++ rest) = go depth none (text.reverse ++ current) rest := by
  induction h generalizing depth current rest with
  | nil => rfl
  | @byte commas b text hquote hopening hclosing hcomma h ih =>
    have hgoes : (decide (b = ',') && decide (depth = 0)) = false := by
      by_cases hb : b = ','
      · have := hcommas (hcomma hb)
        simp [show depth ≠ 0 by omega]
      · simp [hb]
    rw [List.cons_append, go, hquote, hopening, hclosing, hgoes]
    simp only [Bool.false_eq_true, if_false, ih hdepth hcommas, List.reverse_cons,
      List.append_assoc, List.singleton_append]
  | @quoted commas q body text hq hbody h ih =>
    rw [List.cons_append, List.cons_append, List.append_assoc, List.cons_append, go, if_pos hq,
      splitParams_go_quoted hq hbody, ih hdepth hcommas]
    simp
  | @bracketed commas pair inner text hpair hinner h ihinner ih =>
    obtain ⟨hquote, hquote', hopening, hopening', hclosing⟩ := isBracket_of_mem_brackets pair hpair
    rw [List.cons_append, List.cons_append, List.append_assoc, List.cons_append, go, hquote,
      hopening]
    simp only [Bool.false_eq_true, if_false, if_true]
    rw [ihinner (by omega) (fun _ => by omega), go, hquote', hopening', hclosing]
    simp only [Bool.false_eq_true, if_false, if_true, Int.add_sub_cancel]
    rw [ih hdepth hcommas]
    simp

end Commas

/-! ## Lists of parameters -/

/-- A parameter that can be written in a list of them. -/
structure Parameter (p : Bytes) : Prop where
  nonempty : p ≠ []
  trimmed : p.trimBlank = p
  line : ∀ b ∈ p, b ≠ '\r' ∧ b ≠ '\n'
  nested : Nested false p

theorem trimBlank_cons_space (text : Bytes) : Bytes.trimBlank (' ' :: text) = text.trimBlank := by
  rw [Bytes.trimBlank, Bytes.glyphs_cons_ascii (by decide), List.dropWhile_cons_of_pos (by decide)]
  rfl

theorem splitParams_go_comma (current text : Bytes) :
    splitParams.go 0 none current ((',' : UInt8) :: (' ' : UInt8) :: text)
      = Bytes.trimBlank current.reverse :: splitParams.go 0 none [(' ' : UInt8)] text := by
  rw [splitParams.go, if_neg (by decide), if_neg (by decide), if_neg (by decide),
    if_pos (by decide), splitParams.go, if_neg (by decide), if_neg (by decide), if_neg (by decide),
    if_neg (by decide)]

/-- A list of parameters behind another one, with a comma in front of each. -/
def behind (ps : List Bytes) : Bytes := ps.flatMap ((", " : Bytes) ++ ·)

theorem behind_cons (p : Bytes) (ps : List Bytes) :
    behind (p :: ps) = (',' : UInt8) :: (' ' : UInt8) :: (p ++ behind ps) := by
  rw [behind, List.flatMap_cons, List.append_assoc]
  rfl

theorem join_cons (p : Bytes) (ps : List Bytes) : Bytes.join ", " (p :: ps) = p ++ behind ps :=
  Bytes.join_cons _ p ps

/-- Behind a parameter the further ones are read as they are. -/
theorem splitParams_go_behind {ps : List Bytes} (hps : ∀ p ∈ ps, Parameter p) (current : Bytes) :
    splitParams.go 0 none current (behind ps) = Bytes.trimBlank current.reverse :: ps := by
  induction ps generalizing current with
  | nil => rfl
  | cons p ps ih =>
    obtain ⟨hp, hps⟩ := List.forall_mem_cons.1 hps
    have hlead : (p.reverse ++ [(' ' : UInt8)]).reverse = (' ' : UInt8) :: p := by simp
    rw [behind_cons, splitParams_go_comma, splitParams_go_nested hp.nested (Int.le_refl 0)
      (fun h => absurd h Bool.false_ne_true), ih hps, hlead, trimBlank_cons_space, hp.trimmed]

/-- A list of parameters is split into these parameters. -/
theorem splitParams_join {ps : List Bytes} (hne : ps ≠ []) (hps : ∀ p ∈ ps, Parameter p) :
    splitParams (Bytes.join ", " ps) = ps := by
  obtain ⟨p, ps, rfl⟩ := List.exists_cons_of_ne_nil hne
  obtain ⟨hp, hps⟩ := List.forall_mem_cons.1 hps
  have hdark : (Bytes.join ", " (p :: ps)).trimBlank ≠ [] := by
    cases ps with
    | nil => exact hp.trimmed.symm ▸ hp.nonempty
    | cons p' ps =>
      refine Bytes.trimBlank_ne_nil (a := ',') (by decide) (by decide) ?_
      rw [join_cons, behind_cons]
      exact List.mem_append_right _ List.mem_cons_self
  rw [splitParams, if_neg (by simpa using hdark), join_cons,
    splitParams_go_nested hp.nested (Int.le_refl 0) (fun h => absurd h Bool.false_ne_true),
    splitParams_go_behind hps, List.append_nil, List.reverse_reverse, hp.trimmed]

theorem nested_behind {ps : List Bytes} (hps : ∀ p ∈ ps, Parameter p) :
    Nested true (behind ps) := by
  induction ps with
  | nil => exact .nil
  | cons p ps ih =>
    obtain ⟨hp, hps⟩ := List.forall_mem_cons.1 hps
    rw [behind_cons]
    exact .byte (by decide) (by decide) (by decide) (fun _ => rfl)
      (.byte (by decide) (by decide) (by decide) (fun _ => rfl) (hp.nested.loosen.append (ih hps)))

/-- A list of parameters is nested, with its commas. -/
theorem nested_join {ps : List Bytes} (hps : ∀ p ∈ ps, Parameter p) :
    Nested true (Bytes.join ", " ps) := by
  cases ps with
  | nil => exact .nil
  | cons p ps =>
    obtain ⟨hp, hps⟩ := List.forall_mem_cons.1 hps
    rw [join_cons]
    exact hp.nested.loosen.append (nested_behind hps)

/-- A list of parameters stands on one line. -/
theorem plain_join {ps : List Bytes} (hps : ∀ p ∈ ps, Parameter p) :
    ∀ b ∈ Bytes.join ", " ps, Cursor.isPlain b = true := by
  have hparameter {p : Bytes} (hp : Parameter p) : ∀ b ∈ p, Cursor.isPlain b = true :=
    fun b hb => by simpa [Cursor.isPlain] using hp.line b hb
  have hbehind {ps : List Bytes} (hps : ∀ p ∈ ps, Parameter p) :
      ∀ b ∈ behind ps, Cursor.isPlain b = true := by
    intro b hb
    obtain ⟨p, hp, hb⟩ := List.mem_flatMap.1 hb
    rcases List.mem_append.1 hb with hb | hb
    · exact List.all_eq_true.1 (show (", " : Bytes).all Cursor.isPlain = true by decide) b hb
    · exact hparameter (hps p hp) b hb
  cases ps with
  | nil => exact List.forall_mem_nil _
  | cons p ps =>
    obtain ⟨hp, hps⟩ := List.forall_mem_cons.1 hps
    rw [join_cons]
    intro b hb
    rcases List.mem_append.1 hb with hb | hb
    · exact hparameter hp b hb
    · exact hbehind hps b hb

/-! ## Attribute lines -/

/-- The name of an attribute: a letter or an underscore, and behind it also digits and dashes. -/
structure AttributeName (name : Bytes) : Prop where
  start : isNameStart (name.headD 0) = true
  part : ∀ b ∈ name.tail, isNamePart b = true

theorem AttributeName.exists_cons {name : Bytes} (h : AttributeName name) :
    ∃ b more, name = b :: more ∧ isNameStart b = true ∧ ∀ b ∈ name, isNamePart b = true := by
  cases name with
  | nil => exact absurd h.start (by decide)
  | cons b more =>
    have hb : isNamePart b = true := by
      rw [isNamePart, show isNameStart b = true from h.start]
      rfl
    exact ⟨b, more, rfl, h.start, List.forall_mem_cons.2 ⟨hb, h.part⟩⟩

/-- An attribute as it is written with its parameters. -/
def attributeSource (name : Bytes) (ps : List Bytes) : Bytes :=
  "@" ++ name ++ "(" ++ Bytes.join ", " ps ++ ")"

theorem attributeSource_append (name : Bytes) (ps : List Bytes) (rest : Bytes) :
    attributeSource name ps ++ rest
      = ('@' : UInt8)
        :: (name ++ ('(' : UInt8) :: (Bytes.join ", " ps ++ (')' : UInt8) :: rest)) := by
  simp only [attributeSource, List.append_assoc]
  rfl

theorem length_attributeSource (name : Bytes) (ps : List Bytes) :
    (attributeSource name ps).length = 1 + name.length + ((Bytes.join ", " ps).length + 2) := by
  have hsource := attributeSource_append name ps []
  rw [List.append_nil] at hsource
  rw [hsource]
  simp only [List.length_cons, List.length_append, List.length_nil]
  omega

namespace Parse

variable {f : File} {s : ParserState} {name args e t ending below : Bytes} {ps : List Bytes}

/-- Nested parameters are read up to the parenthesis that closes them. -/
theorem ends_parameters_nested (hnested : Nested true args)
    (hplain : ∀ b ∈ args, Cursor.isPlain b = true)
    (h : s.lexer.cursor.Before f (('(' : UInt8) :: (args ++ (')' : UInt8) :: rest)))
    (hrest : s.lexer.layout.Below rest below) :
    Ends parameters s fun r s' => r = (args, .parsed)
      ∧ s' = { s with lexer := s.lexer.moveTo (s.lexer.cursor.offset + (args.length + 2)) } := by
  have hinner : s.lexer.cursor.next.Before f (args ++ (')' : UInt8) :: rest) := h.before_next
  have hoffset : s.lexer.cursor.next.offset = s.lexer.cursor.offset + 1 := by rw [h.next]
  have hline : s.lexer.textEnd = s.lexer.cursor.next.offset + (args ++ [(')' : UInt8)]).length := by
    have hplain' : ∀ b ∈ ('(' : UInt8) :: (args ++ [(')' : UInt8)]), Cursor.isPlain b = true := by
      simp only [List.forall_mem_cons, List.forall_mem_append, List.not_mem_nil]
      exact ⟨by decide, hplain, by decide, fun _ h => h.elim⟩
    have hwhole : s.lexer.cursor.Before f ((('(' : UInt8) :: (args ++ [(')' : UInt8)])) ++ rest) := by
      simpa using h
    rw [(Lexer.line_of_below hwhole hplain' hrest).1, hoffset, List.length_cons]
    omega
  have hclose : s.lexer.cursor.next.closeOffset? '(' ')' s.lexer.textEnd
      = some (s.lexer.cursor.next.offset + args.length) := by
    have hargs : s.lexer.cursor.next.Before f ((args ++ [(')' : UInt8)]) ++ rest) := by
      simpa using hinner
    rw [Cursor.closeOffset?, hline, hargs.slice, closeDistance, closeDistance_go_nested hnested,
      closeDistance.go, if_neg (by decide), if_neg (by decide), if_pos rfl, if_pos rfl, Nat.zero_add]
    rfl
  have hend : s.lexer.cursor.next.offset + args.length + 1
      = s.lexer.cursor.offset + (args.length + 2) := by
    rw [hoffset]
    omega
  simp only [parameters, ends_bind, ends_lexer, hclose, ends_moveTo, ends_pure, hinner.slice, hend]
  exact ⟨trivial, trivial⟩

/-- An attribute is read as it is written. -/
theorem ends_takeAttribute_source (hname : AttributeName name) (hne : ps ≠ [])
    (hps : ∀ p ∈ ps, Parameter p) (h : s.lexer.cursor.Before f (attributeSource name ps ++ rest))
    (hrest : s.lexer.layout.Below rest below) :
    let start := s.lexer.cursor.offset
    let stop := start + (attributeSource name ps).length
    Ends takeAttribute s fun r s' =>
      r = some (⟨name, some ps, Bytes.join ", " ps, ⟨f.id, start, stop⟩⟩, .parsed)
        ∧ s' = { s with lexer := s.lexer.moveTo stop } := by
  intro start stop
  -- the name, and then the parameters in parentheses, each a cursor further on
  obtain ⟨b, more, hcons, hstart, hpart⟩ := hname.exists_cons
  rw [attributeSource_append] at h
  have hnext : s.lexer.cursor.next = (s.lexer.moveTo (start + 1)).cursor := h.next
  have hnamed : (s.lexer.moveTo (start + 1)).cursor.Before f
      (name ++ ('(' : UInt8) :: (Bytes.join ", " ps ++ (')' : UInt8) :: rest)) :=
    h.move (t := [('@' : UInt8)])
  have hparen : (s.lexer.moveTo (start + 1 + name.length)).cursor.Before f
      (('(' : UInt8) :: (Bytes.join ", " ps ++ (')' : UInt8) :: rest)) := hnamed.move
  have hpeek : (s.lexer.moveTo (start + 1)).cursor.peek = b := by
    rw [hcons] at hnamed
    exact hnamed.peek
  have hskip : (s.lexer.moveTo (start + 1)).cursor.skipWhile isNamePart
      = (s.lexer.moveTo (start + 1 + name.length)).cursor := by
    rw [Cursor.skipWhile, hnamed.runLength, List.takeWhile_append_of_pos hpart,
      List.takeWhile_cons_of_neg (by decide), List.append_nil]
    rfl
  have hread : s.lexer.cursor.slice (s.lexer.moveTo (start + 1)).cursor.offset
      (s.lexer.moveTo (start + 1 + name.length)).cursor.offset = name := hnamed.slice
  simp only [takeAttribute, ends_bind, ends_cursor, hnext, h.peek, hpeek, hstart, hskip, hread,
    hparen.peek, bne_self_eq_false, Bool.not_true, Bool.or_self, Bool.false_eq_true, if_false,
    if_true, ends_moveTo]
  refine (ends_parameters_nested (s := { s with lexer := s.lexer.moveTo (start + 1 + name.length) })
    (nested_join hps) (plain_join hps) hparen hrest).imp fun r s' hr => ?_
  obtain ⟨rfl, rfl⟩ := hr
  have hstop : start + 1 + name.length + ((Bytes.join ", " ps).length + 2) = stop := by
    show _ = start + (attributeSource name ps).length
    rw [length_attributeSource]
    omega
  simp only [ends_offset, ends_pure, splitParams_join hne hps]
  rw [← hstop, ← h.cursor.file]
  exact ⟨rfl, rfl⟩

/-- An attribute that is alone on its line is read with the line. -/
theorem ends_attributeLine_source (hname : AttributeName name) (hne : ps ≠ [])
    (hps : ∀ p ∈ ps, Parameter p) (h : s.lexer.cursor.Before f (attributeSource name ps ++ rest))
    (hrest : s.lexer.layout.Below rest below) :
    let start := s.lexer.cursor.offset
    let stop := start + (attributeSource name ps).length
    Ends attributeLine s fun r s' =>
      r = some (⟨name, some ps, Bytes.join ", " ps, ⟨f.id, start, stop⟩⟩, .parsed)
        ∧ s'.log = s.log ∧ s'.lexer.layout = s.lexer.layout ∧ s'.lexer.cursor.Before f below := by
  intro start stop
  have hindent : s.lexer.skipIndent = { s.lexer with atLineStart := false } := by
    rw [attributeSource_append] at h
    exact Lexer.skipIndent_of_text h (by decide)
  simp only [attributeLine, ends_bind, ends_get, ends_mapLexer, hindent]
  refine (ends_takeAttribute_source (s := { s with lexer := { s.lexer with atLineStart := false } })
    hname hne hps h hrest).imp fun r s' hr => ?_
  obtain ⟨rfl, rfl⟩ := hr
  generalize hmoved : Lexer.moveTo { s.lexer with atLineStart := false } stop = l
  have hlayout : l.layout = s.lexer.layout := hmoved ▸ rfl
  have hend : l.cursor.Before f ([] ++ rest) := hmoved ▸ h.move
  have hspaces : l.cursor.skipWhile Bytes.isGap = l.cursor := by
    rw [Cursor.skipWhile, hend.runLength, List.nil_append, hrest.takeWhile_isGap]
    rfl
  obtain ⟨htext, hbelow⟩ := Lexer.line_of_below hend (List.forall_mem_nil _) (hlayout ▸ hrest)
  simp only [skipSpaces, ends_bind, ends_mapCursor, ends_offset, ends_textEnd, hspaces, htext,
    List.length_nil, Nat.add_zero, if_true, finishLine, ends_mapLexer, ends_pure]
  exact ⟨rfl, trivial, l.skipLine_layout.trans hlayout, hbelow⟩

/-- The attribute line and the line of text behind it. -/
theorem ends_attributeLines_source (hname : AttributeName name) (hne : ps ≠ [])
    (hps : ∀ p ∈ ps, Parameter p) (h : s.lexer.cursor.Before f (attributeSource name ps ++ rest))
    (hrest : s.lexer.layout.Below rest (e ++ ending)) (hline : PlainLine e t) (fuel : Nat) :
    let start := s.lexer.cursor.offset
    let stop := start + (attributeSource name ps).length
    Ends (attributeLines (fuel + 1) 0) s fun r s' =>
      r = ([⟨name, some ps, Bytes.join ", " ps, ⟨f.id, start, stop⟩⟩], .parsed)
        ∧ s'.log = s.log ∧ s'.lexer.layout = s.lexer.layout
        ∧ s'.lexer.cursor.Before f (e ++ ending) := by
  intro start stop
  have hat := attributeSource_append name ps rest ▸ h
  simp only [attributeLines, ends_bind, ends_mapLexer, ends_lexer,
    Lexer.skipBlankLines_of_text hat (by decide) (by decide),
    Lexer.notOutdented_of_text hat (by decide), Bool.false_eq_true, if_false]
  refine (ends_attributeLine_source hname hne hps h hrest).imp fun r s' hr => ?_
  obtain ⟨rfl, hlog, hlayout, hbelow⟩ := hr
  simp only [ends_bind]
  refine (ends_attributeLines_plainLine hline hbelow fuel).imp fun r s'' hr => ?_
  obtain ⟨rfl, rfl⟩ := hr
  exact ⟨rfl, hlog, hlayout, hbelow⟩

end Parse

open Parse

/-- An attribute line decodes what it encodes: a file of fewer than 2^32 bytes that is the line
`@name(p₁, …, pₙ)` and a plain line of text is read without reports as one paragraph, whose only
attribute has this name and these parameters in this order.  Between quotes and brackets a parameter
may hold commas and parentheses. -/
theorem parse_attributeSource {f : File} (small : f.size < Word.modulus) {name : Bytes}
    (hname : AttributeName name) {ps : List Bytes} (hne : ps ≠ []) (hps : ∀ p ∈ ps, Parameter p)
    {e t : Bytes} (hline : PlainLine e t) {layout : Layout} {nl nl' : Bytes}
    (hnl : layout.Breaks nl) (hnl' : nl' = [] ∨ layout.Breaks nl')
    (hcontent : f.bytes = attributeSource name ps ++ nl ++ e ++ nl') (maxErrors : Nat) :
    let stop := (attributeSource name ps).length
    let a : Attribute := ⟨name, some ps, Bytes.join ", " ps, ⟨f.id, 0, stop⟩⟩
    let span : Span := ⟨f.id, stop + nl.length, stop + nl.length + e.length⟩
    parse f layout maxErrors
      = ⟨⟨f.id, [.paragraph { text := ⟨[], t, span⟩, attrs := [a], span }]⟩, .parsed, []⟩ := by
  intro stop a span
  have hcontent' : f.bytes = attributeSource name ps ++ (nl ++ (e ++ nl')) := by
    rw [hcontent]
    simp only [List.append_assoc]
  have hbefore : (Lexer.ofFile f layout).cursor.Before f
      (attributeSource name ps ++ (nl ++ (e ++ nl'))) :=
    ⟨⟨rfl, rfl, rfl, Nat.zero_le _, small⟩, hcontent'⟩
  have hend : layout.Below nl' [] := by
    rcases hnl' with rfl | hnl'
    · exact .last
    · exact List.append_nil nl' ▸ .broken hnl'
  -- behind the attribute line stands the plain line, from which the paragraph is read
  have hattrs := (ends_attributeLines_source (s := { lexer := .ofFile f layout }) hname hne hps
    hbefore (.broken hnl) hline f.size).imp (Q := fun r s => r = ([a], .parsed) ∧ s.log = #[]
      ∧ s.lexer.cursor.offset = stop + nl.length ∧ s.lexer.cursor.Before f (e ++ nl')
      ∧ s.lexer.layout.Below nl' []) fun r s hr => by
    obtain ⟨hr, hlog, hlayout, hbelow⟩ := hr
    have hoffset : s.lexer.cursor.offset = stop + nl.length := by
      have hsize := hbefore.offset_add
      have hsize' := hbelow.offset_add
      simp only [List.length_append] at hsize hsize'
      have hzero : (Lexer.ofFile f layout).cursor.offset = 0 := rfl
      omega
    have hread : r = ([a], .parsed) :=
      hr.trans (by simp [a, stop, Lexer.ofFile, Cursor.ofFile, Cursor.ofContent])
    exact ⟨hread, hlog, hoffset, hbelow, by rw [hlayout]; exact hend⟩
  exact parse_plainLine small hline (hcontent'.trans (attributeSource_append _ _ _)) (by decide)
    (by decide) (by decide) hattrs maxErrors

/-- A comma in a bracket and one in quotes separate nothing. -/
theorem parse_attributeSource_commas :
    let ps : List Bytes := ["[a,b]", "\x22c,)\x22"]
    let f : File := File.ofBytes 1 "a.story" "@if([a,b], \x22c,)\x22)\nd"
    let line : Paragraph :=
      { text := ⟨[], "d", ⟨1, 18, 19⟩⟩
        attrs := [⟨"if", some ps, "[a,b], \x22c,)\x22", ⟨1, 0, 17⟩⟩]
        span := ⟨1, 18, 19⟩ }
    f.size < Word.modulus ∧ AttributeName "if" ∧ ps ≠ [] ∧ (∀ p ∈ ps, Parameter p)
      ∧ PlainLine "d" "d" ∧ Layout.Breaks {} "\n"
      ∧ f.bytes = attributeSource "if" ps ++ ("\n" : Bytes) ++ ("d" : Bytes) ++ []
      ∧ parse f {} 0 = ⟨⟨1, [.paragraph line]⟩, .parsed, []⟩ := by
  intro ps f line
  have small : f.size < Word.modulus := by decide +kernel
  have hname : AttributeName "if" := ⟨by decide, by decide +kernel⟩
  have hinner : Nested true ("a,b" : Bytes) :=
    .byte rfl rfl rfl (fun _ => rfl) <| .byte rfl rfl rfl (fun _ => rfl) <|
      .byte rfl rfl rfl (fun _ => rfl) .nil
  have hbody : Quoted 0x22 ("c,)" : Bytes) :=
    .byte (by decide) (by decide) <| .byte (by decide) (by decide) <|
      .byte (by decide) (by decide) .nil
  have hps : ∀ p ∈ ps, Parameter p := by
    simp only [ps, List.forall_mem_cons]
    refine ⟨⟨by decide, by decide +kernel, by decide +kernel, ?_⟩,
      ⟨by decide, by decide +kernel, by decide +kernel, ?_⟩, List.forall_mem_nil _⟩
    · have hpair : (('[' : UInt8), (']' : UInt8)) ∈ brackets := by decide
      exact .bracketed hpair hinner .nil
    · exact .quoted (by decide) hbody .nil
  have hline : PlainLine "d" "d" :=
    ⟨.plain (by decide) .nil, by decide, by decide +kernel, by decide +kernel⟩
  have hcontent : f.bytes = attributeSource "if" ps ++ ("\n" : Bytes) ++ ("d" : Bytes) ++ [] := by
    decide +kernel
  exact ⟨small, hname, List.cons_ne_nil _ _, hps, hline, .feed rfl, hcontent,
    parse_attributeSource small hname (List.cons_ne_nil _ _) hps hline (.feed rfl) (.inl rfl)
      hcontent 0⟩

end Markup

end Storyline
