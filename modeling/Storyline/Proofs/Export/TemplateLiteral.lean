import Mathlib.Data.List.Basic
import Storyline.Export.Program
import Storyline.Markup.Parser
import Storyline.Markup.Walk

/-!
# Template literals read back

A template literal is read by three rules: a backslash makes the next byte literal, `$` before an
opening brace starts a substitution, and a backquote ends the literal.  `readLiteral` reads by these
rules alone.

What `template` writes is cut into atoms: literal bytes with or without a backslash, and
substitutions.  Atoms are read back one by one, unless a `$` without a backslash stands right before
an opening brace.  Escaping never leaves such a pair inside one literal run.  It can arise where a
join, which writes nothing, stands between two runs, and nowhere else: `template_reads_back_iff`
says exactly when a text is read back.
-/

namespace Storyline.Program

open Markup (Inline Text Style isQuote)
open Export (Assigned ScriptVariable)

/-! ## Reading template literals -/

/-- A literal byte or a substitution. -/
inductive Piece where
  | literal (b : UInt8)
  | substitution (code : Bytes)
deriving DecidableEq, Repr, Inhabited

mutual

/-- Reads up to the backquote that ends the literal; gives the pieces and what stands behind. -/
def readText : Bytes → Option (List Piece × Bytes)
  | [] => none
  | b :: rest =>
    if b = 0x60 then some ([], rest)
    else if b = '\\' then
      match rest with
      | [] => none
      | c :: rest => (readText rest).map fun r => (.literal c :: r.1, r.2)
    else
      match rest with
      | [] => none
      | c :: rest =>
        if b = '$' && c = 0x7B then readCode 0 none [] rest
        else (readText (c :: rest)).map fun r => (.literal b :: r.1, r.2)

/-- Reads on inside a substitution, `depth` braces deep and inside `quote`, up to the brace that
closes it; `code` is what was read of it. -/
def readCode (depth : Nat) (quote : Option UInt8) (code : Bytes) :
    Bytes → Option (List Piece × Bytes)
  | [] => none
  | b :: rest =>
    match quote with
    | some q =>
      if b = '\\' then
        match rest with
        | [] => none
        | c :: rest => readCode depth quote (code ++ [b, c]) rest
      else readCode depth (if b = q then none else some q) (code ++ [b]) rest
    | none =>
      if isQuote b then readCode depth (some b) (code ++ [b]) rest
      else if b = 0x7B then readCode (depth + 1) none (code ++ [b]) rest
      else if b = 0x7D then
        if depth = 0 then (readText rest).map fun r => (.substitution code :: r.1, r.2)
        else readCode (depth - 1) none (code ++ [b]) rest
      else readCode depth none (code ++ [b]) rest

end

/-! ### One step of reading -/

section Steps

variable (b : UInt8) (depth : Nat) (code rest : Bytes)

theorem readText_backquote : readText (0x60 :: rest) = some ([], rest) := by
  rw [readText.eq_def]
  rfl

theorem readText_escaped :
    readText ('\\' :: b :: rest) = (readText rest).map fun r => (.literal b :: r.1, r.2) := rfl

theorem readText_dollar : readText ('$' :: 0x7B :: rest) = readCode 0 none [] rest := rfl

theorem readCode_open : readCode depth none code (0x7B :: rest)
    = readCode (depth + 1) none (code ++ [0x7B]) rest := rfl

theorem readCode_close : readCode (depth + 1) none code (0x7D :: rest)
    = readCode depth none (code ++ [0x7D]) rest := rfl

theorem readCode_end : readCode 0 none code (0x7D :: rest)
    = (readText rest).map fun r => (.substitution code :: r.1, r.2) := rfl

theorem readCode_quote : readCode depth none code (0x22 :: rest)
    = readCode depth (some 0x22) (code ++ [0x22]) rest := rfl

theorem readCode_hidden : readCode depth (some 0x22) code (0x5C :: b :: rest)
    = readCode depth (some 0x22) (code ++ [0x5C, b]) rest := rfl

/-- Inside a string any byte but a backslash is passed, and the quote ends the string. -/
theorem readCode_quoted {b : UInt8} (h : b ≠ '\\') : readCode depth (some 0x22) code (b :: rest)
    = readCode depth (if b = 0x22 then none else some 0x22) (code ++ [b]) rest := by
  rw [readCode.eq_def]
  simp only [h, if_false]

end Steps

/-- Reads a template literal; gives its pieces and what stands behind it. -/
def readLiteral : Bytes → Option (List Piece × Bytes)
  | 0x60 :: rest => readText rest
  | _ => none

/-! ## Atoms -/

/-- What is read as one piece: a literal byte as it is or behind a backslash, or a substitution. -/
inductive Atom where
  | plain (b : UInt8)
  | escaped (b : UInt8)
  | call (code : Bytes)
deriving DecidableEq, Repr, Inhabited

namespace Atom

/-- How an atom is written. -/
def bytes : Atom → Bytes
  | plain b => [b]
  | escaped b => ['\\', b]
  | call code => '$' :: 0x7B :: (code ++ [0x7D])

/-- What an atom is read as. -/
def piece : Atom → Piece
  | plain b | escaped b => .literal b
  | call code => .substitution code

/-- Whether an atom is read as its piece where nothing opens a substitution by accident. -/
def Fit : Atom → Prop
  | plain b => b ≠ 0x60 ∧ b ≠ '\\'
  | escaped _ => True
  | call code => ∀ rest, readCode 0 none [] (code ++ 0x7D :: rest)
      = (readText rest).map fun r => (.substitution code :: r.1, r.2)

/-- Whether no opening brace stands behind a `$` without a backslash; `dollar` says whether the
first atom stands behind one. -/
def unbroken (dollar : Bool) : List Atom → Bool
  | [] => true
  | a :: as => !(dollar && a = plain 0x7B) && unbroken (a = plain '$') as

/-- Whether the last atom is a `$` without a backslash; `dollar` says so of what stands before. -/
def endsInDollar (dollar : Bool) (as : List Atom) : Bool :=
  (as.getLast?.map fun a => decide (a = plain '$')).getD dollar

theorem unbroken_append (dollar : Bool) (as bs : List Atom) :
    unbroken dollar (as ++ bs) = (unbroken dollar as && unbroken (endsInDollar dollar as) bs) := by
  induction as generalizing dollar with
  | nil => rfl
  | cons a as ih =>
    have hlast : endsInDollar dollar (a :: as) = endsInDollar (a = plain '$') as := by
      unfold endsInDollar
      cases as with
      | nil => rfl
      | cons b bs => rw [List.getLast?_cons_cons, List.getLast?_cons]; rfl
    rw [List.cons_append, unbroken, unbroken, ih, hlast, Bool.and_assoc]

theorem unbroken_true (as : List Atom) :
    unbroken true as = (decide (as.head? ≠ some (plain 0x7B)) && unbroken false as) := by
  cases as with
  | nil => rfl
  | cons a as => simp [unbroken]

/-- Only a plain brace starts with a brace. -/
theorem head?_flatMap_bytes {as : List Atom} (k : Bytes) :
    (as.flatMap bytes ++ 0x60 :: k).head? = some 0x7B ↔ as.head? = some (plain 0x7B) := by
  cases as with
  | nil => simp
  | cons a as =>
    cases a with
    | plain b => simp [bytes]
    | escaped b =>
      simp only [List.flatMap_cons, bytes, List.cons_append, List.head?_cons, Option.some.injEq,
        reduceCtorEq, iff_false]
      decide
    | call code =>
      simp only [List.flatMap_cons, bytes, List.cons_append, List.head?_cons, Option.some.injEq,
        reduceCtorEq, iff_false]
      decide

theorem map_cons_eq_iff {x y : Piece} {r : Option (List Piece × Bytes)} {ps : List Piece}
    {k : Bytes} : (r.map fun r => (x :: r.1, r.2)) = some (y :: ps, k) ↔ x = y ∧ r = some (ps, k) := by
  cases r with
  | none => simp
  | some r =>
    obtain ⟨qs, l⟩ := r
    simp [and_assoc]

theorem readText_call {code : Bytes} (h : (call code).Fit) (rest : Bytes) :
    readText ((call code).bytes ++ rest)
      = (readText rest).map fun r => (.substitution code :: r.1, r.2) := by
  have hrest : (call code).bytes ++ rest = ('$' : UInt8) :: 0x7B :: (code ++ 0x7D :: rest) := by
    simp [bytes]
  rw [hrest, readText_dollar, h rest]

/-- A byte that needs no backslash is read as itself, unless it opens a substitution. -/
theorem readText_plain {b : UInt8} (h : (plain b).Fit) {rest : Bytes} (hrest : rest ≠ []) :
    readText (b :: rest) = if b = '$' ∧ rest.head? = some 0x7B then readCode 0 none [] rest.tail
      else (readText rest).map fun r => (.literal b :: r.1, r.2) := by
  cases rest with
  | nil => exact absurd rfl hrest
  | cons c rest =>
    rw [readText, if_neg h.1, if_neg h.2]
    simp

/-- What is read inside a substitution starts with a substitution. -/
theorem readCode_head {b : UInt8} {ps : List Piece} {k : Bytes} : {text : Bytes} → {depth : Nat} →
    {quote : Option UInt8} → {code : Bytes} →
    readCode depth quote code text ≠ some (.literal b :: ps, k)
  | [], depth, quote, code => by simp [readCode]
  | c :: text, depth, quote, code => by
    rw [readCode.eq_def]
    intro h
    dsimp only at h
    split at h
    · split at h
      · split at h
        · simp at h
        · exact readCode_head h
      · exact readCode_head h
    · split at h
      · exact readCode_head h
      · split at h
        · exact readCode_head h
        · split at h
          · split at h
            · simpa using (map_cons_eq_iff.1 h).1
            · exact readCode_head h
          · exact readCode_head h

/-- Atoms are read back one by one exactly if none of them opens a substitution by accident. -/
theorem readText_bytes_iff (k : Bytes) : (as : List Atom) → (∀ a ∈ as, a.Fit) →
    -- By induction on the atoms, the state being whether a dollar sign stands before them.
    (readText (as.flatMap bytes ++ 0x60 :: k) = some (as.map piece, k) ↔ unbroken false as = true)
  | [], _ => by
    rw [List.flatMap_nil, List.nil_append, readText_backquote]
    simp [unbroken]
  | a :: as, hfit => by
    have ih := readText_bytes_iff k as fun a ha => hfit a (List.mem_cons_of_mem _ ha)
    have ha : a.Fit := hfit a List.mem_cons_self
    rw [List.flatMap_cons, List.append_assoc, List.map_cons]
    cases a with
    | escaped b =>
      have hb : unbroken false (escaped b :: as) = unbroken false as := by simp [unbroken]
      rw [hb, ← ih]
      show readText ('\\' :: b :: _) = _ ↔ _
      rw [readText_escaped, map_cons_eq_iff]
      simp [piece]
    | call code =>
      have hb : unbroken false (call code :: as) = unbroken false as := by simp [unbroken]
      rw [hb, ← ih, readText_call ha, map_cons_eq_iff]
      simp [piece]
    | plain b =>
      have hb : unbroken false (plain b :: as) = unbroken (b = '$') as := by simp [unbroken]
      show readText (b :: (as.flatMap bytes ++ 0x60 :: k)) = _ ↔ _
      rw [hb, readText_plain ha (by simp)]
      simp only [head?_flatMap_bytes]
      -- behind a dollar sign only a bare opening brace matters
      by_cases hd : b = '$'
      · rw [decide_eq_true hd, unbroken_true]
        by_cases hbrace : as.head? = some (plain 0x7B)
        · simp only [hd, hbrace, and_self, if_true, ne_eq, not_true_eq_false, decide_false,
            Bool.false_and, Bool.false_eq_true, iff_false]
          exact readCode_head
        · simp only [hbrace, and_false, if_false, map_cons_eq_iff, ih]
          simp [piece, hbrace]
      · simp only [hd, false_and, if_false, map_cons_eq_iff, ih, decide_false]
        simp [piece]

end Atom

open Atom (unbroken endsInDollar)

/-! ## What stands in substitutions -/

/-- Whether reading a code inside a substitution leaves the depth as it is. -/
def Neutral (code : Bytes) : Prop :=
  ∀ depth before rest, readCode depth none before (code ++ rest)
    = readCode depth none (before ++ code) rest

theorem Neutral.nil : Neutral [] := fun _ _ _ => by simp

theorem Neutral.append {c d : Bytes} (hc : Neutral c) (hd : Neutral d) : Neutral (c ++ d) := by
  intro depth before rest
  rw [List.append_assoc, hc, hd, List.append_assoc]

/-- Whether a byte means nothing to the reader of a substitution. -/
def isInert (b : UInt8) : Bool := !isQuote b && b != 0x7B && b != 0x7D

theorem neutral_of_inert : {code : Bytes} → (∀ b ∈ code, isInert b = true) → Neutral code
  | [], _ => .nil
  | b :: code, h => by
    intro depth before rest
    have hb := h b List.mem_cons_self
    simp only [isInert, Bool.and_eq_true, Bool.not_eq_true', bne_iff_ne, ne_eq] at hb
    obtain ⟨⟨hq, ho⟩, hc⟩ := hb
    rw [List.cons_append, readCode.eq_def]
    simp only [hq, Bool.false_eq_true, if_false, ho, hc]
    rw [neutral_of_inert (fun b hb => h b (List.mem_cons_of_mem _ hb)), List.append_assoc]
    rfl

theorem neutral_of_all {code : Bytes} (h : code.all isInert = true) : Neutral code :=
  neutral_of_inert (List.all_eq_true.mp h)

theorem Neutral.braces {code : Bytes} (h : Neutral code) :
    Neutral (0x7B :: (code ++ [0x7D])) := by
  intro depth before rest
  rw [List.cons_append, readCode_open, List.append_assoc, h, List.singleton_append, readCode_close]
  simp

/-- A call is read as one substitution if what it is made of is neutral. -/
theorem Neutral.fit {code : Bytes} (h : Neutral code) : (Atom.call code).Fit := by
  intro rest
  rw [h, List.nil_append, readCode_end]

/-- Whether reading a text inside a double-quoted string leaves the string open. -/
def InString (text : Bytes) : Prop :=
  ∀ depth before rest, readCode depth (some 0x22) before (text ++ rest)
    = readCode depth (some 0x22) (before ++ text) rest

theorem InString.append {s t : Bytes} (hs : InString s) (ht : InString t) : InString (s ++ t) := by
  intro depth before rest
  rw [List.append_assoc, hs, ht, List.append_assoc]

theorem inString_of_forall : {text : Bytes} → (∀ b ∈ text, b ≠ 0x22 ∧ b ≠ 0x5C) → InString text
  | [], _ => fun _ _ _ => by simp
  | b :: text, h => by
    intro depth before rest
    obtain ⟨hq, hs⟩ := h b List.mem_cons_self
    rw [List.cons_append, readCode_quoted _ _ _ hs, if_neg hq]
    rw [inString_of_forall (fun b hb => h b (List.mem_cons_of_mem _ hb)), List.append_assoc]
    rfl

/-- A backslash hides the byte behind it. -/
theorem inString_escape (b : UInt8) {text : Bytes} (h : InString text) :
    InString (0x5C :: b :: text) := by
  intro depth before rest
  rw [List.cons_append, List.cons_append, readCode_hidden, h, List.append_assoc]
  rfl

theorem hexDigit_ne : ∀ n < 16, Bytes.hexDigit n ≠ 0x22 ∧ Bytes.hexDigit n ≠ 0x5C := by
  decide

theorem mem_hexPadded {b : UInt8} : (width : Nat) → {n : Nat} → b ∈ Bytes.hexPadded width n →
    b ≠ 0x22 ∧ b ≠ 0x5C
  | 0, _, h => by simp [Bytes.hexPadded] at h
  | width + 1, n, h => by
    obtain h | h := List.mem_append.1 h
    · exact mem_hexPadded width h
    · rw [List.mem_singleton.1 h]
      exact hexDigit_ne _ (Nat.mod_lt _ (by decide))

theorem inString_codeEscape (n : Nat) : InString (Json.codeEscape n) :=
  inString_escape 0x75 (inString_of_forall fun _ hb => mem_hexPadded 4 hb)

/-- The bytes of a character beyond ASCII are none of ASCII. -/
theorem mem_utf8EncodeChar {c : Char} {b : UInt8} (h : b ∈ String.utf8EncodeChar c) :
    128 ≤ b.toNat ∨ b.toNat = c.toNat := by
  have hc : c.val.toNat = c.toNat := rfl
  unfold String.utf8EncodeChar at h
  simp only [hc] at h
  repeat' split at h
  all_goals
    simp only [List.mem_cons, List.not_mem_nil, or_false] at h
    rcases h with rfl | rfl | rfl | rfl <;> simp only [UInt8.toNat_ofNat'] <;> omega

theorem inString_utf8EncodeChar {c : Char} (hq : c.toNat ≠ 0x22) (hs : c.toNat ≠ 0x5C) :
    InString (String.utf8EncodeChar c) := by
  refine inString_of_forall fun b hb => ?_
  obtain h | h := mem_utf8EncodeChar hb
  · constructor <;> rintro rfl <;> exact absurd h (by decide)
  · constructor <;> rintro rfl
    · exact hq h.symm
    · exact hs h.symm

theorem inString_spellGlyph (g : Glyph) : InString (Json.spellGlyph .plain g) := by
  have hnil : InString [] := inString_of_forall (by simp)
  cases g with
  | stray b => exact inString_utf8EncodeChar (c := Glyph.replacement) (by decide) (by decide)
  | char c =>
    simp only [Json.spellGlyph]
    -- the two bytes with a meaning of their own, the named escapes, the numbered ones, and the rest
    -- as it is
    by_cases hq : c.toNat = 0x22
    · rw [if_pos hq]
      exact inString_escape 0x22 hnil
    by_cases hs : c.toNat = 0x5C
    · rw [if_neg hq, if_pos hs]
      exact inString_escape 0x5C hnil
    rw [if_neg hq, if_neg hs]
    split
    · exact inString_escape 0x6E hnil
    split
    · exact inString_escape 0x72 hnil
    split
    · exact inString_escape 0x74 hnil
    split
    · exact inString_escape 0x62 hnil
    split
    · exact inString_escape 0x66 hnil
    split
    · exact inString_codeEscape _
    -- only the web flavour escapes more
    rw [if_neg (by simp)]
    exact inString_utf8EncodeChar hq hs

theorem inString_spell (s : Bytes) : InString (Json.spell .plain s) := by
  unfold Json.spell
  induction s.glyphs with
  | nil => exact inString_of_forall (by simp)
  | cons g gs ih => exact (inString_spellGlyph g).append ih

theorem neutral_quote (s : Bytes) : Neutral (quote s) := by
  intro depth before rest
  have hquote : quote s = 0x22 :: (Json.spell .plain s ++ [0x22]) := rfl
  rw [hquote, List.cons_append, readCode_quote, List.append_assoc, inString_spell,
    List.singleton_append, readCode_quoted _ _ _ (by decide), if_pos rfl]
  simp

theorem neutral_join {sep : Bytes} (hsep : Neutral sep) {items : List Bytes}
    (h : ∀ c ∈ items, Neutral c) : Neutral (Bytes.join sep items) := by
  have hmore : (rest : List Bytes) → (∀ c ∈ rest, Neutral c) → Neutral (rest.flatMap (sep ++ ·)) := by
    intro rest hrest
    induction rest with
    | nil => exact .nil
    | cons c rest ih =>
      rw [List.flatMap_cons]
      exact (hsep.append (hrest c List.mem_cons_self)).append
        (ih fun d hd => hrest d (List.mem_cons_of_mem _ hd))
  match items with
  | [] => exact .nil
  | [c] => exact h c List.mem_cons_self
  | c :: d :: rest =>
    exact (h c List.mem_cons_self).append (hmore _ fun e he => h e (List.mem_cons_of_mem _ he))

theorem neutral_listOf {items : List Bytes} (h : ∀ c ∈ items, Neutral c) :
    Neutral (listOf items) :=
  ((neutral_of_all (by decide)).append (neutral_join (neutral_of_all (by decide)) h)).append
    (neutral_of_all (by decide))

theorem neutral_recordOf {items : List Bytes} (h : ∀ c ∈ items, Neutral c) :
    Neutral (recordOf items) :=
  (neutral_join (neutral_of_all (by decide)) h).braces

theorem isInert_ofNat : ∀ n < 10, (Bytes.ofNat n).all isInert = true := by
  decide

theorem neutral_scriptVariables (vs : List ScriptVariable) : Neutral (scriptVariables vs) := by
  refine neutral_listOf fun c hc => ?_
  obtain ⟨v, -, rfl⟩ := List.mem_map.1 hc
  refine neutral_recordOf fun d hd => ?_
  obtain rfl | hd := List.mem_cons.1 hd
  · exact (neutral_of_all (by decide)).append (neutral_quote v.name)
  · obtain rfl := List.mem_singleton.1 hd
    have htag : v.kind.tag < 10 := by cases v.kind <;> simp [Variables.Kind.tag]
    exact (neutral_of_all (by decide)).append (neutral_of_all (isInert_ofNat _ htag))

/-! ## Texts as atoms -/

/-- The call that a script becomes. -/
def scriptCall (names : Names) (raw : Bytes) (vs : List ScriptVariable) : Bytes :=
  names.script ++ "(" ++ quote (rebuild raw) ++ "," ++ scriptVariables vs ++ ")"

/-- The atom of a byte in a literal run, with the byte behind it. -/
def runAtom (b : UInt8) (next : Option UInt8) : Atom :=
  if b = '\\' || b = 0x60 || (b = '$' && next = some 0x7B) then .escaped b else .plain b

/-- The atoms of a literal run. -/
def runAtoms : Bytes → List Atom
  | [] => []
  | b :: rest => runAtom b rest.head? :: runAtoms rest

/-- The atoms of a text that stands for itself. -/
def plainAtoms (s : Bytes) : List Atom := s.map .plain

mutual

/-- The atoms of an inline element. -/
def inlineAtoms (names : Names) (assigned : Assigned) : Inline → List Atom
  | .styled style parts tail _ _ =>
    plainAtoms ("<" ++ styleTag style ++ ">") ++ (partAtoms names assigned parts ++ runAtoms tail)
      ++ plainAtoms ("</" ++ styleTag style ++ ">")
  | .code raw _ _ => plainAtoms ("<" ++ "code" ++ ">") ++ runAtoms raw ++ plainAtoms ("</" ++ "code" ++ ">")
  | .join _ => []
  | .script raw inner _ => [.call (scriptCall names raw (assigned inner.start))]

/-- The atoms of literal runs and inline elements. -/
def partAtoms (names : Names) (assigned : Assigned) : List (Bytes × Inline) → List Atom
  | [] => []
  | (before, e) :: rest =>
    runAtoms before ++ inlineAtoms names assigned e ++ partAtoms names assigned rest

end

theorem bytes_runAtoms (s : Bytes) : (runAtoms s).flatMap Atom.bytes = escapeTemplate s := by
  induction s with
  | nil => rfl
  | cons b rest ih =>
    rw [runAtoms, runAtom, escapeTemplate, List.flatMap_cons, ih]
    split <;> rfl

theorem bytes_plainAtoms (s : Bytes) : (plainAtoms s).flatMap Atom.bytes = s := by
  induction s with
  | nil => rfl
  | cons b rest ih => exact congrArg (b :: ·) ih

mutual

theorem bytes_inlineAtoms (names : Names) (assigned : Assigned) : (e : Inline) →
    (inlineAtoms names assigned e).flatMap Atom.bytes = inline names assigned e
  | .styled style parts tail _ _ => by
    simp [inlineAtoms, inline, tagged, bytes_plainAtoms, bytes_runAtoms,
      bytes_partAtoms names assigned parts]
  | .code raw _ _ => by simp [inlineAtoms, inline, tagged, bytes_plainAtoms, bytes_runAtoms]
  | .join _ => by simp [inlineAtoms, inline]
  | .script raw inner _ => by
    have hend : (")\x7d" : Bytes) = (")" : Bytes) ++ [0x7D] := rfl
    have hstart : ("$\x7b" : Bytes) = [('$' : UInt8), 0x7B] := rfl
    rw [inlineAtoms, inline, hend, hstart]
    simp [Atom.bytes, scriptCall]

theorem bytes_partAtoms (names : Names) (assigned : Assigned) :
    (ps : List (Bytes × Inline)) →
    (partAtoms names assigned ps).flatMap Atom.bytes = textParts names assigned ps
  | [] => rfl
  | (before, e) :: rest => by
    simp [partAtoms, textParts, bytes_runAtoms, bytes_inlineAtoms names assigned e,
      bytes_partAtoms names assigned rest]

end

/-! ## What a text says -/

/-- Literal bytes. -/
def literals (s : Bytes) : List Piece := s.map .literal

mutual

/-- What an inline element says: a style is a pair of tags, a join nothing, a script a call. -/
def inlinePieces (names : Names) (assigned : Assigned) : Inline → List Piece
  | .styled style parts tail _ _ =>
    literals ("<" ++ styleTag style ++ ">") ++ (partPieces names assigned parts ++ literals tail)
      ++ literals ("</" ++ styleTag style ++ ">")
  | .code raw _ _ => literals ("<" ++ "code" ++ ">") ++ literals raw ++ literals ("</" ++ "code" ++ ">")
  | .join _ => []
  | .script raw inner _ => [.substitution (scriptCall names raw (assigned inner.start))]

/-- What literal runs and inline elements say. -/
def partPieces (names : Names) (assigned : Assigned) : List (Bytes × Inline) → List Piece
  | [] => []
  | (before, e) :: rest =>
    literals before ++ inlinePieces names assigned e ++ partPieces names assigned rest

end

/-- What a text says. -/
def textPieces (names : Names) (assigned : Assigned) (t : Text) : List Piece :=
  partPieces names assigned t.parts ++ literals t.tail

theorem pieces_runAtoms (s : Bytes) : (runAtoms s).map Atom.piece = literals s := by
  induction s with
  | nil => rfl
  | cons b rest ih =>
    rw [runAtoms, runAtom, literals, List.map_cons, List.map_cons, ih]
    split <;> rfl

theorem pieces_plainAtoms (s : Bytes) : (plainAtoms s).map Atom.piece = literals s := by
  rw [plainAtoms, List.map_map]
  rfl

mutual

theorem pieces_inlineAtoms (names : Names) (assigned : Assigned) : (e : Inline) →
    (inlineAtoms names assigned e).map Atom.piece = inlinePieces names assigned e
  | .styled style parts tail _ _ => by
    simp [inlineAtoms, inlinePieces, pieces_plainAtoms, pieces_runAtoms,
      pieces_partAtoms names assigned parts]
  | .code raw _ _ => by simp [inlineAtoms, inlinePieces, pieces_plainAtoms, pieces_runAtoms]
  | .join _ => by simp [inlineAtoms, inlinePieces]
  | .script raw inner _ => by simp [inlineAtoms, inlinePieces, Atom.piece]

theorem pieces_partAtoms (names : Names) (assigned : Assigned) :
    (ps : List (Bytes × Inline)) →
    (partAtoms names assigned ps).map Atom.piece = partPieces names assigned ps
  | [] => by simp [partAtoms, partPieces]
  | (before, e) :: rest => by
    simp [partAtoms, partPieces, pieces_runAtoms, pieces_inlineAtoms names assigned e,
      pieces_partAtoms names assigned rest]

end

/-! ## Every atom of a text is fit -/

theorem fit_runAtoms (s : Bytes) : ∀ a ∈ runAtoms s, a.Fit := by
  induction s with
  | nil => simp [runAtoms]
  | cons b rest ih =>
    rw [runAtoms, List.forall_mem_cons, runAtom]
    refine ⟨?_, ih⟩
    split
    · trivial
    · rename_i h
      simp only [Bool.or_eq_true, decide_eq_true_eq, not_or] at h
      exact ⟨h.1.2, h.1.1⟩

theorem fit_plainAtoms {s : Bytes} (htick : (0x60 : UInt8) ∉ s) (hslash : ('\\' : UInt8) ∉ s) :
    ∀ a ∈ plainAtoms s, a.Fit := by
  intro a ha
  obtain ⟨b, hb, rfl⟩ := List.mem_map.1 ha
  exact ⟨fun heq => htick (heq ▸ hb), fun heq => hslash (heq ▸ hb)⟩

theorem fit_call {names : Names} (hname : ∀ b ∈ names.script, isInert b = true) (raw : Bytes)
    (vs : List ScriptVariable) : (Atom.call (scriptCall names raw vs)).Fit := by
  refine Neutral.fit ?_
  exact (((((neutral_of_inert hname).append (neutral_of_all (by decide))).append
    (neutral_quote _)).append (neutral_of_all (by decide))).append
      (neutral_scriptVariables vs)).append (neutral_of_all (by decide))

mutual

theorem fit_inlineAtoms {names : Names} (hname : ∀ b ∈ names.script, isInert b = true)
    (assigned : Assigned) : (e : Inline) → ∀ a ∈ inlineAtoms names assigned e, a.Fit
  | .styled style parts tail _ _ => by
    have hopen : ∀ a ∈ plainAtoms ("<" ++ styleTag style ++ ">"), a.Fit :=
      fit_plainAtoms (by cases style <;> decide) (by cases style <;> decide)
    have hclose : ∀ a ∈ plainAtoms ("</" ++ styleTag style ++ ">"), a.Fit :=
      fit_plainAtoms (by cases style <;> decide) (by cases style <;> decide)
    simp only [inlineAtoms, List.forall_mem_append]
    exact ⟨⟨hopen, fit_partAtoms hname assigned parts, fit_runAtoms tail⟩, hclose⟩
  | .code raw _ _ => by
    simp only [inlineAtoms, List.forall_mem_append]
    exact ⟨⟨fit_plainAtoms (by decide) (by decide), fit_runAtoms raw⟩,
      fit_plainAtoms (by decide) (by decide)⟩
  | .join _ => by simp [inlineAtoms]
  | .script raw inner _ => by
    simp only [inlineAtoms, List.mem_singleton, forall_eq]
    exact fit_call hname raw _

theorem fit_partAtoms {names : Names} (hname : ∀ b ∈ names.script, isInert b = true)
    (assigned : Assigned) : (ps : List (Bytes × Inline)) →
    ∀ a ∈ partAtoms names assigned ps, a.Fit
  | [] => by simp [partAtoms]
  | (before, e) :: rest => by
    simp only [partAtoms, List.forall_mem_append]
    exact ⟨⟨fit_runAtoms before, fit_inlineAtoms hname assigned e⟩,
      fit_partAtoms hname assigned rest⟩

end

/-! ## Seams -/

/-- Whether a run ends in `$`; `dollar` says so of what stands before an empty one. -/
def runEndsInDollar (dollar : Bool) (run : Bytes) : Bool :=
  (run.getLast?.map fun (b : UInt8) => decide (b = '$')).getD dollar

mutual

/-- Whether nothing inside an inline element runs together to an opened substitution. -/
def isSeamlessInline : Inline → Bool
  | .styled _ parts tail _ _ => areSeamless false tail parts
  | .code .. | .join _ | .script .. => true

/-- Whether no run that ends in `$` stands before one that starts with a brace, with nothing but
joins between them; `dollar` says whether the first run stands behind a `$`. -/
def areSeamless (dollar : Bool) (tail : Bytes) : List (Bytes × Inline) → Bool
  | [] => !(dollar && tail.head? = some 0x7B)
  | (before, e) :: rest =>
    !(dollar && before.head? = some 0x7B) && isSeamlessInline e
      && areSeamless (e.kind = .join && runEndsInDollar dollar before) tail rest

end

/-- Whether no literal run of a text that ends in `$` stands before one that starts with an opening
brace, with nothing but joins between them. -/
def isSeamless (t : Text) : Bool := areSeamless false t.tail t.parts

theorem endsInDollar_append (dollar : Bool) (as bs : List Atom) :
    endsInDollar dollar (as ++ bs) = endsInDollar (endsInDollar dollar as) bs := by
  unfold endsInDollar
  rw [List.getLast?_append]
  cases bs.getLast? <;> rfl

theorem runAtom_eq_brace_iff {b : UInt8} {next : Option UInt8} :
    runAtom b next = .plain 0x7B ↔ b = 0x7B := by
  have hbrace : ¬(0x7B : UInt8) = '\\' ∧ ¬(0x7B : UInt8) = 0x60 ∧ ¬(0x7B : UInt8) = '$' := by
    decide
  unfold runAtom
  by_cases hb : b = 0x7B
  · simp [hb, hbrace]
  · split <;> simp [hb]

theorem runAtom_eq_dollar_iff {b : UInt8} {next : Option UInt8} :
    runAtom b next = .plain '$' ↔ b = '$' ∧ next ≠ some 0x7B := by
  have hdollar : ¬('$' : UInt8) = '\\' ∧ ¬('$' : UInt8) = 0x60 := by decide
  unfold runAtom
  by_cases hb : b = '$'
  · subst hb
    by_cases hn : next = some 0x7B <;> simp [hn, hdollar]
  · split <;> simp [hb]

theorem unbroken_runAtoms (dollar : Bool) (s : Bytes) :
    unbroken dollar (runAtoms s) = !(dollar && s.head? = some 0x7B) := by
  induction s generalizing dollar with
  | nil => simp [runAtoms, unbroken]
  | cons b rest ih =>
    -- inside a run, a `$` before a brace has its backslash
    have hinside : (!(decide (runAtom b rest.head? = .plain '$') && decide (rest.head? = some 0x7B)))
        = true := by
      rw [Bool.not_eq_true', Bool.and_eq_false_iff]
      by_cases hr : rest.head? = some 0x7B
      · exact .inl (decide_eq_false fun h => (runAtom_eq_dollar_iff.1 h).2 hr)
      · exact .inr (decide_eq_false hr)
    rw [runAtoms, unbroken, ih, hinside, Bool.and_true]
    simp [runAtom_eq_brace_iff]

theorem endsInDollar_runAtoms (dollar : Bool) (s : Bytes) :
    endsInDollar dollar (runAtoms s) = runEndsInDollar dollar s := by
  induction s generalizing dollar with
  | nil => rfl
  | cons b rest ih =>
    cases rest with
    | nil =>
      simp [runAtoms, endsInDollar, runEndsInDollar, runAtom_eq_dollar_iff]
    | cons c rest =>
      have hl : endsInDollar dollar (runAtoms (b :: c :: rest))
          = endsInDollar dollar (runAtoms (c :: rest)) := by
        simp [runAtoms, endsInDollar]
      have hr : runEndsInDollar dollar (b :: c :: rest) = runEndsInDollar dollar (c :: rest) := by
        simp [runEndsInDollar]
      rw [hl, hr, ih]

/-- A tag ends every seam. -/
theorem unbroken_open (dollar : Bool) (style : Style) :
    unbroken dollar (plainAtoms ("<" ++ styleTag style ++ ">")) = true ∧
      endsInDollar dollar (plainAtoms ("<" ++ styleTag style ++ ">")) = false := by
  cases dollar <;> cases style <;> decide

theorem unbroken_close (dollar : Bool) (style : Style) :
    unbroken dollar (plainAtoms ("</" ++ styleTag style ++ ">")) = true ∧
      endsInDollar dollar (plainAtoms ("</" ++ styleTag style ++ ">")) = false := by
  cases dollar <;> cases style <;> decide

theorem unbroken_code (dollar : Bool) :
    unbroken dollar (plainAtoms ("<" ++ "code" ++ ">")) = true ∧
      endsInDollar dollar (plainAtoms ("<" ++ "code" ++ ">")) = false ∧
      unbroken dollar (plainAtoms ("</" ++ "code" ++ ">")) = true ∧
      endsInDollar dollar (plainAtoms ("</" ++ "code" ++ ">")) = false := by
  cases dollar <;> decide

/-- Whether a `$` stands before what follows an inline element: only a join lets it through. -/
theorem endsInDollar_inlineAtoms (names : Names) (assigned : Assigned) (dollar : Bool)
    (e : Inline) :
    endsInDollar dollar (inlineAtoms names assigned e) = (e.kind = .join && dollar) := by
  cases e with
  | styled style parts tail inner span =>
    rw [inlineAtoms, endsInDollar_append, (unbroken_close _ style).2]
    cases style <;> simp [Inline.kind]
  | code raw inner span =>
    rw [inlineAtoms, endsInDollar_append, (unbroken_code _).2.2.2]
    simp [Inline.kind]
  | join span => simp [inlineAtoms, endsInDollar, Inline.kind]
  | script raw inner span => simp [inlineAtoms, endsInDollar, Inline.kind]

mutual

theorem unbroken_inlineAtoms (names : Names) (assigned : Assigned) (dollar : Bool) :
    (e : Inline) → unbroken dollar (inlineAtoms names assigned e) = isSeamlessInline e
  | .styled style parts tail _ _ => by
    rw [inlineAtoms, Atom.unbroken_append, Atom.unbroken_append, (unbroken_open dollar style).1,
      (unbroken_open dollar style).2, (unbroken_close _ style).1,
      unbroken_textAtoms names assigned false tail parts, isSeamlessInline, Bool.true_and,
      Bool.and_true]
  | .code raw _ _ => by
    rw [inlineAtoms, Atom.unbroken_append, Atom.unbroken_append, (unbroken_code dollar).1,
      (unbroken_code dollar).2.1, (unbroken_code _).2.2.1, unbroken_runAtoms]
    simp [isSeamlessInline]
  | .join _ => by simp [inlineAtoms, unbroken, isSeamlessInline]
  | .script raw inner _ => by simp [inlineAtoms, unbroken, isSeamlessInline]

/-- A text is seamless exactly if none of its atoms opens a substitution by accident. -/
theorem unbroken_textAtoms (names : Names) (assigned : Assigned) (dollar : Bool) (tail : Bytes) :
    (ps : List (Bytes × Inline)) →
    unbroken dollar (partAtoms names assigned ps ++ runAtoms tail) = areSeamless dollar tail ps
  | [] => by rw [partAtoms, List.nil_append, unbroken_runAtoms, areSeamless]
  | (before, e) :: rest => by
    rw [partAtoms, List.append_assoc, Atom.unbroken_append, Atom.unbroken_append,
      unbroken_runAtoms, unbroken_inlineAtoms names assigned _ e, endsInDollar_append,
      endsInDollar_runAtoms, endsInDollar_inlineAtoms,
      unbroken_textAtoms names assigned _ tail rest, areSeamless]

end

/-! ## Texts read back -/

/-- A template literal is read back as what the text says, with one substitution for each script and
nothing behind it, exactly if the text is seamless. -/
theorem template_reads_back_iff (names : Names) (assigned : Assigned) (t : Text)
    (hname : ∀ b ∈ names.script, isInert b = true) :
    readLiteral (template names assigned t) = some (textPieces names assigned t, []) ↔
      isSeamless t = true := by
  have hbytes : template names assigned t
      = 0x60 :: ((partAtoms names assigned t.parts ++ runAtoms t.tail).flatMap Atom.bytes
        ++ 0x60 :: []) := by
    simp [template, bytes_partAtoms, bytes_runAtoms]
  have hpieces : textPieces names assigned t
      = (partAtoms names assigned t.parts ++ runAtoms t.tail).map Atom.piece := by
    simp [textPieces, pieces_partAtoms, pieces_runAtoms]
  have hfit : ∀ a ∈ partAtoms names assigned t.parts ++ runAtoms t.tail, a.Fit :=
    List.forall_mem_append.2 ⟨fit_partAtoms hname assigned t.parts, fit_runAtoms t.tail⟩
  rw [hbytes, hpieces, isSeamless, ← unbroken_textAtoms names assigned]
  exact Atom.readText_bytes_iff [] _ hfit

/-- A text with all kinds of elements, `$` before a script and a brace behind a style. -/
def styledText : Text :=
  let span : Span := ⟨0, 0, 0⟩
  ⟨[("cost $", .script "x=1" ⟨0, 7, 10⟩ span),
    (" `", .styled .bold [("$", .join span)] "\\" span span), ("\x7b", .code "$\x7b" span span)],
    "$", span⟩

theorem styledText_reads_back :
    (∀ b ∈ ({} : Names).script, isInert b = true) ∧ isSeamless styledText = true ∧
      readLiteral (template {} (fun _ => []) styledText)
        = some (textPieces {} (fun _ => []) styledText, []) :=
  have hname : ∀ b ∈ ({} : Names).script, isInert b = true := List.all_eq_true.mp (by decide)
  have hseamless : isSeamless styledText = true := by decide
  ⟨hname, hseamless, (template_reads_back_iff {} _ styledText hname).2 hseamless⟩

/-- What the template literals of the paragraphs of a document are read as. -/
def paragraphReadings (d : Markup.Document) : List (Option (List Piece × Bytes)) :=
  d.blocks.filterMap fun b => match b with
    | .paragraph p => some (readLiteral (template {} (fun _ => []) p.text))
    | _ => none

/-- A join between `$` and an escaped brace: no script stands in the text, and the literal has a
substitution. -/
theorem join_opens_substitution :
    (Markup.parse (File.ofBytes 0 "x.story" "$<>\\\x7bx\x7d")).document.scripts = [] ∧
      paragraphReadings (Markup.parse (File.ofBytes 0 "x.story" "$<>\\\x7bx\x7d")).document
        = [some ([.substitution "x"], [])] := by
  decide +kernel

end Storyline.Program
