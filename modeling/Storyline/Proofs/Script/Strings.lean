import Storyline.Proofs.Script.RoundTrip
import Storyline.Proofs.Script.Spans

/-!
# Text in quotes

Three pieces have to fit for a text to come back from a string literal.  The lexer looks for the
quote that closes the literal, and only a backslash makes it skip a byte.  The quotes are taken off
by the last byte alone, whether or not it is escaped.  And a table turns escaped letters into bytes.

Every text can be put in quotes so that they do (`quoted`): the lexer leaves each escaped byte in the
state in which it came to it (`stringLength_escaped`), so the quote that is found is the last one,
and every byte is escaped such that the table gives it back (`unescape_escaped`).
-/

namespace Storyline.Script

/-! ## Putting a text in quotes -/

/-- What is written in front of an escaped byte. -/
def backslash : UInt8 := '\\'

/-- How a byte is written between quotes. -/
def escaped (quote b : UInt8) : Bytes :=
  if b = '\\' ∨ b = quote then [backslash, b]
  else if b = '\n' then [backslash, 'n']
  else if b = '\r' then [backslash, 'r']
  else if b = '\t' then [backslash, 't']
  else [b]

/-- A text as a string literal. -/
def quoted (quote : UInt8) (v : Bytes) : Bytes := quote :: (v.flatMap (escaped quote) ++ [quote])

/-- The bytes that open and close a string. -/
def IsStringQuote (b : UInt8) : Prop := b = '"' ∨ b = '\''

theorem IsStringQuote.ne_backslash {quote : UInt8} (h : IsStringQuote quote) : quote ≠ '\\' := by
  rcases h with rfl | rfl <;> decide

/-- A quote behind a backslash stands for itself. -/
theorem IsStringQuote.escapedByte {quote : UInt8} (h : IsStringQuote quote) : escapedByte quote = quote := by
  rcases h with rfl | rfl <;> rfl

/-- A byte is written as it is, if it is neither a backslash nor the quote, or behind a backslash as
a byte that the table turns back. -/
theorem escaped_cases {quote : UInt8} (h : IsStringQuote quote) (b : UInt8) :
    escaped quote b = [b] ∧ b ≠ '\\' ∧ b ≠ quote
      ∨ ∃ c, escaped quote b = [backslash, c] ∧ escapedByte c = b := by
  unfold escaped
  by_cases hself : b = '\\' ∨ b = quote
  · rw [if_pos hself]
    refine .inr ⟨b, rfl, ?_⟩
    rcases hself with rfl | rfl
    · rfl
    · exact h.escapedByte
  · rw [if_neg hself]
    rw [not_or] at hself
    by_cases hn : b = '\n'
    · exact .inr ⟨_, if_pos hn, hn.symm⟩
    · by_cases hr : b = '\r'
      · rw [if_neg hn]
        exact .inr ⟨_, if_pos hr, hr.symm⟩
      · by_cases ht : b = '\t'
        · rw [if_neg hn, if_neg hr]
          exact .inr ⟨_, if_pos ht, ht.symm⟩
        · rw [if_neg hn, if_neg hr, if_neg ht]
          exact .inl ⟨rfl, hself.1, hself.2⟩

/-! ## Taking it out again -/

theorem unescape_cons {b : UInt8} (hb : b ≠ '\\') (s : Bytes) :
    unescape (b :: s) = b :: unescape s := by
  cases s with
  | nil => rfl
  | cons c s => rw [unescape, if_neg hb]

theorem unescape_escaped {quote : UInt8} (h : IsStringQuote quote) (b : UInt8) (s : Bytes) :
    unescape (escaped quote b ++ s) = b :: unescape s := by
  rcases escaped_cases h b with ⟨heq, hslash, -⟩ | ⟨c, heq, hc⟩
  · rw [heq, List.singleton_append, unescape_cons hslash]
  · have hslash : backslash = '\\' := rfl
    rw [heq, List.cons_append, List.singleton_append, unescape, if_pos hslash, hc]

theorem unescape_flatMap {quote : UInt8} (h : IsStringQuote quote) (v : Bytes) :
    unescape (v.flatMap (escaped quote)) = v := by
  induction v with
  | nil => rfl
  | cons b v ih => rw [List.flatMap_cons, unescape_escaped h, ih]

/-- A text in quotes means the text. -/
theorem stringValue_quoted {quote : UInt8} (h : IsStringQuote quote) (v : Bytes) :
    stringValue (quoted quote v) = v := by
  rw [quoted, stringValue, List.getLast?_concat, if_pos rfl, List.dropLast_concat,
    unescape_flatMap h]

/-! ## Finding the closing quote -/

theorem stringLength_escaped {quote : UInt8} (h : IsStringQuote quote) (length : Nat) (b : UInt8)
    (s : Bytes) :
    stringLength quote length false (escaped quote b ++ s)
      = stringLength quote (length + (escaped quote b).length) false s := by
  rcases escaped_cases h b with ⟨heq, hslash, hquote⟩ | ⟨c, heq, -⟩
  · rw [heq, List.singleton_append, stringLength, if_neg hquote, decide_eq_false hslash]
    rfl
  · have hopen : backslash ≠ quote := h.ne_backslash.symm
    have hskips : decide (backslash = ('\\' : UInt8)) = true := rfl
    rw [heq, List.cons_append, List.singleton_append, stringLength, if_neg hopen, hskips,
      stringLength]
    rfl

/-- The quote that closes a text in quotes is the last byte of it, whatever comes after. -/
theorem stringLength_flatMap {quote : UInt8} (h : IsStringQuote quote) (length : Nat) (v k : Bytes) :
    stringLength quote length false (v.flatMap (escaped quote) ++ quote :: k)
      = (length + (v.flatMap (escaped quote)).length + 1, true) := by
  induction v generalizing length with
  | nil => rw [List.flatMap_nil, List.nil_append, stringLength, if_pos rfl]; rfl
  | cons b v ih =>
    rw [List.flatMap_cons, List.append_assoc, stringLength_escaped h, ih, List.length_append]
    congr 1
    omega

/-- A text in quotes is one token before every text. -/
theorem before_quoted {quote : UInt8} (h : IsStringQuote quote) (v k : Bytes) :
    (⟨.string, quoted quote v⟩ : Form).Before k := by
  have hcat : quoted quote v ++ k = quote :: (v.flatMap (escaped quote) ++ quote :: k) := by
    simp [quoted]
  refine ⟨List.cons_ne_nil _ _, ?_, ?_⟩
  · show isSpace quote = false
    rcases h with rfl | rfl <;> rfl
  · have hscan : scan 0 (quoted quote v ++ k) = scanString 0 (quoted quote v ++ k) := by
      rw [hcat]
      rcases h with rfl | rfl <;> rfl
    rw [hscan, hcat]
    simp only [scanString, front, List.headD_cons, List.tail_cons, stringLength_flatMap h, if_true,
      quoted, List.length_cons, List.length_append, List.length_nil]
    congr 1
    omega

/-! ## Reading it -/

namespace Expr

theorem eq_literal_of_erase {e : Expr} {k : LiteralKind} {raw v : Bytes}
    (h : e.erase = .literal nowhere k raw v) : ∃ span, e = .literal span k raw v := by
  cases e <;> simp_all [erase]

theorem eq_identifier_of_erase {e : Expr} {n : Bytes} (h : e.erase = .identifier nowhere n) :
    ∃ span, e = .identifier span n := by
  cases e <;> simp_all [erase]

theorem eq_index_of_erase {e b i : Expr} (h : e.erase = .index nowhere b i) :
    ∃ span b' i', e = .index span b' i' ∧ b'.erase = b ∧ i'.erase = i := by
  cases e <;> simp_all [erase]

theorem eq_binary_of_erase {e l r : Expr} {op : TokenKind} (h : e.erase = .binary nowhere op l r) :
    ∃ span l' r', e = .binary span op l' r' ∧ l'.erase = l ∧ r'.erase = r := by
  cases e <;> simp_all [erase]

end Expr

/-- The text of a separable tree that was read is read as this tree again, and its spans are
exact. -/
theorem parse_format {e : Expr} (hread : e.WasRead) (hseparable : e.Separable) {text : Bytes}
    (htext : Statements.format [e] = text) (file : FileId) (maxErrors : Nat) :
    ∃ e', parse text file maxErrors = ⟨[e'], []⟩ ∧ e'.erase = e.erase
      ∧ (Window.whole text file).ExactIn e' ∧ e'.span.stop ≤ text.length := by
  obtain ⟨hfaultless, hspells⟩ := (script_reads_again_iff (List.forall_mem_singleton.mpr hread)).mpr
    (List.forall_mem_singleton.mpr hseparable)
  rw [htext] at hfaultless hspells
  obtain ⟨hquiet, herase⟩ := parse_complete file maxErrors hfaultless hspells
    (List.forall_mem_singleton.mpr hread.1)
  have hrow := parse_row text file maxErrors
  generalize parse text file maxErrors = parsed at hquiet herase hrow ⊢
  obtain ⟨script, diagnostics⟩ := parsed
  obtain rfl : diagnostics = [] := hquiet
  obtain ⟨e', rfl, he⟩ := List.map_eq_singleton_iff.mp herase
  exact ⟨e', rfl, he, hrow.2.1, hrow.2.2⟩

/-- A text in quotes is read as one string literal that means the text. -/
theorem parse_quoted {quote : UInt8} (h : IsStringQuote quote) (v : Bytes) (file : FileId)
    (maxErrors : Nat) :
    parse (quoted quote v) file maxErrors
      = ⟨[.literal ⟨file, 0, (quoted quote v).length⟩ .string (quoted quote v) v], []⟩ := by
  have hread : (Expr.literal Expr.nowhere .string (quoted quote v) v).WasRead := by
    refine ⟨(stringValue_quoted h v).symm, [⟨.string, quoted quote v⟩], rfl, ?_⟩
    rw [List.forall_mem_singleton]
    exact ⟨[], before_quoted h v []⟩
  obtain ⟨e, hparse, he, hexact, hstop⟩ := parse_format hread ⟨rfl, rfl⟩
    (rfl : _ = quoted quote v) file maxErrors
  obtain ⟨span, rfl⟩ := e.eq_literal_of_erase he
  obtain ⟨hstands, -, -, -⟩ := hexact.exact.word _ rfl
  -- the literal is as long as the text, so it is all of it
  have hlength : (quoted quote v).length = span.stop - span.start := hstands.length
  have hnonempty : span.start < span.stop := hstands.nonempty
  have hfile : span.file = file := hstands.file
  obtain ⟨spanFile, start, stop⟩ := span
  dsimp only at hlength hnonempty hfile
  have hwithin : stop ≤ (quoted quote v).length := hstop
  obtain rfl : start = 0 := by omega
  obtain rfl := hfile
  rw [hlength, Nat.sub_zero]
  exact hparse

/-- A property named by a text in quotes, and what is assigned to it. -/
def assignKey (key value : Bytes) : Expr :=
  .binary Expr.nowhere (.symbol .assign)
    (.index Expr.nowhere (.identifier Expr.nowhere "x") (.literal Expr.nowhere .string key value))
    (.literal Expr.nowhere .number "1" "1")

theorem wasRead_assignKey {quote : UInt8} (h : IsStringQuote quote) (v : Bytes) :
    (assignKey (quoted quote v) v).WasRead := by
  have hadmits : (⟨2, true⟩ : Binding).Admits Expr.tightest Expr.tightest := by decide
  refine ⟨⟨⟨_, rfl, hadmits⟩, ⟨rfl, trivial, (stringValue_quoted h v).symm⟩, rfl⟩,
    (assignKey (quoted quote v) v).forms, ⟨_, _, rfl, ⟨_, _, rfl, rfl, rfl⟩, rfl⟩, ?_⟩
  have hname : (⟨.identifier, "x"⟩ : Form).Delivered := ⟨[], by decide, rfl, by decide +kernel⟩
  have hnumber : (⟨.number, "1"⟩ : Form).Delivered := ⟨[], by decide, rfl, by decide +kernel⟩
  have hstring : (⟨.string, quoted quote v⟩ : Form).Delivered := ⟨[], before_quoted h v []⟩
  have hopening : (Form.symbol .leftBracket).Delivered := ⟨[], Symbol.before_any (by simp) []⟩
  have hclosing : (Form.symbol .rightBracket).Delivered := ⟨[], Symbol.before_any (by simp) []⟩
  have hassign : (Form.of (.symbol .assign)).Delivered := ⟨_, Symbol.before_space .assign []⟩
  simp only [assignKey, Expr.forms, List.forall_mem_cons, List.cons_append, List.nil_append]
  exact ⟨hname, hopening, hstring, hclosing, hassign, hnumber, List.forall_mem_nil _⟩

/-- In `x[raw] = 1` a text in quotes is the key of a property of `x`, at its place. -/
theorem parse_assignKey {quote : UInt8} (h : IsStringQuote quote) (v : Bytes) (file : FileId)
    (maxErrors : Nat) :
    ∃ span targetSpan nameSpan keySpan valueSpan,
      parse ("x[" ++ quoted quote v ++ "] = 1") file maxErrors
        = ⟨[.binary span (.symbol .assign)
            (.index targetSpan (.identifier nameSpan "x")
              (.literal keySpan .string (quoted quote v) v))
            (.literal valueSpan .number "1" "1")], []⟩
      ∧ (Window.whole ("x[" ++ quoted quote v ++ "] = 1") file).Stands keySpan (quoted quote v) := by
  have htext : Statements.format [assignKey (quoted quote v) v]
      = "x[" ++ quoted quote v ++ "] = 1" := by
    have hopening : ("x[" : Bytes) = "x" ++ "[" := rfl
    have hclosing : ("] = 1" : Bytes) = "]" ++ (" " ++ ("=" ++ (" " ++ "1"))) := rfl
    rw [hopening, hclosing, ← List.append_assoc, ← List.append_assoc, ← List.append_assoc,
      ← List.append_assoc]
    rfl
  -- the text is a printed assignment, so it is read back up to the places of its parts
  obtain ⟨e, hparse, he, hexact, -⟩ := parse_format (wasRead_assignKey h v) ⟨rfl, rfl⟩ htext file
    maxErrors
  obtain ⟨span, target, value, rfl, htarget, hvalue⟩ := e.eq_binary_of_erase he
  obtain ⟨targetSpan, base, key, rfl, hbase, hkey⟩ := target.eq_index_of_erase htarget
  obtain ⟨nameSpan, rfl⟩ := base.eq_identifier_of_erase hbase
  obtain ⟨keySpan, rfl⟩ := key.eq_literal_of_erase hkey
  obtain ⟨valueSpan, rfl⟩ := value.eq_literal_of_erase hvalue
  refine ⟨span, targetSpan, nameSpan, keySpan, valueSpan, hparse, ?_⟩
  let key : Expr := .literal keySpan .string (quoted quote v) v
  let target : Expr := .index targetSpan (.identifier nameSpan "x") key
  let value : Expr := .literal valueSpan .number "1" "1"
  have htarget : target ∈ (Expr.binary span (.symbol .assign) target value).children :=
    List.mem_filter.mpr ⟨List.mem_cons_self, rfl⟩
  -- the key is two steps below the statement
  have hkey : key ∈ target.children :=
    List.mem_filter.mpr ⟨List.mem_cons_of_mem _ List.mem_cons_self, rfl⟩
  exact ((hexact key (.head htarget (.single hkey))).word _ rfl).1

end Storyline.Script
