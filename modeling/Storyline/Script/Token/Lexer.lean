import Storyline.Script.Token
import Storyline.Source.File
import Storyline.Text.Letter
import Storyline.Text.Glyph

/-!
# Reading script tokens

Tokens are read from a list of bytes that starts at a known offset of the source.  `scan` finds
the token at the front: its category, its length and what is wrong with it.  `lexemes` splits a
whole text into tokens, skipping the white space between them, and ends with an end-of-script
token.

Reading never stops early: a malformed number, an unclosed string or an unknown character is
reported and still gives a token.
-/

namespace Storyline.Script

/-- A problem found inside a token: its place, its kind and what to say. -/
structure Fault where
  start : Nat
  stop : Nat
  code : Code
  message : Bytes
deriving DecidableEq, Repr, Inhabited

/-- The fault as a diagnostic in a file. -/
def Fault.diagnostic (f : Fault) (file : FileId) : Diagnostic :=
  .error f.code ⟨file, f.start, f.stop⟩ f.message

/-! ## Character classes -/

/-- White space between tokens. -/
def isSpace (b : UInt8) : Bool := b = ' ' || b = '\t' || b = '\r' || b = '\n'

/-- ASCII characters that may start a name. -/
def isNameStart (b : UInt8) : Bool := b = '_' || b = '$' || Bytes.isLetter b

/-- Characters that may stand in a name. -/
def isNameChar (c : Char) : Bool := c = '_' || c = '$' || Text.isLetter c || Text.isDigit c

/-- ASCII letters and digits. -/
def isAlphanumeric (b : UInt8) : Bool := Bytes.isDigit b || Bytes.isLetter b

/-- The byte at the front, 0 when there is none. -/
def front (s : Bytes) : UInt8 := s.headD 0

/-! ## Names -/

/-- The length of the name at the front, counted from `length`, after `skip` bytes of a character
that is already counted. -/
def nameLengthFrom (length : Nat) : (skip : Nat) → Bytes → Nat
  | _, [] => length
  | n + 1, _ :: s => nameLengthFrom length n s
  | 0, b :: s =>
    match Glyph.head b s with
    | (.char c, more) =>
      if isNameChar c then nameLengthFrom (length + 1 + more) more s else length
    | (.stray _, _) => length

/-- The length of the name at the front, 0 when there is none. -/
def nameLength (s : Bytes) : Nat := nameLengthFrom 0 0 s

/-! ## Numbers -/

/-- Reports the separator at `pos`, which no digit follows. -/
def badSeparator (pos : Nat) (after : UInt8) : Fault :=
  { start := pos, stop := pos + 1, code := .trailingSeparator
    message := if after = '_' then "consecutive '_' in number" else "trailing '_' in number" }

/-- Reports the byte `b` at `pos` as no digit of a base. -/
def badDigit (pos : Nat) (b : UInt8) (base : Nat) : Fault :=
  { start := pos, stop := pos + 1, code := .invalidDigit
    message := "invalid digit '" ++ [b] ++ "' in base " ++ Bytes.ofNat base ++ " number" }

/-- A run of decimal digits and separators: its length and faults. -/
def digitRun (pos : Nat) : Bytes → Nat × List Fault
  | [] => (0, [])
  | b :: s =>
    if Bytes.isDigit b then
      let (n, faults) := digitRun (pos + 1) s
      (n + 1, faults)
    else if b = '_' then
      let (n, faults) := digitRun (pos + 1) s
      if Bytes.isDigit (front s) then (n + 1, faults)
      else (n + 1, badSeparator pos (front s) :: faults)
    else (0, [])

/-- Further points with digits, each of them a fault.  `fuel` bounds their number. -/
def morePoints : (fuel pos : Nat) → Bytes → Nat × List Fault
  | 0, _, _ => (0, [])
  | _, _, [] => (0, [])
  | fuel + 1, pos, b :: s =>
    if b = '.' && Bytes.isDigit (front s) then
      let (n, faults) := digitRun (pos + 1) s
      let (m, more) := morePoints fuel (pos + 1 + n) (s.drop n)
      (1 + n + m,
        ⟨pos, pos + 1, .duplicatePoint, "duplicate decimal point in number"⟩ :: faults ++ more)
    else (0, [])

/-- Whether a point at the front starts a fraction: not if a name or another point follows. -/
def startsFraction : Bytes → Bool
  | [] => false
  | b :: s =>
    let next := front s
    b = '.' && (Bytes.isDigit next || (next != '.' && !isNameStart next && next < 0x80))

/-- The fraction at the front: its length and faults. -/
def fraction (pos : Nat) (s : Bytes) : Nat × List Fault :=
  if startsFraction s then
    let (n, faults) := digitRun (pos + 1) s.tail
    let (m, more) := morePoints s.length (pos + 1 + n) (s.drop (1 + n))
    (1 + n + m, faults ++ more)
  else (0, [])

/-- The exponent at the front: its length and faults.  Without digits there is none. -/
def exponent (pos : Nat) : Bytes → Nat × List Fault
  | [] => (0, [])
  | b :: s =>
    if b = 'e' || b = 'E' then
      let sign := if front s = '+' || front s = '-' then 1 else 0
      if Bytes.isDigit (front (s.drop sign)) then
        let (n, faults) := digitRun (pos + 1 + sign) (s.drop sign)
        (1 + sign + n, faults)
      else (0, [])
    else (0, [])

/-- Letters glued to a decimal number: their length, and a fault if there are any. -/
def badSuffix (pos : Nat) (s : Bytes) : Nat × List Fault :=
  let run := s.takeWhile fun b => isAlphanumeric b || b = '_'
  match run with
  | [] => (0, [])
  | b :: _ => (run.length, [badDigit pos b 10])

/-- The length and the faults of a decimal number. -/
def decimal (pos : Nat) (s : Bytes) : Nat × List Fault :=
  let (a, faultsA) := digitRun pos s
  let (b, faultsB) := fraction (pos + a) (s.drop a)
  let (c, faultsC) := exponent (pos + a + b) (s.drop (a + b))
  let (d, faultsD) := badSuffix (pos + a + b + c) (s.drop (a + b + c))
  (a + b + c + d, faultsA ++ faultsB ++ faultsC ++ faultsD)

/-- Whether a byte is a digit of a base. -/
def isDigitOf (base : Nat) (b : UInt8) : Bool :=
  match Bytes.hexDigit? b with
  | some n => n < base
  | none => false

/-- Digits after a base mark: the length of the run, how many bytes of it are not separators, and
its faults.  Only the first bad digit is reported. -/
def radixRun (base pos : Nat) (reported : Bool) : Bytes → Nat × Nat × List Fault
  | [] => (0, 0, [])
  | b :: s =>
    if b = '_' then
      let (n, digits, faults) := radixRun base (pos + 1) reported s
      if isAlphanumeric (front s) then (n + 1, digits, faults)
      else (n + 1, digits, badSeparator pos (front s) :: faults)
    else if isAlphanumeric b then
      if isDigitOf base b || reported then
        let (n, digits, faults) := radixRun base (pos + 1) reported s
        (n + 1, digits + 1, faults)
      else
        let (n, digits, faults) := radixRun base (pos + 1) true s
        (n + 1, digits + 1, badDigit pos b base :: faults)
    else (0, 0, [])

/-- The base that a leading `0b`, `0o` or `0x` of either case announces. -/
def radix? : Bytes → Option Nat
  | a :: b :: _ =>
    if a = '0' then
      if b = 'b' || b = 'B' then some 2
      else if b = 'o' || b = 'O' then some 8
      else if b = 'x' || b = 'X' then some 16
      else none
    else none
  | _ => none

/-- The length and the faults of the number at the front. -/
def number (pos : Nat) (s : Bytes) : Nat × List Fault :=
  match radix? s with
  | none => decimal pos s
  | some base =>
    let (n, digits, faults) := radixRun base (pos + 2) false (s.drop 2)
    if digits = 0 then
      (2 + n, faults ++ [⟨pos, pos + 2 + n, .badNumber, "missing digits after base prefix"⟩])
    else (2 + n, faults)

/-! ## Strings and templates -/

/-- The length of a string after its opening quote, counted from `length`, and whether it is
closed.  The byte after a backslash never closes it. -/
def stringLength (quote : UInt8) (length : Nat) : (escaped : Bool) → Bytes → Nat × Bool
  | _, [] => (length, false)
  | true, _ :: s => stringLength quote (length + 1) false s
  | false, b :: s =>
    if b = quote then (length + 1, true)
    else stringLength quote (length + 1) (b = '\\') s

/-- Where a template is being read. -/
inductive TemplateState where
  /-- In text or in a substitution. -/
  | plain
  /-- The next byte has no meaning of its own. -/
  | skipping
  /-- In a string of a substitution. -/
  | quoted (quote : UInt8)
  /-- After a backslash in such a string. -/
  | quotedSkipping (quote : UInt8)
deriving DecidableEq, Repr

/-- The length of a template after its opening quote, counted from `length`, and whether it is
closed.  `depth` counts open braces; only outside of them the quote closes. -/
def templateLength (length depth : Nat) : TemplateState → Bytes → Nat × Bool
  | _, [] => (length, false)
  | .skipping, _ :: s => templateLength (length + 1) depth .plain s
  | .quotedSkipping q, _ :: s => templateLength (length + 1) depth (.quoted q) s
  | .quoted q, b :: s =>
    if b = '\\' then templateLength (length + 1) depth (.quotedSkipping q) s
    else if b = q then templateLength (length + 1) depth .plain s
    else templateLength (length + 1) depth (.quoted q) s
  | .plain, b :: s =>
    if b = '\\' then templateLength (length + 1) depth .skipping s
    else if depth = 0 && b = 0x60 then (length + 1, true)
    else if b = '$' && front s = 0x7B then templateLength (length + 1) (depth + 1) .skipping s
    else if 0 < depth && b = 0x7B then templateLength (length + 1) (depth + 1) .plain s
    else if 0 < depth && b = 0x7D then templateLength (length + 1) (depth - 1) .plain s
    else if 0 < depth && (b = '"' || b = '\'') then
      templateLength (length + 1) depth (.quoted b) s
    else templateLength (length + 1) depth .plain s

/-! ## Tokens -/

/-- What was found at the front of a text. -/
structure Scan where
  kind : TokenKind
  length : Nat
  faults : List Fault := []
deriving DecidableEq, Repr, Inhabited

/-- A character that starts no token. -/
def unknownCharacter (pos length : Nat) (s : Bytes) : Scan where
  kind := .invalid
  length := length
  faults := [⟨pos, pos + length, .unknownCharacter,
    "unknown character '" ++ s.take length ++ "'"⟩]

/-- The name or reserved word at the front, or a character beyond ASCII that is no letter. -/
def scanName (pos : Nat) (s : Bytes) : Scan :=
  let n := nameLength s
  if n = 0 then unknownCharacter pos (1 + (Glyph.head (front s) s.tail).2) s
  else match Keyword.ofBytes? (s.take n) with
    | some k => ⟨.keyword k, n, []⟩
    | none => ⟨.identifier, n, []⟩

/-- The string at the front. -/
def scanString (pos : Nat) (s : Bytes) : Scan :=
  let (n, closed) := stringLength (front s) 1 false s.tail
  if closed then ⟨.string, n, []⟩
  else ⟨.string, n, [⟨pos, pos + n, .unterminatedString, "unterminated string literal"⟩]⟩

/-- The template at the front. -/
def scanTemplate (pos : Nat) (s : Bytes) : Scan :=
  let (n, closed) := templateLength 1 0 .plain s.tail
  if closed then ⟨.template, n, []⟩
  else ⟨.template, n, [⟨pos, pos + n, .unterminatedString, "unterminated template literal"⟩]⟩

/-- The operator or punctuation mark at the front. -/
def scanSymbol (pos : Nat) (s : Bytes) : Scan :=
  match Symbol.longestFirst.find? fun op => (op.text : Bytes).isPrefixOf s with
  | some op => ⟨.symbol op, (op.text : Bytes).length, []⟩
  | none => unknownCharacter pos 1 s

/-- The token at the front of a text that is not empty and does not start with white space. -/
def scan (pos : Nat) (s : Bytes) : Scan :=
  let b := front s
  if isNameStart b || 0x80 ≤ b then scanName pos s
  else if Bytes.isDigit b || (b = '.' && Bytes.isDigit (front s.tail)) then
    let (n, faults) := number pos s
    ⟨.number, n, faults⟩
  else if b = '"' || b = '\'' then scanString pos s
  else if b = 0x60 then scanTemplate pos s
  else scanSymbol pos s

/-- Adds the tokens of a text that starts at `pos`, and the end of the script, to `acc`.  `fuel`
bounds the number of tokens. -/
def lexemesFrom (file : FileId) : (fuel : Nat) → Array Lexeme → (pos : Nat) → Bytes → List Lexeme
  | 0, acc, _, _ => acc.toList
  | fuel + 1, acc, pos, s =>
    let gap := (s.takeWhile isSpace).length
    let body := s.drop gap
    let pos := pos + gap
    if body.isEmpty then
      (acc.push ⟨⟨.endOfScript, ⟨file, pos, pos⟩, []⟩, []⟩).toList
    else
      let found := scan pos body
      let token := ⟨found.kind, ⟨file, pos, pos + found.length⟩, body.take found.length⟩
      let notices := found.faults.map (Fault.diagnostic · file)
      lexemesFrom file fuel (acc.push ⟨token, notices⟩) (pos + found.length)
        (body.drop found.length)

/-- The tokens of a text that starts at offset `pos`. -/
def lexemes (file : FileId) (pos : Nat) (s : Bytes) : List Lexeme :=
  lexemesFrom file (s.length + 1) #[] pos s

/-- The tokens between two offsets of a source; offsets keep counting from its start. -/
def lexemesIn (source : Content) (file : FileId) (start stop : Nat) : List Lexeme :=
  lexemes file start (source.slice start stop)

end Storyline.Script
