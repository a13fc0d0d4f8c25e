import Storyline.Json.Reader
import Storyline.Text.Glyph
import Storyline.Text.Quoted

/-!
# Why a text is not JSON

A scan of a text one byte at a time, which stops at the first byte that cannot stand where it does
and says what was due there.  `Json.fault?` finds nothing wrong with exactly the texts that
`Json.read?` accepts, apart from those that are nested too deeply.
-/

namespace Storyline.Json

/-! ## Faults -/

/-- What is wrong with a text. -/
inductive Fault where
  /-- A character or stray byte that cannot stand here, and what the place is. -/
  | unexpected (g : Glyph) (place : String)
  /-- A backslash with what follows it, which together spell no character. -/
  | badEscape (written : Bytes)
  /-- Too many arrays and objects are open. -/
  | tooDeep
  /-- The text ends too early. -/
  | incomplete
deriving DecidableEq, Repr, Inhabited

/-- Whether an escape is shown between double quotes, because not all of it can be seen. -/
def needsQuotes (g : Glyph) : Bool :=
  match g with
  | .stray _ => true
  | .char c => c.toNat = 0x60 || c = Glyph.replacement || Text.isBlank c || !Text.isPrintable c

/-- An escape as messages show it. -/
def shownEscape (written : Bytes) : Bytes :=
  if written.glyphs.any needsQuotes then Text.quoted written else "`" ++ written ++ "`"

/-- The wording of a fault. -/
def Fault.message : Fault → Bytes
  | unexpected g place => "invalid character " ++ Text.quotedOne g ++ " " ++ Bytes.ofString place
  | badEscape written => "invalid escape sequence " ++ shownEscape written ++ " in string"
  | tooDeep => "exceeded max depth"
  | incomplete => "unexpected end of JSON input"

/-! ## States -/

/-- What may come next. -/
inductive Due where
  | value
  /-- A value, or the end of an empty array. -/
  | firstItem
  | name
  /-- A name, or the end of an empty object. -/
  | firstName
  /-- What follows a value. -/
  | afterValue
  /-- Only white space. -/
  | nothing
  | inString
  | escape
  /-- A hexadecimal digit of an escape, after these bytes of it. -/
  | code (before : Bytes)
  | afterMinus
  | afterZero
  | digits
  | afterPoint
  | fraction
  | exponent
  | afterSign
  | power
  /-- The rest of a word. -/
  | word (whole : String) (rest : Bytes)
deriving DecidableEq, Repr, Inhabited

/-- What is open around a place. -/
inductive Around where
  /-- An object whose name is being read. -/
  | name
  /-- An object whose value is being read. -/
  | member
  | item
deriving DecidableEq, Repr, Inhabited

/-- Why a byte cannot be read. -/
inductive Complaint where
  /-- It cannot stand at this place. -/
  | place (words : String)
  /-- It spoils an escape, which would have taken `width` bytes; `before` of them were read. -/
  | escape (before : Bytes) (width : Nat)
  | tooDeep
deriving DecidableEq, Repr, Inhabited

/-- The fault at a byte. -/
def Complaint.toFault (b : UInt8) (rest : Bytes) : Complaint → Fault
  | place words => .unexpected (Glyph.head b rest).1 words
  | escape before width => .badEscape ((before ++ b :: rest).take width)
  | tooDeep => .tooDeep

/-- How far a scan has come. -/
structure Scan where
  due : Due := .value
  /-- What is open, the innermost first. -/
  around : List Around := []
  /-- How much is open. -/
  depth : Nat := 0
deriving DecidableEq, Repr, Inhabited

namespace Scan

/-- How many arrays and objects may be open at once. -/
def maxDepth : Nat := 10000

/-- Opens an array or object. -/
def enter (s : Scan) (a : Around) (due : Due) : Except Complaint Scan :=
  if s.depth < maxDepth then .ok ⟨due, a :: s.around, s.depth + 1⟩ else .error .tooDeep

/-- After a value that closed the innermost array or object. -/
def leave (s : Scan) : Scan :=
  let rest := s.around.drop 1
  ⟨if rest.isEmpty then .nothing else .afterValue, rest, s.depth - 1⟩

/-- The start of a value. -/
def beginValue (s : Scan) (b : UInt8) : Except Complaint Scan :=
  let go (due : Due) : Except Complaint Scan := .ok { s with due }
  if isSpace b then go .value
  else if b = 0x7B then s.enter .name .firstName
  else if b = '[' then s.enter .item .firstItem
  else if b = '"' then go .inString
  else if b = '-' then go .afterMinus
  else if b = '0' then go .afterZero
  else if Bytes.isDigit b then go .digits
  else if b = 't' then go (.word "true" "rue")
  else if b = 'f' then go (.word "false" "alse")
  else if b = 'n' then go (.word "null" "ull")
  else .error (.place "looking for beginning of value")

/-- The start of a name. -/
def beginName (s : Scan) (b : UInt8) : Except Complaint Scan :=
  if isSpace b then .ok { s with due := .name }
  else if b = '"' then .ok { s with due := .inString }
  else .error (.place "looking for beginning of object key string")

/-- What follows a value or a name. -/
def endValue (s : Scan) (b : UInt8) : Except Complaint Scan :=
  match s.around with
  | [] =>
    if isSpace b then .ok { s with due := .nothing } else .error (.place "after top-level value")
  | a :: outer =>
    if isSpace b then .ok { s with due := .afterValue }
    else match a with
      | .name =>
        if b = ':' then .ok { s with due := .value, around := .member :: outer }
        else .error (.place "after object key")
      | .member =>
        if b = ',' then .ok { s with due := .name, around := .name :: outer }
        else if b = 0x7D then .ok s.leave
        else .error (.place "after object key:value pair")
      | .item =>
        if b = ',' then .ok { s with due := .value }
        else if b = ']' then .ok s.leave
        else .error (.place "after array element")

/-- Reads one byte. -/
def step (s : Scan) (b : UInt8) : Except Complaint Scan :=
  let go (due : Due) : Except Complaint Scan := .ok { s with due }
  let bad (place : String) : Except Complaint Scan := .error (.place place)
  match s.due with
  | .value => s.beginValue b
  | .firstItem =>
    if isSpace b then .ok s else if b = ']' then .ok s.leave else s.beginValue b
  | .name => s.beginName b
  | .firstName => if isSpace b then .ok s else if b = 0x7D then .ok s.leave else s.beginName b
  | .afterValue => s.endValue b
  | .nothing => if isSpace b then .ok s else bad "after top-level value"
  | .inString =>
    if b = '"' then go .afterValue
    else if b = '\\' then go .escape
    else if b < 0x20 then bad "in string"
    else .ok s
  | .escape =>
    if b = 'u' then go (.code [('\\' : UInt8), b])
    else if (escapeLength? [b]).isSome then go .inString
    else .error (.escape [('\\' : UInt8)] 2)
  | .code before =>
    if (Bytes.hexDigit? b).isNone then .error (.escape before 6)
    else go (if before.length < 5 then .code (before ++ [b]) else .inString)
  | .afterMinus =>
    if b = '0' then go .afterZero
    else if Bytes.isDigit b then go .digits
    else bad "in numeric literal"
  | .afterZero =>
    if b = '.' then go .afterPoint
    else if b = 'e' || b = 'E' then go .exponent
    else s.endValue b
  | .digits =>
    if Bytes.isDigit b then .ok s
    else if b = '.' then go .afterPoint
    else if b = 'e' || b = 'E' then go .exponent
    else s.endValue b
  | .afterPoint =>
    if Bytes.isDigit b then go .fraction else bad "in numeric literal"
  | .fraction =>
    if Bytes.isDigit b then .ok s
    else if b = 'e' || b = 'E' then go .exponent
    else s.endValue b
  | .exponent =>
    if b = '+' || b = '-' then go .afterSign
    else if Bytes.isDigit b then go .power
    else bad "in numeric literal"
  | .afterSign => if Bytes.isDigit b then go .power else bad "in numeric literal"
  | .power => if Bytes.isDigit b then .ok s else s.endValue b
  | .word whole rest =>
    match rest with
    | [] => s.endValue b
    | c :: rest =>
      if b = c then go (if rest.isEmpty then .afterValue else .word whole rest)
      else bad ("in literal " ++ whole ++ " (expecting '" ++ String.singleton (Char.ofNat c.toNat)
        ++ "')")

/-- Whether the value may be over: nothing is open, and what was read is whole. -/
def mayEnd (s : Scan) : Bool :=
  s.around.isEmpty && match s.due with
    | .nothing | .afterValue | .afterZero | .digits | .fraction | .power => true
    | .word _ rest => rest.isEmpty
    | _ => false

/-- The fault of a text that goes on with these bytes. -/
def faultIn (s : Scan) : Bytes → Option Fault
  | b :: rest =>
    match s.step b with
    | .ok s => s.faultIn rest
    | .error c => some (c.toFault b rest)
  | [] => if s.mayEnd then none else some .incomplete

end Scan

/-- The first thing that is wrong with a text. -/
def fault? (s : Bytes) : Option Fault := Scan.faultIn {} s

end Storyline.Json
