import Storyline.Text.Letter
import Storyline.Toml.Document
import Storyline.Toml.Number

/-!
# Reading TOML

A document is read from front to back and the first mistake ends the reading.  Mistakes of form and
of meaning are found in the order of the text: the parts of a key are put in place before its value
is looked at, and a value is judged before what follows it.

A line ends with a line feed, which may have a carriage return before it.  A mistake that is found
at the end of the document is reported for the line before the last one.
-/

namespace Storyline.Toml

namespace Reader

/-! ## Characters -/

/-- A line feed, or the carriage return before one. -/
def isLineEnd (c : Char) : Bool := c = '\n' || c = '\r'

/-- A space or a tab. -/
def isGapChar (c : Char) : Bool := c = ' ' || c = '\t'

/-- A character that no document may have. -/
def isControl (c : Char) : Bool := c.toNat = 127 || (c.toNat < 32 && c != '\t' && !isLineEnd c)

/-- The next character; nothing at the end of the document. -/
def peek : Reader (Option Char) := do
  let d ← get
  match d.rest with
  | [] => return none
  | .stray b :: _ => failOn d.line (.strayByte b)
  | .char c :: rest =>
    if c = Glyph.replacement then failOn d.line (.strayByte 0xEF)
    else if isControl c || (c = '\r' && rest.head? != some (.char '\n')) then
      failOn d.line (.control c)
    else return some c

/-- Goes on to the next character. -/
def drop : Reader Unit := modify fun d =>
  let line := if d.rest.head? = some (.char '\n') then d.line + 1 else d.line
  { d with rest := d.rest.tail, line }

/-- Stops with a mistake on the current line. -/
def failHere {α : Type} (m : Mistake) : Reader α := do failOn (← get).line m

/-- Stops with a mistake about the next character, on the line that comes after it. -/
def failPast {α : Type} (found : Option Char) (m : Mistake) : Reader α := do
  let line := (← get).line
  failOn (match found with
    | none => line - 1
    | some c => if c = '\n' then line + 1 else line) m

/-- Stops with a mistake about a line end, on the line before the one that comes after it. -/
def failAtLineEnd {α : Type} (found : Char) (m : Mistake) : Reader α := do
  let line := (← get).line
  failOn (if found = '\n' then line else line - 1) m

/-- Takes the next character if it is the given one. -/
def accept (c : Char) : Reader Bool := do
  if (← peek) = some c then
    drop
    return true
  return false

/-- Takes characters as long as they satisfy a condition that no line end does. -/
def takeChars (p : Char → Bool) : Reader (List Char) := do
  let (taken, rest) := (← get).rest.span fun g => match g with
    | .char c => p c && c != Glyph.replacement
    | .stray _ => false
  modify fun d => { d with rest }
  let _ ← peek
  return taken.map Glyph.shown

/-- Passes spaces and tabs. -/
def skipGaps : Reader Unit := do
  let _ ← takeChars isGapChar

/-- Passes the rest of a comment. -/
def skipComment : Nat → Reader Unit
  | 0 => pure ()
  | n + 1 => do
    match ← peek with
    | none => pure ()
    | some c => if isLineEnd c then pure () else
      drop
      skipComment n

/-- Passes spaces, tabs, line ends and comments. -/
def skipBlank : Nat → Reader Unit
  | 0 => pure ()
  | n + 1 => do
    match ← peek with
    | none => pure ()
    | some c =>
      if isGapChar c || isLineEnd c then
        drop
        skipBlank n
      else if c = '#' then
        skipComment (n + 1)
        skipBlank n

/-! ## Texts -/

/-- Takes the digits of a character code into what was read of a text, last character first. -/
def codeDigits (long : Bool) : Nat → List Char → Reader (List Char)
  | 0, acc => pure acc
  | n + 1, acc => do
    let c ← peek
    match c with
    | some d =>
      if (Bytes.hexDigit? d.toUInt8).isSome && d.toNat < 128 then
        drop
        codeDigits long n (d :: acc)
      else failPast c (.codeDigits long (Bytes.ofChars (d :: acc).reverse))
    | none => failPast c (.codeDigits long (Bytes.ofChars acc.reverse))

/-- Takes what follows a backslash. -/
def escape (acc : List Char) : Reader (List Char) := do
  let c ← peek
  match c with
  | some d =>
    if d = 'u' then
      drop
      codeDigits false 4 (d :: acc)
    else if d = 'U' then
      drop
      codeDigits true 8 (d :: acc)
    else if "btnfr\"\\ \t".toList.contains d then
      drop
      return d :: acc
    else failPast c (.escape c)
  | none => failPast c (.escape c)

/-- Takes a text on one line and its closing quote. -/
def shortText (basic : Bool) : Nat → List Char → Reader (List Char)
  | 0, acc => pure acc
  | n + 1, acc => do
    let c ← peek
    match c with
    | none => failPast c (.textEnd (if basic then .basic else .literal))
    | some d =>
      if isLineEnd d then failAtLineEnd d .textLine
      else
        drop
        if d = (if basic then '"' else '\'') then return acc.reverse
        else if basic && d = '\\' then shortText basic n (← escape (d :: acc))
        else shortText basic n (d :: acc)

/-- Takes a text that may have lines, and its three closing quotes.  One or two quotes may stand
before those three. -/
def longText (basic : Bool) : Nat → List Char → Reader (List Char)
  | 0, acc => pure acc
  | n + 1, acc => do
    let quote := if basic then '"' else '\''
    let kind : Quote := if basic then .longBasic else .longLiteral
    match ← peek with
    | none => failPast none (.textEnd kind)
    | some d =>
      drop
      if basic && d = '\\' then
        match ← peek with
        | some e =>
          if isLineEnd e then
            drop
            longText basic n (e :: d :: acc)
          else longText basic n (← escape (d :: acc))
        | none => longText basic n (← escape (d :: acc))
      else if d = quote then
        let one ← get
        if ← accept quote then
          if ← accept quote then
            if (← peek) = some quote then
              let crowded := match acc with
                | a :: b :: before => a = quote && b = quote && !(basic && before.head? = some '\\')
                | _ => false
              if crowded then failHere (.tooManyQuotes kind)
              set one
              longText basic n (d :: acc)
            else return acc.reverse
          else longText basic n (d :: d :: acc)
        else longText basic n (d :: acc)
      else longText basic n (d :: acc)

/-- A text without a line end at its start. -/
def dropFirstLineEnd : List Char → List Char
  | '\n' :: s => s
  | '\r' :: '\n' :: s => s
  | s => s

/-- A text without the backslashes at ends of lines and the blanks that follow them. -/
def joinLines : (fuel : Nat) → List Char → List Char
  | 0, s => s
  | n + 1, '\\' :: '\\' :: s => '\\' :: '\\' :: joinLines n s
  | n + 1, '\\' :: s =>
    let blanks := s.takeWhile fun c => isGapChar c || isLineEnd c
    if blanks.contains '\n' then joinLines n (s.drop blanks.length) else '\\' :: joinLines n s
  | n + 1, c :: s => c :: joinLines n s
  | _, [] => []

/-- The character with the given code, spelled in hexadecimal digits. -/
def codeChar (digits : List Char) : Except Mistake Char :=
  let spelled := Bytes.ofChars digits
  let n := (Bytes.readNat? 16 Bytes.hexDigit? spelled).getD 0
  if n < 0xD800 || (0xDFFF < n && n ≤ 0x10FFFF) then .ok (Char.ofNat n)
  else .error (.notCharacter spelled)

/-- A text with its escapes replaced. -/
def unescape : List Char → Except Mistake (List Char)
  | [] => .ok []
  | '\\' :: 'u' :: a :: b :: c :: d :: s => do return (← codeChar [a, b, c, d]) :: (← unescape s)
  | '\\' :: 'U' :: a :: b :: c :: d :: e :: f :: g :: h :: s => do
    return (← codeChar [a, b, c, d, e, f, g, h]) :: (← unescape s)
  | '\\' :: c :: s =>
    match c with
    | ' ' | '\t' => .error (.escapedGap c.toUInt8)
    | 'b' => do return '\x08' :: (← unescape s)
    | 't' => do return '\t' :: (← unescape s)
    | 'n' => do return '\n' :: (← unescape s)
    | 'f' => do return '\x0c' :: (← unescape s)
    | 'r' => do return '\r' :: (← unescape s)
    | c => do return c :: (← unescape s)
  | c :: s => do return c :: (← unescape s)

/-- Takes over a judgement, whose mistake counts for the current line. -/
def judged {α : Type} : Except Mistake α → Reader α
  | .ok a => pure a
  | .error m => failHere m

/-- A text on one line, its opening quote not taken yet. -/
def quotedName (n : Nat) : Reader Bytes := do
  if (← accept '"') then
    return Bytes.ofChars (← judged (unescape (← shortText true n [])))
  drop
  return Bytes.ofChars (← shortText false n [])

/-- A text of any kind, its opening quote not taken yet. -/
def text (n : Nat) : Reader Bytes := do
  let quote := (← peek).getD '"'
  let basic : Bool := quote = '"'
  drop
  let one ← get
  let two ← accept quote
  let three ← accept quote
  if two && three then
    let body := dropFirstLineEnd (← longText basic n [])
    if basic then return Bytes.ofChars (← judged (unescape (joinLines (body.length + 1) body)))
    return Bytes.ofChars body
  set one
  let body ← shortText basic n []
  if basic then return Bytes.ofChars (← judged (unescape body))
  return Bytes.ofChars body

/-! ## Keys -/

/-- A character that a name may have without quotes. -/
def isBareChar (c : Char) : Bool := c.toNat < 128 && isBare c.toUInt8

/-- One name of a key. -/
def keyName (n : Nat) : Reader Bytes := do
  match ← peek with
  | some '"' | some '\'' => quotedName n
  | _ => return Bytes.ofChars (← takeChars isBareChar)

/-- The names of a table's key up to the closing bracket. -/
def tableKey (total : Nat) : Nat → Key → Reader Key
  | 0, acc => pure acc
  | n + 1, acc => do
    skipGaps
    match ← peek with
    | none | some ']' => failHere .tableNameMissing
    | some '.' => failHere .tableNameStartsWithDot
    | some _ =>
      let name ← keyName total
      if acc.isEmpty then modify fun d => { d with keyLine := d.line }
      skipGaps
      let c ← peek
      match c with
      | some '.' =>
        drop
        tableKey total n (acc ++ [name])
      | some ']' =>
        drop
        return acc ++ [name]
      | _ => failPast c (.tableNameEnd c)

/-- The names of a key up to the equals sign. -/
def valueKey (total : Nat) : Nat → Key → Reader Key
  | 0, acc => pure acc
  | n + 1, acc => do
    skipGaps
    match ← peek with
    | none | some '=' => failHere (if acc.isEmpty then .keyMissing else .keyPartMissing)
    | some '.' => failHere (if acc.isEmpty then .keyStartsWithDot else .keyPartStartsWithDot)
    | some _ =>
      let name ← keyName total
      if acc.isEmpty then modify fun d => { d with keyLine := d.line }
      skipGaps
      let c ← peek
      match c with
      | some '.' =>
        drop
        valueKey total n (acc ++ [name])
      | some '=' =>
        drop
        return acc ++ [name]
      | none => failPast c .separatorMissing
      | some _ => failPast c (.keyEnd c)

/-! ## Numbers -/

/-- A decimal digit. -/
def isDigitChar (c : Char) : Bool := c.isDigit

/-- Reads on in a number that has `before` and is not a date. -/
def decimal (before : List Char) : Reader Value := do
  let more ← takeChars fun c => isDigitChar c || c = '_'
  match ← peek with
  | some '.' | some 'e' | some 'E' =>
    let tail ← takeChars fun c => isDigitChar c || "_.-+eE".toList.contains c
    judged (float (Bytes.ofChars (before ++ more ++ tail)))
  | _ => judged (integer (Bytes.ofChars (before ++ more)))

/-- Reads on in a number or a moment that has `before`. -/
def numberOrMoment (before : List Char) : Reader Value := do
  let more ← takeChars isDigitChar
  match ← peek with
  | some '-' | some ':' =>
    let tail ← takeChars fun c => isDigitChar c || "-:Tt .Zz+".toList.contains c
    judged (moment (Bytes.trimRight (· = ' ') (Bytes.ofChars (before ++ more ++ tail))))
  | _ => decimal (before ++ more)

/-- A number in another base than ten, after its mark. -/
def inBase (mark : Char) (isDigit : Char → Bool) : Reader Value := do
  drop
  let c ← peek
  if !(c.any isDigit) then
    failHere (.notInBase mark (Bytes.ofChars ['0', mark, c.getD '\x00']))
  let digits ← takeChars fun c => isDigit c || c = '_'
  judged (integer (Bytes.ofChars ('0' :: mark :: digits)))

/-- A number or a moment; its first digit is not taken yet. -/
def unsigned : Reader Value := do
  if (← accept '0') then
    match ← peek with
    | some 'b' => inBase 'b' fun c => c = '0' || c = '1'
    | some 'o' => inBase 'o' fun c => '0' ≤ c && c ≤ '7'
    | some 'x' => inBase 'x' fun c => c.toNat < 128 && (Bytes.hexDigit? c.toUInt8).isSome
    | some c => if isDigitChar c then numberOrMoment ['0'] else decimal ['0']
    | none => decimal ['0']
  else numberOrMoment []

/-- The rest of a word of two more letters after a sign and a first letter. -/
def signedWord (before : List Char) (second third : Char) : Reader Value := do
  drop
  if !(← accept second) then failHere (.floatWord (Bytes.ofChars before))
  if !(← accept third) then failHere (.floatWord (Bytes.ofChars (before ++ [second])))
  judged (float (Bytes.ofChars (before ++ [second, third])))

/-- A number with a sign, which is not taken yet. -/
def signed (mark : Char) : Reader Value := do
  drop
  let c ← peek
  match c with
  | some 'i' => signedWord [mark, 'i'] 'n' 'f'
  | some 'n' => signedWord [mark, 'n'] 'a' 'n'
  | some '.' => failPast c .floatStartsWithDot
  | some d =>
    if isDigitChar d then
      drop
      let after ← peek
      if d = '0' && after.any (fun e => e = 'b' || e = 'o' || e = 'x') then
        failHere (.signedBase (Bytes.ofChars ([mark, d] ++ after.toList)))
      decimal [mark, d]
    else failPast c (.notDigit c)
  | none => failPast c (.notDigit c)

/-! ## Words -/

/-- Stops because a word is not a value. -/
def failWord {α : Type} (word : List Char) : Reader α :=
  failHere (.notValue (Text.quoted (Bytes.ofChars word)))

/-- The value that a word names. -/
def word : Reader Value := do
  let letters ← takeChars Text.isLetter
  if letters = "true".toList then return .boolean true
  if letters = "false".toList then return .boolean false
  failWord letters

/-- A word that starts with `i` or `n`, which is not taken yet: the two names of numbers, or a
mistake.  Letters of both names may be mixed, and what is wrong is told from the last letter on
that could belong to them. -/
def numberWord (first : Char) : Reader Value := do
  drop
  let n ← accept 'n'
  if n then
    if ← accept 'f' then return ← judged (float (Bytes.ofChars [first, 'n', 'f']))
  let before := if n then [first, 'n'] else [first]
  let a ← accept 'a'
  if a then
    if ← accept 'n' then return ← judged (float (Bytes.ofChars (before ++ ['a', 'n'])))
  let last := if a then 'a' else if n then 'n' else first
  failWord (last :: (← takeChars Text.isLetter))

/-! ## Values -/

/-- A value that has been read: whether it is an array, and the line that counts as its place. -/
structure Read where
  value : Value
  isArray : Bool := false
  line : Nat

/-- A value together with the current line. -/
def plain (r : Reader Value) : Reader Read := do
  let value ← r
  return { value, line := (← get).line }

mutual

/-- Reads a value.  An inline table in an array is one more table of it. -/
def value (total : Nat) : Nat → (inArray : Bool) → Reader Read
  | 0, _ => failHere .valueMissing
  | n + 1, inArray => do
    skipGaps
    let c ← peek
    let line := (← get).line
    match c with
    | none => failPast c .valueMissing
    | some '[' =>
      drop
      describe (← get).name true line
      return { value := .array (← elements total n []), isArray := true, line }
    | some '\x7b' =>
      drop
      let outer ← get
      let inner := outer.context ++ [outer.name]
      modify fun d => { d with context := inner, name := [] }
      markImplicit inner
      enter inner inArray
      let fields ← inlineFields total n inner []
      modify fun d => { d with context := outer.context, name := outer.name }
      return { value := .table fields, line }
    | some '"' | some '\'' => plain (do return .text (← text total))
    | some '.' => failPast c .floatStartsWithDot
    | some d =>
      if isDigitChar d then plain unsigned
      else if d = 'i' || d = 'n' then plain (numberWord d)
      else if d = '-' || d = '+' then plain (signed d)
      else if Text.isLetter d then plain word
      else failPast c (.notValue (Text.quotedChar d))

/-- The values of an array up to its closing bracket. -/
def elements (total : Nat) : Nat → List Value → Reader (List Value)
  | 0, acc => pure acc
  | n + 1, acc => do
    skipBlank total
    match ← peek with
    | some ',' => failHere .comma
    | some ']' =>
      drop
      return acc
    | _ =>
      let r ← value total n true
      skipBlank total
      let c ← peek
      match c with
      | some ',' =>
        drop
        elements total n (acc ++ [r.value])
      | some ']' =>
        drop
        return acc ++ [r.value]
      | _ => failPast c (.arrayEnd c)

/-- The names and values of an inline table up to its closing brace. -/
def inlineFields (total : Nat) : Nat → (table : Key) → Table → Reader Table
  | 0, _, acc => pure acc
  | n + 1, table, acc => do
    skipGaps
    match ← peek with
    | some '\n' => failAtLineEnd '\n' .tableLine
    | some '\r' => failAtLineEnd '\r' .tableLine
    | some '#' =>
      skipComment total
      inlineFields total n table acc
    | some ',' => failHere .comma
    | some '\x7d' =>
      drop
      return acc
    | _ =>
      let line := (← get).line
      startKey (← valueKey total total [])
      let r ← value total n false
      finishKey r.value r.isArray line
      let acc := acc.put (← get).name r.value
      modify fun d => { d with context := table }
      if (← inlineNext total) then inlineFields total n table acc else return acc

/-- What follows a value of an inline table: whether there is one more. -/
def inlineNext (total : Nat) : Reader Bool := do
  skipGaps
  if (← peek) = some '#' then skipComment total
  let c ← peek
  match c with
  | some '\n' => failAtLineEnd '\n' .tableLine
  | some '\r' => failAtLineEnd '\r' .tableLine
  | some ',' =>
    drop
    skipGaps
    if (← peek) = some '\x7d' then failHere .tableComma
    return true
  | some '\x7d' =>
    drop
    return false
  | _ => failPast c (.tableEnd c)

end

/-! ## Documents -/

/-- Reads the header of a table, its first bracket already taken. -/
def header (total : Nat) : Reader Unit := do
  let isArray ← accept '['
  let line := (← get).line
  let key ← tableKey total total []
  if isArray then
    let c ← peek
    if c = some ']' then drop else failPast c (.tablesEnd c)
  enter key isArray
  describe [] false line
  modify fun d => { d with keys := d.keys.push key }

/-- Reads a key and its value in the open table. -/
def keyValue (total : Nat) : Reader Unit := do
  let outer := (← get).context
  startKey (← valueKey total total [])
  let r ← value total total false
  finishKey r.value r.isArray r.line
  modify fun d => { d with context := outer, name := [] }

/-- Reads the items of a document. -/
def items (total : Nat) : Nat → Reader Unit
  | 0 => pure ()
  | n + 1 => do
    skipBlank total
    match ← peek with
    | none => pure ()
    | some c =>
      if c = '[' then
        drop
        header total
      else keyValue total
      skipGaps
      let c ← peek
      match c with
      | none => pure ()
      | some d =>
        if d = '#' || isLineEnd d then items total n else failPast c (.itemEnd c)

end Reader

/-- A document that has been read. -/
structure Document where
  root : Table
  /-- All keys, in the order they were written. -/
  keys : List Key
  /-- The lines of values, by the spelling of their keys. -/
  lines : List (Bytes × Nat)
deriving Repr, Inhabited

/-- A text without its byte order mark. -/
def withoutMark (text : Bytes) : Bytes :=
  match text with
  | 0xFF :: 0xFE :: s | 0xFE :: 0xFF :: s | 0xEF :: 0xBB :: 0xBF :: s => s
  | s => s

/-- Reads a document. -/
def read (text : Bytes) : Except Error Document :=
  let text := withoutMark text
  if (text.take 6).contains (0 : UInt8) then .error ⟨1, [], .nulByte⟩
  else
    let glyphs := text.glyphs
    let total := glyphs.length + 1
    match (Reader.items total total).run { rest := glyphs } with
    | .ok (_, d) => .ok ⟨d.root, d.keys.toList, d.info.map fun i => (i.1, i.2.line)⟩
    | .error e => .error e

/-- The line of the value of a key; 0 if none is known. -/
def Document.lineOf (d : Document) (k : Key) : Nat := (d.lines.lookup k.spelled).getD 0

end Storyline.Toml
