import Storyline.Text.Quoted
import Storyline.Toml.Value

/-!
# Mistakes in TOML

What can be wrong with a document, with the wording of each mistake.  A mistake is found on a line
and after a key, and its text says so.
-/

namespace Storyline.Toml

/-- The delimiter of a text. -/
inductive Quote where
  | basic
  | literal
  | longBasic
  | longLiteral
deriving DecidableEq, Repr, Inhabited

/-- What is wrong with a document.  Where a character is given, it is the one that was found, and
nothing stands for the end of the document. -/
inductive Mistake where
  /-- A byte that belongs to no character, or U+FFFD. -/
  | strayByte (b : UInt8)
  | control (c : Char)
  | nulByte
  | itemEnd (found : Option Char)
  | tablesEnd (found : Option Char)
  | tableNameMissing
  | tableNameStartsWithDot
  | tableNameEnd (found : Option Char)
  | keyMissing
  | keyStartsWithDot
  | keyPartMissing
  | keyPartStartsWithDot
  | separatorMissing
  | keyEnd (found : Option Char)
  | valueMissing
  | notValue (shown : Bytes)
  | floatStartsWithDot
  | comma
  | arrayEnd (found : Option Char)
  | tableLine
  | tableComma
  | tableEnd (found : Option Char)
  | textEnd (quote : Quote)
  | textLine
  | escape (found : Option Char)
  | tooManyQuotes (quote : Quote)
  | codeDigits (long : Bool) (soFar : Bytes)
  | notDigit (found : Option Char)
  | signedBase (spelling : Bytes)
  | notInBase (base : Char) (spelling : Bytes)
  | floatWord (spelling : Bytes)
  | outOfRange (spelling : Bytes) (integer : Bool)
  | underscores (integer : Bool) (spelling : Bytes)
  | leadingZeros (integer : Bool) (spelling : Bytes)
  | fractionMissing (spelling : Bytes)
  | notFloat (spelling : Bytes)
  | notMoment (spelling : Bytes)
  | escapedGap (gap : UInt8)
  | notCharacter (digits : Bytes)
  | alreadyValue (key : Key)
  | notTables (key : Key)
  | alreadyDefined (key : Key)
deriving Repr, Inhabited

namespace Mistake

/-- What was found, as a quoted character; the end of the document shows as character 0. -/
def quotedFound (c : Option Char) : Bytes := Text.quotedChar (c.getD '\x00')

/-- What was found, in words at the end of the document. -/
def foundInWords : Option Char → Bytes
  | some c => "'" ++ String.utf8EncodeChar c ++ "'"
  | none => "end of file"

/-- The kind of a number. -/
def kindOfNumber (integer : Bool) : Bytes := if integer then "integer" else "float"

/-- The wording of a mistake. -/
def message : Mistake → Bytes
  | strayByte b => "invalid UTF-8 byte: 0x" ++ Bytes.hexPadded 2 b.toNat
  | control c =>
    "TOML files cannot contain control characters: '0x" ++ Bytes.hexPadded 2 c.toNat ++ "'"
  | nulByte => "files cannot contain NULL bytes; probably using UTF-16; TOML files must be UTF-8"
  | itemEnd c => "expected a top-level item to end with a newline, comment, or EOF, but got "
      ++ quotedFound c ++ " instead"
  | tablesEnd c =>
    "expected end of table array name delimiter ']', but got " ++ quotedFound c ++ " instead"
  | tableNameMissing => "unexpected end of table name (table names cannot be empty)"
  | tableNameStartsWithDot => "unexpected table separator (table names cannot be empty)"
  | tableNameEnd c =>
    "expected '.' or ']' to end table name, but got " ++ quotedFound c ++ " instead"
  | keyMissing => "unexpected '=': key name appears blank"
  | keyStartsWithDot => "unexpected '.': keys cannot start with a '.'"
  | keyPartMissing => "unexpected '='"
  | keyPartStartsWithDot => "unexpected '.'"
  | separatorMissing => "unexpected EOF; expected key separator '='"
  | keyEnd c => "expected '.' or '=', but got " ++ quotedFound c ++ " instead"
  | valueMissing => "unexpected EOF; expected value"
  | notValue shown => "expected value but found " ++ shown ++ " instead"
  | floatStartsWithDot => "floats must start with a digit, not '.'"
  | comma => "unexpected comma"
  | arrayEnd c => "expected a comma (',') or array terminator (']'), but got " ++ foundInWords c
  | tableLine => "newlines not allowed within inline tables"
  | tableComma => "trailing comma not allowed in inline tables"
  | tableEnd c => "expected a comma or an inline table terminator '\x7d', but got "
      ++ foundInWords c ++ " instead"
  | textEnd .basic => "unexpected EOF; expected '\"'"
  | textEnd .literal => "unexpected EOF; expected \"'\""
  | textEnd .longBasic => "unexpected EOF; expected '\"\"\"'"
  | textEnd .longLiteral => "unexpected EOF; expected \"'''\""
  | textLine => "strings cannot contain newlines"
  | escape c => "invalid escape in string '\\" ++ String.utf8EncodeChar (c.getD '\x00') ++ "'"
  | tooManyQuotes .longLiteral => "unexpected \"''''''\""
  | tooManyQuotes _ => "unexpected '\"\"\"\"\"\"'"
  | codeDigits long soFar =>
    (if long then "expected eight hexadecimal digits after '\\U', but got "
      else "expected four hexadecimal digits after '\\u', but got ")
      ++ Text.quoted soFar ++ " instead"
  | notDigit c => "expected a digit but got " ++ quotedFound c
  | signedBase s => "cannot use sign with non-decimal numbers: '" ++ s ++ "'"
  | notInBase base s =>
    (if base = 'b' then "not a binary number: '"
      else if base = 'o' then "not an octal number: '" else "not a hexidecimal number: '")
      ++ s ++ "'"
  | floatWord s => "invalid float: '" ++ s ++ "'"
  | outOfRange s integer => s ++ " is out of range for " ++ (if integer then "int64" else "float64")
  | underscores integer s => "Invalid " ++ kindOfNumber integer ++ " " ++ Text.quoted s
      ++ ": underscores must be surrounded by digits"
  | leadingZeros integer s => "Invalid " ++ kindOfNumber integer ++ " " ++ Text.quoted s
      ++ ": cannot have leading zeroes"
  | fractionMissing s =>
    "Invalid float " ++ Text.quoted s ++ ": '.' must be followed by one or more digits"
  | notFloat s => "Invalid float value: " ++ Text.quoted s
  | notMoment s => "Invalid TOML Datetime: " ++ Text.quoted s ++ "."
  | escapedGap b => "invalid escape: '\\" ++ [b] ++ "'"
  | notCharacter digits => "Escaped character '\\u" ++ digits ++ "' is not valid UTF-8."
  | alreadyValue key => "Key '" ++ key.spelled ++ "' was already created as a hash."
  | notTables key =>
    "Key '" ++ key.spelled ++ "' was already created and cannot be used as an array."
  | alreadyDefined key => "Key '" ++ key.spelled ++ "' has already been defined."

/-- Whether a mistake is one of the meaning of well-formed pieces, and not of their form.  The
range of a number counts as form. -/
def isSemantic : Mistake → Bool
  | nulByte | underscores .. | leadingZeros .. | fractionMissing _ | notFloat _ | notMoment _
  | escapedGap _ | notCharacter _ | alreadyValue _ | notTables _ | alreadyDefined _ => true
  | _ => false

end Mistake

/-- A mistake and where it was found. -/
structure Error where
  line : Nat
  /-- The spelling of the key that was read last; empty before the first one. -/
  lastKey : Bytes
  mistake : Mistake
deriving Repr, Inhabited

/-- The wording of a mistake with its place. -/
def Error.message (e : Error) : Bytes :=
  let after : Bytes :=
    if e.lastKey.isEmpty then [] else " (last key " ++ Text.quoted e.lastKey ++ ")"
  "toml: line " ++ Bytes.ofNat e.line ++ after ++ ": " ++ e.mistake.message

end Storyline.Toml
