import Storyline.Diagnostic.Basic
import Storyline.Manifest.Basic
import Storyline.Storage.Disk
import Storyline.Toml.Parser

/-!
# Reading manifests

A manifest is a TOML document with four tables.  Names of tables and settings are found whatever
the case of their letters, but the name of the story has to be given in small ones.  What is wrong
with a manifest is reported on the line it concerns, as far as that is known.
-/

namespace Storyline.Manifest

/-! ## What can be wrong -/

/-- A value of the wrong kind. -/
structure Mismatch where
  line : Nat
  key : Toml.Key
  /-- The words for what was wanted and found. -/
  words : Bytes
deriving DecidableEq, Repr, Inhabited

/-- The wording of a mismatch. -/
def Mismatch.message (m : Mismatch) : Bytes :=
  let line : Bytes := if m.line = 0 then [] else "line " ++ Bytes.ofNat m.line ++ " "
  "toml: " ++ line ++ "(last key " ++ Text.quoted m.key.spelled ++ "): " ++ m.words

/-- Why a manifest is not accepted. -/
inductive Cause where
  | unreadable (e : Storage.SystemError)
  | malformed (e : Toml.Error)
  | mismatch (m : Mismatch)
  | unnamed
  | unknownKey (key : Toml.Key)
  | badSetting (b : BadSetting)
deriving Repr, Inhabited

namespace Cause

/-- What is wrong, in short. -/
def summary : Cause → Bytes
  | unreadable _ | malformed _ | mismatch _ => "failed to parse TOML"
  | unnamed => "missing [story].name"
  | unknownKey key => "unknown key " ++ key.spelled
  | badSetting b => b.message

/-- What is behind it, if anything is. -/
def detail? : Cause → Option Bytes
  | unreadable e => some e.message
  | malformed e => some e.message
  | mismatch m => some m.message
  | _ => none

/-- The line it was found on; 0 if that is not known. -/
def line : Cause → Nat
  | malformed e => e.line
  | _ => 0

/-- The name of the setting it is about; empty if there is none. -/
def key : Cause → Bytes
  | unnamed => "name"
  | unknownKey key => key.getLastD []
  | badSetting b => b.place.2
  | _ => []

/-- The message of the diagnostic. -/
def message (c : Cause) : Bytes :=
  match c with
  | malformed e =>
    c.summary ++ ": " ++ (if e.mistake.isSemantic then e.mistake.message else e.message)
  | _ => match c.detail? with
    | some d => c.summary ++ ": " ++ d
    | none => c.summary

end Cause

/-- A manifest that is not accepted. -/
structure Error where
  path : Bytes
  cause : Cause
deriving Repr, Inhabited

namespace Error

/-- The wording of a failure. -/
def message (e : Error) : Bytes :=
  let detail : Bytes := match e.cause.detail? with
    | some d => ": " ++ d
    | none => []
  e.path ++ ": " ++ e.cause.summary ++ detail

/-- The lines of a text with their line feeds, each with its offset. -/
def linesWithOffsets (text : Bytes) : List (Nat × Bytes) :=
  let pieces := Bytes.splitOnByte '\n' text
  let lines := pieces.dropLast.map (fun (l : Bytes) => l ++ "\n") ++ [pieces.getLastD []]
  (lines.foldl (fun (acc : List (Nat × Bytes) × Nat) l => (acc.1 ++ [(acc.2, l)], acc.2 + l.length))
    ([], 0)).1

/-- The place of a name on the first line that gives it a value. -/
def keySpan? (f : File) (key : Bytes) : Option Span :=
  (linesWithOffsets f.bytes).findSome? fun (offset, line) => do
    let trimmed := line.trimLeft Bytes.isGap
    let rest ← Bytes.stripPrefix? key trimmed
    if (rest.trimLeft Bytes.isGap).head? = some ('=' : UInt8) then
      let start := offset + (line.length - trimmed.length)
      some ⟨f.id, start, start + key.length⟩
    else none

/-- The place that a failure concerns. -/
def span (e : Error) (f : File) : Span :=
  let start : Span := ⟨f.id, 0, 0⟩
  if 0 < e.cause.line then f.lineSpan e.cause.line
  else if e.cause.key.isEmpty then start
  else (keySpan? f e.cause.key).getD start

/-- A failure as a diagnostic about the manifest. -/
def diagnostic (e : Error) (f : File) : Diagnostic :=
  .error .manifestInvalid (e.span f) e.cause.message

end Error

/-! ## Decoding -/

/-- One setting: its name, what it is, and how it is given a value. -/
structure Field where
  name : String
  wanted : String
  set? : Toml.Value → Manifest → Option Manifest

namespace Field

/-- A setting that is a text. -/
def text (name : String) (set : Bytes → Manifest → Manifest) : Field :=
  ⟨name, "string", fun v m => match v with | .text s => some (set s m) | _ => none⟩

/-- A setting that is an integer. -/
def integer (name : String) (set : Int → Manifest → Manifest) : Field :=
  ⟨name, "integer", fun v m => match v with | .integer n => some (set n m) | _ => none⟩

/-- A setting that is true or false. -/
def boolean (name : String) (set : Bool → Manifest → Manifest) : Field :=
  ⟨name, "boolean", fun v m => match v with | .boolean b => some (set b m) | _ => none⟩

end Field

/-- A table of a manifest: its name, what it is called in messages, and its settings. -/
structure Section where
  name : String
  title : String
  fields : List Field

/-- The tables of a manifest. -/
def sections : List Section := [
  ⟨"story", "project.StoryConfig", [
    .text "name" fun s m => { m with name := s },
    .text "entry" fun s m => { m with entry := s },
    .text "extension" fun s m => { m with extension := s }]⟩,
  ⟨"syntax", "project.SyntaxConfig", [
    .text "line_endings" fun s m => { m with lineEndings := s },
    .integer "indent_width" fun n m => { m with indentWidth := n }]⟩,
  ⟨"diverts", "project.DivertConfig", [
    .text "divert_scope" fun s m => { m with divertScope := s },
    .text "temp_divert_scope" fun s m => { m with temporaryScope := s },
    .boolean "local_fallback" fun b m => { m with localFallback := b }]⟩,
  ⟨"diagnostics", "project.DiagnosticsConfig", [
    .integer "max" fun n m => { m with maxDiagnostics := n }]⟩]

/-- What the kind of a value is called in messages. -/
def kindName : Toml.Value → String
  | .text _ => "string"
  | .integer _ => "int64"
  | .float _ => "float64"
  | .boolean _ => "bool"
  | .moment _ => "time.Time"
  | .array _ => "[]interface \x7b\x7d"
  | .table _ => "map[string]interface \x7b\x7d"
  | .tables _ => "[]map[string]interface \x7b\x7d"

/-- The entry with a name, or else the first one whose name differs only in the case of letters. -/
def pick? {α : Type} (nameOf : α → String) (entries : List α) (name : Bytes) : Option α :=
  entries.find? (fun e => Bytes.ofString (nameOf e) = name) <|>
    entries.find? fun e => Bytes.sameLetters (nameOf e) name

/-- A manifest with the keys that were understood. -/
abbrev Decoded := Manifest × List Toml.Key

/-- Takes one value of a table. -/
def decodeField (d : Toml.Document) (sec : Section) (table : Bytes) (acc : Decoded)
    (entry : Bytes × Toml.Value) : Except Cause Decoded :=
  match pick? Field.name sec.fields entry.1 with
  | none => .ok acc
  | some f =>
    let key := [table, entry.1]
    match f.set? entry.2 acc.1 with
    | some m => .ok (m, key :: acc.2)
    | none => .error (.mismatch ⟨d.lineOf key, key, "incompatible types: TOML value has type "
        ++ Bytes.ofString (kindName entry.2) ++ "; destination has type "
        ++ Bytes.ofString f.wanted⟩)

/-- Takes one table of a document. -/
def decodeSection (d : Toml.Document) (acc : Decoded) (entry : Bytes × Toml.Value) :
    Except Cause Decoded :=
  match pick? Section.name sections entry.1 with
  | none => .ok acc
  | some sec =>
    let key := [entry.1]
    match entry.2 with
    | .table fields => fields.foldlM (decodeField d sec entry.1) (acc.1, key :: acc.2)
    | v => .error (.mismatch ⟨d.lineOf key, key, "type mismatch for " ++ Bytes.ofString sec.title
        ++ ": expected table but found " ++ Bytes.ofString (kindName v)⟩)

/-- Whether a document names the story, in small letters. -/
def namesStory (d : Toml.Document) : Bool :=
  match d.root.get? "story" with
  | some (.table t) => (Toml.Table.get? t "name").isSome
  | _ => false

/-- The manifest that a text holds. -/
def read (text : Bytes) : Except Cause Manifest := do
  let d ← (Toml.read text).mapError .malformed
  let (m, known) ← d.root.foldlM (decodeSection d) ({}, [])
  if !namesStory d || m.name.trimBlank.isEmpty then throw .unnamed
  let known := known.map Toml.Key.spelled
  match d.keys.find? fun k => !known.contains k.spelled with
  | some key => throw (.unknownKey key)
  | none =>
    match m.settings with
    | .ok _ => return m
    | .error b => throw (.badSetting b)

/-- The manifest in a file. -/
def load (disk : Storage.Disk) (path : Bytes) : Except Error Manifest :=
  match disk.readFile path with
  | .error e => .error ⟨path, .unreadable e⟩
  | .ok text => (read text).mapError (⟨path, ·⟩)

/-! ## Finding -/

/-- The directories from one up to the root. -/
def upwards : (fuel : Nat) → Bytes → List Bytes
  | 0, dir => [dir]
  | n + 1, dir => if Path.dir dir = dir then [dir] else dir :: upwards n (Path.dir dir)

/-- A look at a place that failed. -/
structure FindError where
  path : Bytes
  cause : Storage.SystemError
deriving DecidableEq, Repr, Inhabited

/-- The wording of a failed look. -/
def FindError.message (e : FindError) : Bytes :=
  "stat " ++ Text.quoted e.path ++ ": " ++ e.cause.message

/-- The first manifest in some directories. -/
def findIn (disk : Storage.Disk) : List Bytes → Except FindError (Option Bytes)
  | [] => .ok none
  | dir :: rest =>
    let path := Path.join [dir, fileName]
    match disk.stat path with
    | .ok _ => .ok (some path)
    | .error e => if e.trouble = .missing then findIn disk rest else .error ⟨path, e⟩

/-- The path of the manifest at or above an absolute path. -/
def find (disk : Storage.Disk) (start : Bytes) : Except FindError (Option Bytes) :=
  let start := Path.clean start
  let dir := match disk.stat start with
    | .ok (.file _) => Path.dir start
    | _ => start
  findIn disk (upwards dir.length dir)

end Storyline.Manifest
