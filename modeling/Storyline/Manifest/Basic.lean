import Storyline.Session.Story
import Storyline.Text.Case
import Storyline.Toml.Value

/-!
# Manifests

A manifest is the file at the root of a project that names the story and holds its settings.  Its
texts are kept as they were written; `Manifest.settings` gives them their meaning or says which of
them has none.
-/

namespace Storyline

/-- What a manifest says. -/
structure Manifest where
  name : Bytes := []
  /-- The file that the story starts with. -/
  entry : Bytes := []
  extension : Bytes := []
  lineEndings : Bytes := []
  indentWidth : Int := 0
  divertScope : Bytes := []
  temporaryScope : Bytes := []
  localFallback : Bool := false
  maxDiagnostics : Int := 0
deriving DecidableEq, Repr, Inhabited

namespace Manifest

/-- The name of the file. -/
def fileName : Bytes := "storytell.toml"

/-- The manifest of a new project. -/
def new (name : Bytes) : Manifest where
  name := name
  entry := "main.story"
  extension := ".story"
  lineEndings := "auto"
  indentWidth := 4
  divertScope := "project"
  temporaryScope := "project"
  maxDiagnostics := 100

/-! ## Meaning -/

/-- A setting without a meaning. -/
inductive BadSetting where
  | lineEndings (written : Bytes)
  | indentWidth
  | divertScope (written : Bytes)
  | temporaryScope (written : Bytes)
deriving DecidableEq, Repr, Inhabited

namespace BadSetting

/-- The table and the name of a setting. -/
def place : BadSetting → String × String
  | lineEndings _ => ("syntax", "line_endings")
  | indentWidth => ("syntax", "indent_width")
  | divertScope _ => ("diverts", "divert_scope")
  | temporaryScope _ => ("diverts", "temp_divert_scope")

/-- What is wrong with a setting. -/
def message (b : BadSetting) : Bytes :=
  "[" ++ Bytes.ofString b.place.1 ++ "]." ++ Bytes.ofString b.place.2 ++ ": " ++ match b with
    | lineEndings s => "want lf, crlf or auto, got " ++ Text.quoted s
    | indentWidth => "must not be negative"
    | divertScope s | temporaryScope s => Outline.Scope.unknownMessage s

end BadSetting

/-- The line ending that a manifest asks for; nothing if each file shows its own. -/
def lineEnding (m : Manifest) : Except BadSetting (Option Markup.LineEnding) :=
  let written := m.lineEndings.lowered
  if written.isEmpty || written = ("auto" : Bytes) then .ok none
  else if written = ("lf" : Bytes) then .ok (some .lf)
  else if written = ("crlf" : Bytes) then .ok (some .crlf)
  else .error (.lineEndings m.lineEndings)

/-- The extension that a manifest asks for, with its dot. -/
def dottedExtension (m : Manifest) : Bytes :=
  if m.extension.isEmpty || m.extension.head? = some ('.' : UInt8) then m.extension
  else "." ++ m.extension

/-- A scope by its name. -/
def scope (bad : Bytes → BadSetting) (written : Bytes) : Except BadSetting Outline.Scope :=
  match Outline.Scope.ofName? written with
  | some s => .ok s
  | none => .error (bad written)

/-- The settings of the project. -/
def settings (m : Manifest) : Except BadSetting Settings := do
  let lineEnding ← m.lineEnding
  if m.indentWidth < 0 then throw .indentWidth
  let divertScope ← scope .divertScope m.divertScope
  let temporaryScope ← scope .temporaryScope m.temporaryScope
  return {
    extension := m.dottedExtension
    lineEnding
    indentWidth := m.indentWidth
    policy := ⟨divertScope, temporaryScope, m.localFallback⟩
    maxDiagnostics := m.maxDiagnostics }

/-! ## Writing -/

/-- A line that gives a name a value. -/
def line (name : String) (value : Bytes) : Bytes :=
  "  " ++ Bytes.ofString name ++ " = " ++ value ++ "\n"

/-- A line that gives a name a text, unless the text is empty. -/
def optionalLine (name : String) (text : Bytes) : Bytes :=
  if text.isEmpty then [] else line name (Toml.quotedText text)

/-- The text of a manifest. -/
def write (m : Manifest) : Bytes :=
  "[story]\n" ++ line "name" (Toml.quotedText m.name) ++ optionalLine "entry" m.entry
    ++ optionalLine "extension" m.extension
    ++ "\n[syntax]\n" ++ line "line_endings" (Toml.quotedText m.lineEndings)
    ++ line "indent_width" (Bytes.ofInt m.indentWidth)
    ++ "\n[diverts]\n" ++ line "divert_scope" (Toml.quotedText m.divertScope)
    ++ line "temp_divert_scope" (Toml.quotedText m.temporaryScope)
    ++ line "local_fallback" (if m.localFallback then "true" else "false")
    ++ "\n[diagnostics]\n" ++ line "max" (Bytes.ofInt m.maxDiagnostics)

end Manifest

end Storyline
