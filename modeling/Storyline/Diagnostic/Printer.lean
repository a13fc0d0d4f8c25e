import Storyline.Diagnostic.Repair
import Storyline.Json.Writer
import Storyline.Text.Width

/-!
# Printing diagnostics

For people: the place and the message, the line it is about with marks under the place, then notes
and fixes.  For programs: JSON.
-/

namespace Storyline

/-! ## Colours -/

/-- How a piece of text stands out on a terminal: numbers of display attributes. -/
structure Ink where
  codes : List Nat
deriving DecidableEq, Repr, Inhabited

namespace Ink

def red : Ink := ⟨[31, 1]⟩
def yellow : Ink := ⟨[33, 1]⟩
def cyan : Ink := ⟨[36, 1]⟩
def green : Ink := ⟨[32, 1]⟩
def blue : Ink := ⟨[34, 1]⟩
def thinBlue : Ink := ⟨[34]⟩
def bold : Ink := ⟨[1]⟩

/-- The attribute that ends another one. -/
def ending (code : Nat) : Nat := if code = 1 then 22 else 0

/-- An escape sequence that sets attributes. -/
def sequence (codes : List Nat) : Bytes :=
  "\x1b[" ++ Bytes.join ";" (codes.map Bytes.ofNat) ++ "m"

/-- A text in an ink, if colours are wanted. -/
def paint (ink : Ink) (wanted : Bool) (s : Bytes) : Bytes :=
  if wanted then sequence ink.codes ++ s ++ sequence (ink.codes.map ending) else s

end Ink

namespace Diagnostic

/-! ## Paths -/

/-- How the path of a file is shown. -/
inductive PathStyle where
  /-- As it is. -/
  | relative
  /-- Below a directory. -/
  | absolute
  /-- Only its last part. -/
  | basename
deriving DecidableEq, Repr, Inhabited

/-- The path of a file as it is shown. -/
def shownPath (style : PathStyle) (baseDir : Bytes) : Option File → Bytes
  | none => "<unknown>"
  | some f =>
    match style with
    | .absolute =>
      if baseDir.isEmpty || Path.isRooted f.path then f.path else Path.join [baseDir, f.path]
    | .basename => Path.base f.path
    | .relative => f.path

/-! ## For people -/

/-- What is shown to people. -/
structure PrettyOptions where
  color : Bool := false
  /-- How many lines are shown before the one that a diagnostic is about. -/
  context : Nat := 0
  pathStyle : PathStyle := .relative
  baseDir : Bytes := []
  notes : Bool := false
  fixes : Bool := false
deriving DecidableEq, Repr, Inhabited

/-- The ink of a severity. -/
def severityInk (s : Severity) : Ink :=
  if s = .error then .red else if s = .warning then .yellow else .cyan

/-- One numbered line of a file. -/
def numberedLine (color : Bool) (f : File) (width n : Nat) : Bytes :=
  Ink.thinBlue.paint color (Bytes.padLeft width (Bytes.ofNat n)) ++ " "
    ++ Ink.thinBlue.paint color "|" ++ " "
    ++ (f.line n).flatMap (fun (b : UInt8) => if b = '\t' then ("    " : Bytes) else [b]) ++ "\n"

/-- The line that a span starts on, some lines before it, and marks under the span. -/
def snippet (o : PrettyOptions) (f : File) (s : Span) : Bytes :=
  let start := f.position s.start
  let stop := f.position s.stop
  let before := o.context % 0x100000000
  let first := if o.context = 0 then start.line
    else if before < start.line then start.line - before else 1
  let width := (Bytes.ofNat start.line).length
  let lines := (List.range' first (start.line + 1 - first)).flatMap (numberedLine o.color f width)
  let line := f.line start.line
  let column := min (start.column - 1) line.length
  let last := if stop.line = start.line then min (stop.column - 1) line.length else line.length
  let marked := (line.take (max last column)).drop column
  let run := max (Text.cells marked) 1
  lines ++ Bytes.repeated width " " ++ " " ++ Ink.thinBlue.paint o.color "|" ++ " "
    ++ Bytes.repeated (Text.cells (line.take column)) " "
    ++ Ink.red.paint o.color ("^" ++ Bytes.repeated (run - 1) "~") ++ "\n"

/-- A remark below a diagnostic. -/
def remark (color : Bool) (label text : Bytes) : Bytes :=
  "  " ++ Ink.blue.paint color label ++ " " ++ text ++ "\n"

/-- One diagnostic for people. -/
def prettyOne (o : PrettyOptions) (files : Repair.Files) (d : Diagnostic) : Bytes :=
  let f := files d.span.file
  let place := match f with
    | some f =>
      let p := f.position d.span.start
      ":" ++ Bytes.ofNat p.line ++ ":" ++ Bytes.ofNat p.column
    | none => []
  Ink.bold.paint o.color (shownPath o.pathStyle o.baseDir f ++ place) ++ ": "
    ++ (severityInk d.severity).paint o.color d.severity.name.toUpper ++ " " ++ d.code.id ++ ": "
    ++ d.message ++ "\n"
    ++ (f.map fun f => snippet o f d.span).getD []
    ++ (if o.notes then d.notes.flatMap fun n => remark o.color "note:" n.message else [])
    ++ (if o.fixes then d.fixes.flatMap fun x => remark o.color "fix:" x.title else [])

/-- Diagnostics for people, with an empty line between them. -/
def pretty (o : PrettyOptions) (files : Repair.Files) (ds : List Diagnostic) : Bytes :=
  Bytes.join "\n" (ds.map (prettyOne o files))

/-! ## For programs -/

/-- What is shown to programs. -/
structure JsonOptions where
  /-- Whether lines and columns are given beside offsets. -/
  positions : Bool := false
  pathStyle : PathStyle := .relative
  baseDir : Bytes := []
  /-- How many diagnostics are shown at most; 0 means all. -/
  max : Nat := 0
  notes : Bool := false
deriving DecidableEq, Repr, Inhabited

/-- A place as JSON. -/
def locationJson (o : JsonOptions) (files : Repair.Files) (s : Span) : Json :=
  let f := files s.file
  let positions := match o.positions, f with
    | true, some f =>
      let (a, b) := (f.position s.start, f.position s.stop)
      [("start_line", a.line), ("start_col", a.column), ("end_line", b.line), ("end_col", b.column)]
    | _, _ => []
  .record ([("file", .text (shownPath o.pathStyle o.baseDir f)), ("start_byte", .nat s.start),
      ("end_byte", .nat s.stop)]
    ++ (positions.filter fun p => p.2 != 0).map fun p => (p.1, .nat p.2))

/-- One diagnostic as JSON. -/
def toJson (o : JsonOptions) (files : Repair.Files) (d : Diagnostic) : Json :=
  let notes := if o.notes then d.notes else []
  .record ([("severity", .str d.severity.name), ("code", .text d.code.id),
      ("message", .text d.message), ("location", locationJson o files d.span)]
    ++ if notes.isEmpty then [] else [("notes", .array (notes.map fun n =>
      .record [("message", .text n.message), ("location", locationJson o files n.span)]))])

/-- Diagnostics as JSON: the first ones, how many they are, and how many were left out. -/
def listing (o : JsonOptions) (files : Repair.Files) (ds : List Diagnostic) : Json :=
  let shown := if o.max = 0 then ds else ds.take o.max
  let omitted := ds.length - shown.length
  .record ([("diagnostics", .array (shown.map (toJson o files))), ("count", .nat shown.length)]
    ++ if omitted = 0 then [] else [("omitted", .nat omitted)])

end Diagnostic

end Storyline
