import Storyline.Diagnostic.Basic
import Storyline.Json.Basic

/-!
# Diagnostics as data

A diagnostic as JSON with its spans as numbers, for tools that have the files at hand.  Notes and
fixes are left out if there are none.
-/

namespace Storyline

/-- A span as the number of its file and its two offsets. -/
def Span.toJson (s : Span) : Json := .array [.nat s.file, .nat s.start, .nat s.stop]

/-- A member that is left out if it is empty. -/
def Json.optionalList (name : String) (items : List Json) : List (String × Json) :=
  if items.isEmpty then [] else [(name, .array items)]

/-- A fix as JSON. -/
def Fix.toJson (f : Fix) : Json :=
  .record [("title", .text f.title),
    ("edits", .array (f.edits.map fun e =>
      .record [("span", e.span.toJson), ("text", .text e.text)]))]

/-- A diagnostic as JSON. -/
def Diagnostic.record (d : Diagnostic) : Json :=
  .record ([("severity", .str d.severity.name), ("code", .text d.code.id),
      ("message", .text d.message), ("span", d.span.toJson)]
    ++ Json.optionalList "notes" (d.notes.map fun n =>
      .record [("span", n.span.toJson), ("message", .text n.message)])
    ++ Json.optionalList "fixes" (d.fixes.map (·.toJson)))

end Storyline
