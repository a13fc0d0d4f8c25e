import Storyline.Diagnostic.Code
import Storyline.Source.Span

/-!
# Diagnostics

A diagnostic is a message about a place in a file.  It may carry notes about other places and
fixes: named lists of edits that would remove the problem.
-/

namespace Storyline

/-- A remark about a place that belongs to a diagnostic. -/
structure Note where
  span : Span
  message : Bytes
deriving DecidableEq, Repr, Inhabited

/-- Replacement of the text under a span. -/
structure Edit where
  span : Span
  text : Bytes
deriving DecidableEq, Repr, Inhabited

/-- Edits that together remove a problem. -/
structure Fix where
  title : Bytes
  edits : List Edit
deriving DecidableEq, Repr, Inhabited

namespace Fix

/-- Replace the text under a span. -/
def replace (title : Bytes) (span : Span) (text : Bytes) : Fix := ⟨title, [⟨span, text⟩]⟩

/-- Insert text before a span. -/
def insertBefore (title : Bytes) (span : Span) (text : Bytes) : Fix :=
  ⟨title, [⟨{ span with stop := span.start }, text⟩]⟩

/-- Remove the text under a span. -/
def delete (title : Bytes) (span : Span) : Fix := ⟨title, [⟨span, []⟩]⟩

end Fix

/-- A message about a place in a file. -/
structure Diagnostic where
  severity : Severity
  code : Code
  message : Bytes
  span : Span
  notes : List Note := []
  fixes : List Fix := []
deriving DecidableEq, Repr, Inhabited

namespace Diagnostic

/-- A diagnostic of severity error. -/
def error (code : Code) (span : Span) (message : Bytes) : Diagnostic :=
  { severity := .error, code, message, span }

/-- A diagnostic of severity warning. -/
def warning (code : Code) (span : Span) (message : Bytes) : Diagnostic :=
  { severity := .warning, code, message, span }

/-- Whether the diagnostic reports an error, or something graver. -/
def isError (d : Diagnostic) : Bool := d.severity.isFatal

/-- The diagnostic with its own span and those of its notes moved into an enclosing file; fixes
already point there. -/
def shift (d : Diagnostic) (base : Nat) (file : FileId) : Diagnostic :=
  { d with
    span := d.span.shift base file
    notes := d.notes.map fun n => { n with span := n.span.shift base file } }

/-- What makes two diagnostics the same: code, place and message. -/
def identity (d : Diagnostic) : Code × Span × Bytes := (d.code, d.span, d.message)

/-- Two diagnostics with the same code, place and message. -/
def sameAs (d e : Diagnostic) : Bool := d.identity = e.identity

/-- Reading order: by file, start, stop, then graver first, then code. -/
def notAfter (d e : Diagnostic) : Bool :=
  if d.span.file ≠ e.span.file then d.span.file < e.span.file
  else if d.span.start ≠ e.span.start then d.span.start < e.span.start
  else if d.span.stop ≠ e.span.stop then d.span.stop < e.span.stop
  else if d.severity ≠ e.severity then e.severity.rank < d.severity.rank
  else d.code.number ≤ e.code.number

/-- Diagnostics in reading order; those that compare equal keep theirs. -/
def sorted (ds : List Diagnostic) : List Diagnostic := ds.mergeSort notAfter

/-- Diagnostics without those that repeat an earlier one. -/
def distinct (ds : List Diagnostic) : List Diagnostic :=
  (ds.foldl (fun (kept : Array Diagnostic) d =>
    if kept.any (sameAs d) then kept else kept.push d) #[]).toList

/-- Whether a list of diagnostics should fail a run; `strict` counts warnings too. -/
def anyFatal (ds : List Diagnostic) (strict : Bool) : Bool :=
  ds.any fun d => d.isError || (strict && d.severity = .warning)

/-- How many errors and warnings there are, in words. -/
def summary (ds : List Diagnostic) : Bytes :=
  let errors := ds.countP fun d => d.severity = .error
  let warnings := ds.countP fun d => d.severity = .warning
  if errors = 0 ∧ warnings = 0 then "no problems found"
  else Bytes.ofNat errors ++ " error(s), " ++ Bytes.ofNat warnings ++ " warning(s)"

end Diagnostic

end Storyline
