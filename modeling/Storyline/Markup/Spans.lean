import Storyline.Text.Quoted
import Storyline.Source.File
import Storyline.Markup.Walk

/-!
# Spans of a document

A parsed document agrees with its file: every block, attribute and divert segment lies inside the
file, and every script is the text under its span, listed in source order.  `Document.violation?`
finds the first place where that fails.
-/

namespace Storyline.Markup

/-- How a document can disagree with a file. -/
inductive Violation where
  /-- There is no file. -/
  | noFile
  /-- The document belongs to another file. -/
  | otherFile (document file : FileId)
  /-- A span points into another file. -/
  | foreign (what : Bytes) (span : Span)
  /-- A span does not lie inside the file. -/
  | outside (what : Bytes) (span : Span) (size : Nat)
  /-- A script is not the text under its span. -/
  | altered (index : Nat) (raw found : Bytes)
  /-- A script is listed after a later one. -/
  | unordered (index start last : Nat)
deriving DecidableEq, Repr, Inhabited

/-- The wording of a violation. -/
def Violation.message : Violation → Bytes
  | noFile => "nil document or file"
  | otherFile d f => "document file id " ++ Bytes.ofNat d ++ ", want " ++ Bytes.ofNat f
  | foreign what s =>
    what ++ " span " ++ s.describe ++ " points to file " ++ Bytes.ofNat s.file
  | outside what s size =>
    what ++ " span " ++ s.describe ++ " outside [0," ++ Bytes.ofNat size ++ "]"
  | altered i raw found =>
    "script " ++ Bytes.ofNat i ++ ": raw " ++ Storyline.Text.quoted raw ++ " but file has "
      ++ Storyline.Text.quoted found
  | unordered i start last =>
    "script " ++ Bytes.ofNat i ++ " at " ++ Bytes.ofNat start ++ " listed after "
      ++ Bytes.ofNat last

/-- What is wrong with the place of something in a file. -/
def spanViolation? (f : File) (what : Bytes) (s : Span) : Option Violation :=
  if s.file ≠ f.id then some (.foreign what s)
  else if s.stop < s.start ∨ f.size < s.stop then some (.outside what s f.size)
  else none

/-- What is wrong with the places of a block, its attributes and its path. -/
def blockViolation? (f : File) (b : Block) : Option Violation :=
  (spanViolation? f b.kind.name b.span)
    <|> (b.attrs.findSome? fun a => spanViolation? f ("attribute @" ++ a.name) a.span)
    <|> (match b with
      | .divert d => d.path.findSome? fun s => spanViolation? f "divert segment" s.span
      | _ => none)

/-- What is wrong with the scripts from the one with number `index` on; no script may start before
`last`. -/
def scriptViolation? (f : File) : (index last : Nat) → List ScriptRef → Option Violation
  | _, _, [] => none
  | index, last, r :: rest =>
    (spanViolation? f "script" r.span)
      <|> (if f.text r.span ≠ r.raw then some (.altered index r.raw (f.text r.span)) else none)
      <|> (if r.span.start < last then some (.unordered index r.span.start last) else none)
      <|> scriptViolation? f (index + 1) r.span.start rest

/-- The first disagreement between a document and a file. -/
def Document.violation? (d : Document) : Option File → Option Violation
  | none => some .noFile
  | some f =>
    if d.file ≠ f.id then some (.otherFile d.file f.id)
    else (d.visits.findSome? fun v => blockViolation? f v.block)
      <|> scriptViolation? f 0 0 d.scripts

end Storyline.Markup
