import Storyline.Diagnostic.Basic
import Storyline.Source.File

/-!
# Repairing files

A repair takes fixes in source order, each with all of its edits or not at all: a fix whose edits
do not fit into the files, or touch what an earlier fix changes, is passed over.  What is left are
disjoint edits, so the new text of a file does not depend on the order they are made in.
-/

namespace Storyline

namespace Edit

/-- Whether two edits get in each other's way: they start at the same place, or share a byte. -/
def overlaps (e f : Edit) : Bool :=
  e.span.start = f.span.start || (e.span.start < f.span.stop && f.span.start < e.span.stop)

/-- A content with edits made, given by increasing start; `offset` bytes are copied. -/
def apply (content : Content) : (offset : Nat) → List Edit → Bytes
  | offset, [] => content.slice offset content.size
  | offset, e :: es =>
    content.slice offset e.span.start ++ e.text ++ apply content e.span.stop es

/-- A content with edits made. -/
def applyAll (content : Content) (es : List Edit) : Bytes :=
  apply content 0 (es.mergeSort fun e f => e.span.start ≤ f.span.start)

end Edit

namespace Repair

/-- Finds files by their numbers. -/
abbrev Files := FileId → Option File

/-- Why a fix is passed over. -/
inductive Obstacle where
  | noEdits
  | onlyOne
  | unknownFile (file : FileId)
  | outside (span : Span) (path : Bytes)
  | overlapsEarlier
  | overlapsItself
deriving DecidableEq, Repr, Inhabited

/-- The wording of an obstacle. -/
def Obstacle.message : Obstacle → Bytes
  | noEdits => "fix has no edits"
  | onlyOne => "only one fix per run"
  | unknownFile f => "unknown file " ++ Bytes.ofNat f
  | outside s path => "edit " ++ s.describe ++ " is outside " ++ path
  | overlapsEarlier => "overlaps an earlier fix"
  | overlapsItself => "edits of the fix overlap"

/-- A fix that was taken. -/
structure Applied where
  title : Bytes
  code : Code
  /-- The file that its diagnostic is about. -/
  path : Bytes
  edits : Nat
deriving DecidableEq, Repr, Inhabited

/-- A fix that was passed over. -/
structure Skipped where
  title : Bytes
  reason : Obstacle
deriving DecidableEq, Repr, Inhabited

/-- A file with its new text. -/
structure Change where
  file : FileId
  path : Bytes
  text : Bytes
  edits : Nat
deriving DecidableEq, Repr, Inhabited

/-- Why nothing is repaired. -/
inductive Failure where
  | noFiles
  | noFixes
deriving DecidableEq, Repr, Inhabited

/-- The wording of a failure. -/
def Failure.message : Failure → Bytes
  | noFiles => "fix: no files"
  | noFixes => "no applicable fixes found"

/-- What a repair does. -/
structure Plan where
  applied : List Applied := []
  skipped : List Skipped := []
  changes : List Change := []
deriving DecidableEq, Repr, Inhabited

/-! ## Choosing -/

/-- What stands in the way of an edit, given the edits taken so far and those of the same fix
before it. -/
def obstacle? (files : Files) (taken before : List Edit) (e : Edit) : Option Obstacle :=
  match files e.span.file with
  | none => some (.unknownFile e.span.file)
  | some f =>
    if e.span.stop < e.span.start ∨ f.size < e.span.stop then some (.outside e.span f.path)
    else if taken.any fun t => t.span.file = e.span.file && e.overlaps t then
      some .overlapsEarlier
    else if before.any fun t => t.span.file = e.span.file && e.overlaps t then
      some .overlapsItself
    else none

/-- What stands in the way of the edits of a fix; `before` are those already looked at. -/
def firstObstacle? (files : Files) (taken : List Edit) :
    (before : List Edit) → List Edit → Option Obstacle
  | _, [] => none
  | before, e :: es =>
    (obstacle? files taken before e) <|> firstObstacle? files taken (before ++ [e]) es

/-- A fix and the diagnostic that offers it. -/
structure Candidate where
  diagnostic : Diagnostic
  fix : Fix
deriving Repr, Inhabited

/-- The fixes that diagnostics offer, in order. -/
def candidates (ds : List Diagnostic) : List Candidate :=
  ds.flatMap fun d => d.fixes.map fun f => ⟨d, f⟩

/-- Source order: by file and start of the diagnostic. -/
def Candidate.notAfter (a b : Candidate) : Bool :=
  let (s, t) := (a.diagnostic.span, b.diagnostic.span)
  if s.file ≠ t.file then s.file < t.file else s.start ≤ t.start

/-- What was chosen so far. -/
structure Choice where
  taken : List Edit := []
  applied : List Applied := []
  skipped : List Skipped := []
deriving DecidableEq, Repr, Inhabited

/-- Takes or passes over one more fix; without `all` only one is taken. -/
def choose (files : Files) (all : Bool) (c : Choice) (k : Candidate) : Choice :=
  let obstacle :=
    if !all && c.applied.length = 1 then some .onlyOne
    else firstObstacle? files c.taken [] k.fix.edits
  match obstacle with
  | some reason => { c with skipped := c.skipped ++ [⟨k.fix.title, reason⟩] }
  | none =>
    let path := ((files k.diagnostic.span.file).map (·.path)).getD []
    { c with
      taken := c.taken ++ k.fix.edits
      applied := c.applied ++ [⟨k.fix.title, k.diagnostic.code, path, k.fix.edits.length⟩] }

/-! ## Planning -/

/-- The files that edits change, in increasing order. -/
def touched (es : List Edit) : List FileId :=
  (es.map (·.span.file)).eraseDups.mergeSort

/-- The new texts of the files that edits change. -/
def changes (files : Files) (es : List Edit) : List Change :=
  (touched es).filterMap fun id =>
    let mine := es.filter (·.span.file = id)
    (files id).map fun f => ⟨id, f.path, Edit.applyAll f.content mine, mine.length⟩

/-- The repair by the fixes of diagnostics: all that go together, or only the first one. -/
def plan (files : Option Files) (ds : List Diagnostic) (all : Bool) : Plan × Option Failure :=
  match files with
  | none => ({}, some .noFiles)
  | some files =>
    let (empty, rest) := (candidates ds).partition fun k => k.fix.edits.isEmpty
    let skipped : List Skipped := empty.map fun k => ⟨k.fix.title, .noEdits⟩
    let c := (rest.mergeSort Candidate.notAfter).foldl (choose files all) { skipped }
    if c.applied.isEmpty then ({ skipped := c.skipped }, some .noFixes)
    else (⟨c.applied, c.skipped, changes files c.taken⟩, none)

end Repair

end Storyline
