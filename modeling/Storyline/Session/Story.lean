import Storyline.Diagnostic.Bag
import Storyline.Markup.Parser
import Storyline.Markup.Walk
import Storyline.Outline.Basic
import Storyline.Script.Parser
import Storyline.Variables.Fold

/-!
# Story files

What reading one file of a project gives: its tree, its scripts, and what there is to say about
either.  Reading a file does not depend on any other file.
-/

namespace Storyline

/-- The settings of a project. -/
structure Settings where
  /-- What the names of story files end in. -/
  extension : Bytes := ".story"
  /-- What ends a line; without one, each file shows it. -/
  lineEnding : Option Markup.LineEnding := none
  /-- How many spaces make one level of indentation; the default if not positive. -/
  indentWidth : Int := 0
  policy : Outline.Policy := {}
  /-- How many diagnostics are kept for a file; all of them if not positive. -/
  maxDiagnostics : Int := 0
deriving DecidableEq, Repr, Inhabited

namespace Settings

/-- The settings with the default extension if there is none. -/
def normalized (s : Settings) : Settings :=
  if s.extension.isEmpty then { s with extension := ".story" } else s

/-- The layout of a file. -/
def layoutOf (s : Settings) (f : File) : Markup.Layout :=
  let detected := if f.flags.crlf then Markup.LineEnding.crlf else .lf
  .withWidth (s.lineEnding.getD detected) s.indentWidth

end Settings

/-- A file that was read. -/
structure Story where
  file : File
  document : Markup.Document
  /-- What markup and scripts gave rise to, in reading order. -/
  diagnostics : List Diagnostic
  /-- The scripts of the document, and what they parse to. -/
  scripts : List (Markup.ScriptRef × Variables.Fragment)
deriving Repr, Inhabited

namespace Story

/-- Parses a script of a file; what is said about it is said about the file. -/
def parseScript (limit : Nat) (file : FileId) (ref : Markup.ScriptRef) :
    Variables.Fragment × List Diagnostic :=
  let parsed := Script.parse ref.raw file limit
  (⟨file, ref.span.start, parsed.script⟩,
    parsed.diagnostics.map fun d => d.shift ref.span.start file)

/-- Reads a file. -/
def ofText (s : Settings) (id : FileId) (path text : Bytes) : Story :=
  let file := File.ofBytes id path text
  let limit := s.maxDiagnostics.toNat
  let parsed := Markup.parse file (s.layoutOf file) limit
  let refs := parsed.document.scripts
  let scripts := refs.map fun r => (r, parseScript limit id r)
  let bag := (Bag.withLimit s.maxDiagnostics).merge
    (parsed.diagnostics ++ scripts.flatMap fun p => p.2.2)
  { file, document := parsed.document, diagnostics := bag.sort.items.toList
    scripts := scripts.map fun p => (p.1, p.2.1) }

end Story

end Storyline
