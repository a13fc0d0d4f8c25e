import Storyline.Diagnostic.Printer

/-!
# Releases

What the program says about itself: its version, and where and when it was built if that is known.
-/

namespace Storyline

/-- A build of the program. -/
structure Release where
  version : Bytes := "0.1.0-dev"
  /-- What it was built from; empty if not known. -/
  commit : Bytes := []
  /-- When it was built; empty if not known. -/
  date : Bytes := []
deriving DecidableEq, Repr, Inhabited

namespace Release

/-- The inks of the first three parts of a version. -/
def inks : List Ink := [.yellow, .green, .blue]

/-- A version with its first parts in colours; what follows a dash has none. -/
def paintedVersion (version : Bytes) : Bytes :=
  let (core, suffix) := match Bytes.cut? "-" version with
    | some (core, suffix) => (core, "-" ++ suffix)
    | none => (version, [])
  let parts := Bytes.splitOnByte '.' core
  let painted := parts.mapIdx fun i p => match inks[i]? with
    | some ink => ink.paint true p
    | none => p
  Bytes.join "." painted ++ suffix

/-- One line about a release. -/
def describe (r : Release) (colored : Bool) : Bytes :=
  let known := [r.commit, r.date].filter fun s => !s.isEmpty
  let details : Bytes := if known.isEmpty then [] else " (" ++ Bytes.join ", " known ++ ")"
  "storytell " ++ (if colored then paintedVersion r.version else r.version) ++ details

/-- A release as JSON; what is not known is left out. -/
def toJson (r : Release) (escaping : Json.Escaping) : Json :=
  let text (s : Bytes) : Json := .string (Json.spell escaping s)
  let known := [("git_commit", r.commit), ("build_date", r.date)].filter fun f => !f.2.isEmpty
  .record ([("tool", .str "storytell"), ("version", text r.version)]
    ++ known.map fun f => (f.1, text f.2))

end Release

end Storyline
