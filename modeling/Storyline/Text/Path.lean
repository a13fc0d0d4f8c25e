import Storyline.Text.Bytes

/-!
# Slash-separated paths

Lexical treatment of paths: no file is looked at.  `Path.clean` gives the shortest path that
names the same place: empty and `.` segments go, and `..` removes the segment before it.
-/

namespace Storyline.Path

/-- Whether a path starts at the root. -/
def isRooted (p : Bytes) : Bool := p.head? = some ('/' : UInt8)

/-- The parts of a path between slashes. -/
def segments (p : Bytes) : List Bytes := p.splitOnByte '/'

/-- A segment that goes up one level. -/
def up : Bytes := ".."

/-- Adds a segment to a reversed list of kept segments. -/
def keep (rooted : Bool) (kept : List Bytes) (segment : Bytes) : List Bytes :=
  if segment = [] || segment = ("." : Bytes) then kept
  else if segment = up then
    match kept with
    | [] => if rooted then [] else [up]
    | last :: before => if last = up then up :: kept else before
  else segment :: kept

/-- The segments that remain of a path, in order. -/
def normalSegments (p : Bytes) : List Bytes :=
  ((segments p).foldl (keep (isRooted p)) []).reverse

/-- The shortest path that names the same place; `.` when nothing is left. -/
def clean (p : Bytes) : Bytes :=
  let body := Bytes.join "/" (normalSegments p)
  if isRooted p then "/" ++ body else if body.isEmpty then "." else body

/-- Paths one below the other; empty ones are left out. -/
def join (parts : List Bytes) : Bytes :=
  let present := parts.filter fun p => !p.isEmpty
  if present.isEmpty then [] else clean (Bytes.join "/" present)

/-- The last segment of a path: `.` for the empty path and `/` for the root. -/
def base (p : Bytes) : Bytes :=
  if p.isEmpty then "."
  else
    let trimmed := p.trimRight (· = '/')
    if trimmed.isEmpty then "/" else (segments trimmed).getLastD []

/-- Everything but the last segment of a path, cleaned. -/
def dir (p : Bytes) : Bytes :=
  clean (p.take (p.length - ((segments p).getLastD []).length))

/-- The path before the last segment of a path and the slash in front of it; nothing if there is
only a slash, or nothing at all. -/
def above? (p : Bytes) : Option Bytes :=
  let trimmed := p.trimRight (· = '/')
  let front := trimmed.take (trimmed.length - ((segments trimmed).getLastD []).length)
  if front.length ≤ 1 then none else some front.dropLast

/-- A path from a directory on as it stands: relative paths are meant from there. -/
def within (directory p : Bytes) : Bytes := if isRooted p then p else directory ++ "/" ++ p

/-- A path from a directory on, cleaned: relative paths are meant from there. -/
def absolute (directory p : Bytes) : Bytes :=
  if isRooted p then clean p else join [directory, p]

/-- What is left of two lists after the longest common beginning. -/
def dropCommon : List Bytes → List Bytes → List Bytes × List Bytes
  | a :: as, b :: bs => if a = b then dropCommon as bs else (a :: as, b :: bs)
  | as, bs => (as, bs)

/-- The path that leads from one absolute path to another. -/
def relative (source target : Bytes) : Bytes :=
  let (back, ahead) := dropCommon (normalSegments source) (normalSegments target)
  let segments := back.map (fun _ => up) ++ ahead
  if segments.isEmpty then "." else Bytes.join "/" segments

end Storyline.Path
