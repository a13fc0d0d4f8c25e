import Storyline.Text.Path
import Storyline.Text.Quoted

/-!
# Places inside a project

A place inside a project is named by the segments of a path below its root, written with slashes;
the root itself is the empty path.  `locate?` reads a path that a person or a program wrote.  It
first refuses those that lead out of the project on the way, however they go on, and then cleans the
others as paths from the root.
-/

namespace Storyline.Storage

/-- Whether the segments of a path lead above the root on the way, from a place `depth` levels below
it. -/
def escapes : (depth : Nat) → List Bytes → Bool
  | _, [] => false
  | depth, s :: rest =>
    if s = [] || s = ("." : Bytes) then escapes depth rest
    else if s = Path.up then
      match depth with
      | 0 => true
      | depth + 1 => escapes depth rest
    else escapes (depth + 1) rest

/-- The place that a path names; backslashes are read as slashes.  Nothing if it is outside. -/
def locate? (path : Bytes) : Option Bytes :=
  let p := Bytes.replaceByte '\\' "/" path
  if Path.isRooted p then none
  else if escapes 0 (Path.segments p) then none
  else some ((Path.clean ("/" ++ p)).drop 1)

/-- The place of an entry of a directory. -/
def child (directory name : Bytes) : Bytes :=
  if directory.isEmpty then name else directory ++ "/" ++ name

/-- The directory that a place is in; the root is in itself. -/
def parent (place : Bytes) : Bytes := (Path.dir ("/" ++ place)).drop 1

/-- Whether an entry may have a name. -/
def isEntryName (name : Bytes) : Bool :=
  !(name.isEmpty || name = ("." : Bytes) || name = Path.up || name.contains ('/' : UInt8)
    || name.contains ('\\' : UInt8))

/-- Whether a place is inside a directory, at any depth. -/
def isInside (directory place : Bytes) : Bool := (directory ++ "/").isPrefixOf place

end Storyline.Storage
