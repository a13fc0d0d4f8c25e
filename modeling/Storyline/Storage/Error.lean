import Storyline.Storage.Disk

/-!
# Failures of a project's storage

An operation fails with its name, the path it was given, and a cause.
-/

namespace Storyline.Storage

/-- Why an operation fails. -/
inductive Fault where
  /-- The path leads out of the project. -/
  | outsideRoot
  | missing
  /-- The system says that something is missing. -/
  | missingFor (e : SystemError)
  | badName (name : Bytes)
  /-- The whole project would be dropped. -/
  | wholeProject
  | notDirectory
  | system (e : SystemError)
deriving DecidableEq, Repr, Inhabited

namespace Fault

/-- The wording of a cause. -/
def message : Fault → Bytes
  | outsideRoot => "path escapes project root"
  | missing => Trouble.missing.message
  | missingFor e => Trouble.missing.message ++ "\n" ++ e.message
  | badName name => "invalid entry name " ++ Text.quoted name
  | wholeProject => "refusing to delete the project root"
  | notDirectory => Trouble.notDirectory.message
  | system e => e.message

/-- The cause behind a failure of the system, told apart if something is missing. -/
def ofSystem (e : SystemError) : Fault :=
  if e.trouble = .missing then missingFor e else system e

end Fault

/-- A failed operation. -/
structure Error where
  operation : Bytes
  path : Bytes
  fault : Fault
deriving DecidableEq, Repr, Inhabited

/-- The wording of a failed operation. -/
def Error.message (e : Error) : Bytes :=
  "host " ++ e.operation ++ " " ++ e.path ++ ": " ++ e.fault.message

/-- A name in a directory. -/
structure Listed where
  name : Bytes
  isDirectory : Bool
deriving DecidableEq, Repr, Inhabited

end Storyline.Storage
