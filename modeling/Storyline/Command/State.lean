import Storyline.Command.Fuzzy
import Storyline.Command.Line
import Storyline.Export.Datum
import Storyline.Manifest.Reader
import Storyline.Rpc.Server
import Storyline.Session.Compile
import Storyline.Storage.Basic
import Storyline.Timing
import Storyline.Trace.Tracer

/-!
# Running commands

A command reads and changes a disk, prints to two places, and may tell what it does and how long
that takes.  All of it is a state that its parts pass on; a part that fails keeps what was printed
and written before.
-/

namespace Storyline.Command

open Storage (Disk SystemError)

/-! ## Failures -/

/-- Why a command fails. -/
inductive Failure where
  /-- It says nothing more, and ends with a status. -/
  | status (code : Nat)
  | usage (e : UsageError)
  | badColor (mode : Bytes)
  | cpuProfile (e : SystemError)
  | runtimeTrace (e : SystemError)
  | traceLevel (written : Bytes)
  | traceFormat (written : Bytes)
  | traceOutput (e : SystemError)
  /-- A way of printing that the command does not have. -/
  | unknownFormat (written : Bytes)
  | exportFormat (written : Bytes)
  | releaseFormat (written : Bytes)
  | search (e : Manifest.FindError)
  | manifest (e : Manifest.Error)
  /-- A manifest that is not accepted and that cannot be shown either. -/
  | hiddenManifest (e : Manifest.Error) (cause : SystemError)
  | setting (b : Manifest.BadSetting)
  | system (e : SystemError)
  | storage (e : Storage.Error)
  | session (e : Session.Error)
  | notStory (path root extension : Bytes)
  | notFile (arg : Bytes)
  | repair (f : Repair.Failure)
  | save (path : Bytes) (e : Session.Error)
  | output (path : Bytes) (e : SystemError)
  | notDirectory (path : Bytes)
  | cannotCreate (path : Bytes) (e : SystemError)
  | alreadyStarted (manifest : Bytes)
  | cannotWriteManifest (e : SystemError)
  | cannotWrite (name : Bytes) (e : SystemError)
  | stream (e : Rpc.Frame.Error)
deriving Repr, Inhabited

/-- The wording of a failure. -/
def Failure.message : Failure → Bytes
  | status code => "exit status " ++ Bytes.ofNat code
  | usage e => e.message
  | badColor mode =>
    "invalid --color " ++ Text.quoted mode ++ " (must be auto, on or off)"
  | cpuProfile e => "cpu profile: " ++ e.message
  | runtimeTrace e => "runtime trace: " ++ e.message
  | traceLevel s => "invalid trace level: " ++ Trace.Level.unknownMessage s
  | traceFormat s => "invalid trace format: " ++ Trace.Style.unknownMessage s
  | traceOutput e => "failed to create tracer: open trace output: " ++ e.message
  | unknownFormat s => "unknown format: " ++ s
  | exportFormat s => Format.unknownMessage s
  | releaseFormat s => "unsupported format " ++ Text.quoted s ++ " (must be pretty or json)"
  | search e => e.message
  | manifest e => e.message
  | hiddenManifest e cause => e.message ++ "\nread manifest: " ++ cause.message
  | setting b => b.message
  | system e => e.message
  | storage e => e.message
  | session e => e.message
  | notStory path root extension =>
    path ++ " is not a story file of " ++ root ++ " (extension " ++ extension ++ ")"
  | notFile arg => arg ++ " is not a file"
  | repair f => f.message
  | save path e => "save " ++ path ++ ": " ++ e.message
  | output path e => "write " ++ path ++ ": " ++ e.message
  | notDirectory path => Text.quoted path ++ " is not a directory"
  | cannotCreate path e =>
    "failed to create directory " ++ Text.quoted path ++ ": " ++ e.message
  | alreadyStarted path => "project already initialized: " ++ path ++ " exists"
  | cannotWriteManifest e => "failed to write manifest: " ++ e.message
  | cannotWrite name e => "failed to write " ++ name ++ ": " ++ e.message
  | stream e => e.message

/-- The status that a failure ends the program with. -/
def Failure.code : Failure → Nat
  | status code => code
  | _ => 1

/-! ## Surroundings and state -/

/-- What a command finds when it starts. -/
structure Surroundings where
  /-- The absolute path of the working directory. -/
  directory : Bytes
  /-- The directory of the user's caches. -/
  caches : Bytes
  now : Trace.Instant := ⟨0⟩
  /-- What is typed or piped in. -/
  input : Bytes := []
  /-- Whether the output goes to a terminal. -/
  isTerminal : Bool := false
  /-- Which texts others give to files while the command watches them. -/
  edits : List (Bytes × Bytes) := []
deriving Repr, Inhabited

/-- What a command changes. -/
structure State where
  disk : Disk
  /-- What was printed for use. -/
  out : Bytes := []
  /-- What was printed beside it. -/
  err : Bytes := []
  tracer : Trace.Tracer := { level := .off }
  /-- The file that the trace goes to; without one it is printed. -/
  traceFile : Option Bytes := none
  /-- The spans that are going on, the innermost first. -/
  going : List Nat := []
  timer : Option Timer := none
  /-- Where the heap profile goes at the end, once profiling is on. -/
  heapProfile : Option Bytes := none
  /-- How many sessions were ever served. -/
  served : Nat := 0
deriving Repr, Inhabited

/-- A part of a command. -/
abbrev Act := ReaderT Surroundings (ExceptT Failure (StateM State))

namespace Act

/-- Lets a result or failure stand. -/
def ofExcept {ε α : Type} (wrap : ε → Failure) : Except ε α → Act α
  | .ok a => pure a
  | .error e => throw (wrap e)

/-- Runs a part; its failure becomes a result. -/
def attempt {α : Type} (act : Act α) : Act (Except Failure α) :=
  tryCatch (do return .ok (← act)) fun e => return .error e

/-- Prints for use. -/
def print (s : Bytes) : Act Unit := modify fun st => { st with out := st.out ++ s }

/-- Prints beside the output. -/
def warn (s : Bytes) : Act Unit := modify fun st => { st with err := st.err ++ s }

/-! ### The disk -/

/-- The absolute path of a path on the command line. -/
def absolute (path : Bytes) : Act Bytes := do return Path.absolute (← read).directory path

/-- A failure of the system as the path on the command line shows it. -/
def asGiven (directory given : Bytes) (e : SystemError) : SystemError :=
  if Path.isRooted given then e
  else { e with paths := e.paths.map (Bytes.dropPrefix (directory ++ "/")) }

/-- Changes the disk at a path on the command line; a failure keeps what was changed before it. -/
def onDisk (path : Bytes) (wrap : SystemError → Failure)
    (change : Disk → Bytes → Disk × Option SystemError) : Act Unit := do
  let directory := (← read).directory
  let (disk, failure) := change (← get).disk (Path.within directory path)
  modify fun st => { st with disk }
  match failure with
  | none => pure ()
  | some e => throw (wrap (asGiven directory path e))

/-- Gives a file a text. -/
def writeFile (path text : Bytes) (wrap : SystemError → Failure) : Act Unit :=
  onDisk path wrap fun disk full =>
    match disk.writeFile full text with
    | .ok disk => (disk, none)
    | .error e => (disk, some e)

/-- Makes a directory and those around it. -/
def makeDirs (path : Bytes) (wrap : SystemError → Failure) : Act Unit :=
  onDisk path wrap Disk.makeDirs

/-! ### Telling -/

/-- What the tracer wrote goes to its file, or is printed. -/
def flushed (st : State) : State :=
  match st.traceFile with
  | none => { st with err := st.err ++ st.tracer.output, tracer := { st.tracer with output := [] } }
  | some path =>
    { st with disk := (st.disk.writeFile path st.tracer.output).toOption.getD st.disk }

/-- A state after something was told. -/
def told (now : Trace.Instant) (marks : List Trace.Mark) (st : State) : State :=
  let (tracer, going) := st.tracer.follow now st.going marks
  let wrote := tracer.written != st.tracer.written
  let st := { st with tracer, going }
  if wrote then flushed st else st

/-- Tells what is done. -/
def tell (marks : List Trace.Mark) : Act Unit := do
  let now := (← read).now
  modify (told now marks)

/-- Measures a part. -/
def measure {α : Type} (name : Bytes) (act : Act α) : Act α := do
  let now := (← read).now.nanoseconds
  let index := ((← get).timer.map (·.phases.size)).getD 0
  modify fun st => { st with timer := st.timer.map (·.start now name) }
  let result ← attempt act
  let note : Bytes := match result with
    | .ok _ => []
    | .error _ => "failed"
  modify fun st => { st with timer := st.timer.map (·.stop now index note) }
  ofExcept id result

end Act

/-! ## Common options -/

/-- Whether output is coloured. -/
def colored (o : Options) (isTerminal : Bool) : Except Failure Bool :=
  let mode := o.text "color"
  if mode = ("on" : Bytes) then .ok true
  else if mode = ("off" : Bytes) then .ok false
  else if mode = ("auto" : Bytes) then .ok isTerminal
  else .error (.badColor mode)

/-- Whether the output of a command is coloured. -/
def Act.colored (o : Options) : Act Bool := do
  Act.ofExcept id (Command.colored o (← read).isTerminal)

/-- Prints beside the output unless that is not wanted. -/
def Act.remark (o : Options) (s : Bytes) : Act Unit :=
  if o.isOn "quiet" then pure () else Act.warn s

end Storyline.Command
