import Std.Time.DateTime.Timestamp
import Storyline.Command.Run

/-!
# The program

Commands work on a disk that is a value.  Here the part of the file system that a command may look
at is read into such a disk, the command runs, and what it printed and changed is carried out.
Serving and watching do so again and again.
-/

namespace Storyline.Shell

open Command
open Storage (Disk Node)

/-! ## Files -/

/-- Whether a path leads into a hidden directory. -/
def isHidden (path : Bytes) : Bool := (Path.base path).head? = some ('.' : UInt8)

/-- A disk with what is at a path and, unless that is hidden, everything below it. -/
partial def load (disk : Disk) (path : Bytes) : IO Disk := do
  let here := (← IO.currentDir) / path.toString
  if ← here.isDir then
    let mut disk : Disk := ⟨(path, .directory) :: disk.entries⟩
    if !isHidden path then
      for entry in ← here.readDir do
        disk ← load disk (Path.join [path, entry.fileName])
    return disk
  else if ← here.pathExists then
    return ⟨(path, .file (← IO.FS.readBinFile here).toList) :: disk.entries⟩
  else return disk

/-- A disk with the directories around a path and their manifests. -/
def loadAround (disk : Disk) (path : Bytes) : IO Disk := do
  let mut disk := disk
  for directory in Manifest.upwards path.length (Path.dir path) do
    if (disk.entry? directory).isNone then
      disk := ⟨(directory, .directory) :: disk.entries⟩
    let manifest := Path.join [directory, Manifest.fileName]
    if (disk.entry? manifest).isNone then disk ← load disk manifest
  return disk

/-- A disk with everything below some paths, and below the project that each is in. -/
def loadAll (paths : List Bytes) : IO Disk := do
  let mut disk : Disk := {}
  for path in paths do
    let around ← loadAround {} path
    let root := match Manifest.find around path with
      | .ok (some manifest) => Path.dir manifest
      | _ => path
    let missing := (disk.entry? root).isNone
    if missing then disk ← load disk root
    disk ← loadAround disk root
  return disk

/-- Carries out what is different on another disk. -/
def store (before after : Disk) : IO Unit := do
  let base ← IO.currentDir
  for (path, node) in after.entries.reverse do
    if before.entry? path != some node then
      match node with
      | .directory => IO.FS.createDirAll (base / path.toString)
      | .file text =>
        IO.FS.createDirAll (base / (Path.dir path).toString)
        IO.FS.writeBinFile (base / path.toString) ⟨text.toArray⟩
  for (path, node) in before.entries do
    if (after.entry? path).isNone then
      let here := base / path.toString
      match node with
      | .directory => if ← here.isDir then IO.FS.removeDirAll here
      | .file _ => if ← here.pathExists then IO.FS.removeFile here

/-! ## Surroundings -/

/-- The time. -/
def now : IO Trace.Instant := do
  let t ← Std.Time.Timestamp.now
  return ⟨t.toNanosecondsSinceUnixEpoch.val⟩

/-- The directory of the user's caches. -/
def caches : IO Bytes := do
  match ← IO.getEnv "XDG_CACHE_HOME" with
  | some path => if !path.isEmpty then return path
  | none => pure ()
  let home := (← IO.getEnv "HOME").getD "/"
  return Path.join [home, ".cache"]

/-- What a command finds. -/
def surroundings : IO Surroundings := do
  return { directory := (← IO.currentDir).toString, caches := ← caches, now := ← now,
           isTerminal := ← (← IO.getStdout).isTty }

/-- The paths that a command may look at. -/
def pathsOf (around : Surroundings) (o : Options) (args : List Bytes) : List Bytes :=
  let given := [targetOf args, o.text "cache-dir", Path.dir (o.text "output"),
    Path.dir (o.text "trace")].filter fun p => !p.isEmpty
  given.map (Path.absolute around.directory)
    ++ [around.directory, Path.join [around.caches, programName]]

/-! ## Running -/

/-- Prints what a state has to print. -/
def printAll (st : State) : IO State := do
  let out ← IO.getStdout
  let err ← IO.getStderr
  out.write ⟨st.out.toArray⟩
  out.flush
  err.write ⟨st.err.toArray⟩
  err.flush
  return { st with out := [], err := [] }

/-- Runs a part of a command and carries out what it changed. -/
def act {α : Type} (around : Surroundings) (st : State) (a : Act α) :
    IO (Except Failure α × State) := do
  let (result, after) := (a.run around).run.run st
  store st.disk after.disk
  return (result, ← printAll after)

/-- Ends a command; gives the status of the program. -/
def conclude (around : Surroundings) (o : Options) (st : State) (result : Except Failure Unit) :
    IO UInt32 := do
  match result with
  | .ok _ =>
    let _ ← act around st (finish o)
    return 0
  | .error e =>
    match e with
    | .status _ => pure ()
    | e => (← IO.getStderr).putStrLn ("error: " ++ e.message.toString)
    let _ ← act around st dump
    return e.code.toUInt32

/-! ## Serving -/

/-- Reads bytes until there are enough, or no more. -/
partial def readBytes (input : IO.FS.Stream) (n : Nat) (acc : ByteArray) : IO ByteArray := do
  if n ≤ acc.size then return acc
  let more ← input.read (n - acc.size).toUSize
  if more.isEmpty then return acc else readBytes input n (acc ++ more)

/-- Reads header lines up to the empty one. -/
partial def readHead (input : IO.FS.Stream) (acc : Bytes) : IO Bytes := do
  let line ← input.getLine
  let acc := acc ++ Bytes.ofString line
  if line.isEmpty || line = "\n" || line = "\r\n" then return acc else readHead input acc

/-- Reads a message with its headers. -/
def readFrame (input : IO.FS.Stream) : IO Bytes := do
  let head ← readHead input []
  match Rpc.Frame.readHead (head.length + 1) none head with
  | .ended (some n) _ =>
    if n ≤ Rpc.Frame.maxLength then return head ++ (← readBytes input n .empty).toList
    else return head
  | _ => return head

/-- The path that a request opens, if it opens one. -/
def openedBy (payload : Bytes) : Option Bytes := do
  let r ← (Rpc.Request.read payload).toOption
  let root ← r.params.bind (·.member? "root")
  root.text?

/-- Answers messages until the client leaves; `roots` are the paths that may be looked at. -/
partial def serveAll (o : Options) (roots : List Bytes) (server : Rpc.Server) (st : State) :
    IO (Except Failure Unit × State) := do
  let frame ← readFrame (← IO.getStdin)
  match Rpc.Frame.read frame with
  | .finished => return (.ok (), st)
  | .failed e => return (.error (.stream e), st)
  | .message payload _ =>
    let around ← surroundings
    let roots := ((openedBy payload).map (Path.absolute around.directory)).toList ++ roots
    let disk ← loadAll roots
    let server := { server with storage := .folder ⟨disk, around.directory⟩ }
    let step := server.receive (some (openServed o around.directory)) payload
    let after := seeStep around.now { st with disk } step
    store disk after.disk
    let st ← printAll after
    match step.ending with
    | some e => return (endServing (some e), st)
    | none => serveAll o roots step.server st

/-! ## Watching -/

/-- What happened to the files of a directory between two disks. -/
def changesIn (root : Bytes) (before after : Disk) : List (Bytes × Change) :=
  let inside (p : Bytes) : Bool := Storage.isInside root p
  let kept := after.entries.filterMap fun (path, node) =>
    if !inside path then none
    else match before.entry? path with
      | none => some (path, Change.create)
      | some old => if old = node then none else some (path, Change.write)
  let gone := before.entries.filterMap fun (path, _) =>
    if inside path && (after.entry? path).isNone then some (path, Change.remove) else none
  kept ++ gone

/-- Reports after every change. -/
partial def watchOn (o : Options) (w : Watcher) (st : State) :
    IO (Except Failure Unit × State) := do
  IO.sleep (max 50 ((o.duration "debounce").toNat / 1000000)).toUInt32
  let around ← surroundings
  let disk ← loadAll [w.root]
  match changesIn w.root st.disk disk with
  | [] => watchOn o w st
  | changes =>
    let (result, st) ← act around { st with disk } do
      let w ← w.follow changes
      w.show_
      return w
    match result with
    | .ok w => watchOn o w st
    | .error e => return (.error e, st)

/-- Starts to watch. -/
def watchAll (around : Surroundings) (o : Options) (args : List Bytes) (st : State) :
    IO (Except Failure Unit × State) := do
  let (result, st) ← act around st do
    let w ← Watcher.start o args
    w.show_
    Act.warn ("watching " ++ w.root ++ "\n")
    return w
  match result with
  | .ok w => watchOn o w st
  | .error e => return (.error e, st)

/-! ## The command line -/

/-- Runs one command. -/
def runVerb (v : Verb) (o : Options) (args : List Bytes) : IO UInt32 := do
  let around ← surroundings
  let paths := pathsOf around o args
  let disk ← loadAll paths
  let (ready, st) ← act around { disk } (prepare v o)
  match ready with
  | .error e => conclude around o st (.error e)
  | .ok _ =>
    let (result, st) ← match v with
      | .serve => serveAll o paths (serverOn st around.directory) st
      | .watch => watchAll around o args st
      | v => act around st (perform v o args)
    conclude around o st result

end Storyline.Shell

/-- Runs a command line. -/
def main (args : List String) : IO UInt32 := do
  let args := args.map Storyline.Bytes.ofString
  match Storyline.Command.readLine args with
  | .ok (.run v o args) => Storyline.Shell.runVerb v o args
  | _ =>
    let around ← Storyline.Shell.surroundings
    let r := Storyline.Command.run around { disk := {} } args
    let _ ← Storyline.Shell.printAll r.final
    match r.failure with
    | none => return 0
    | some e =>
      (← IO.getStderr).putStrLn ("error: " ++ e.message.toString)
      return e.code.toUInt32
