import Storyline.Command.Project
import Storyline.Diagnostic.Printer

/-!
# Serving and watching

The server answers the requests that come in, on the projects of the disk.  The ids of its sessions
are numbered, and written as hexadecimal digits in five groups.

A watcher keeps a session in step with the files of its project and reports after every change.  A
file that only got another text is read again; if files came or went, the project is opened anew.
-/

namespace Storyline

/-! ## Ids of sessions -/

namespace Rpc.SessionId

/-- The id that the `n`-th session gets. -/
def ofNumber (n : Nat) : SessionId where
  bytes := [0, 0, 0, 0, 0, 0, 0x40, 0, 0x80, 0]
    ++ (List.range 6).map fun i => (n / Nat.pow 256 (5 - i)).toUInt8
  length_bytes := by rw [List.length_append, List.length_map, List.length_range]; rfl

/-- The spelling of an id. -/
def spell (id : SessionId) : Bytes :=
  let digits := id.bytes.hex
  Bytes.join "-" [digits.take 8, (digits.drop 8).take 4, (digits.drop 12).take 4,
    (digits.drop 16).take 4, digits.drop 20]

/-- The bytes that pairs of hexadecimal digits spell. -/
def readPairs? : Bytes → Option Bytes
  | [] => some []
  | [_] => none
  | a :: b :: rest => do
    let high ← Bytes.hexDigit? a
    let low ← Bytes.hexDigit? b
    return (16 * high + low).toUInt8 :: (← readPairs? rest)

/-- The id that hexadecimal digits spell. -/
def readDigits? (digits : Bytes) : Option SessionId := do
  let bytes ← readPairs? digits
  if h : bytes.length = 16 then some ⟨bytes, h⟩ else none

/-- Reads the five groups that a text starts with. -/
def readGroups? (s : Bytes) : Option SessionId :=
  match Bytes.splitOnByte '-' (s.take 36) with
  | [a, b, c, d, e] =>
    if [a, b, c, d, e].map List.length = [8, 4, 4, 4, 12] then readDigits? (a ++ b ++ c ++ d ++ e)
    else none
  | _ => none

/-- Reads an id in one of its spellings: also with a character on either side of the groups, behind
`urn:uuid:`, and without dashes. -/
def read? (s : Bytes) : Option SessionId :=
  match s.length with
  | 36 => readGroups? s
  | 45 => if Bytes.sameLetters "urn:uuid:" (s.take 9) then readGroups? (s.drop 9) else none
  | 38 => readGroups? (s.drop 1)
  | 32 => readDigits? s
  | _ => none

instance : SessionIds where
  new := ofNumber
  spell := spell
  read? := read?

end Rpc.SessionId

namespace Command

/-! ## Serving -/

open Storage (Disk)

/-- Opens the project around a path for a client; also gives what that tells. -/
def openServed (o : Options) (directory : Bytes) : Rpc.Opener := fun storage root =>
  let disk := diskOf {} storage
  let ready : Except Failure (Storage × Settings) := do
    let (root, manifest) ← resolve disk (Path.absolute directory root)
    let settings ← settingsFor o manifest
    return (← storageAt disk root, settings)
  match ready with
  | .error e => (.error (.project e.message), [])
  | .ok (storage, settings) =>
    ((Session.openProject storage [] settings).mapError .session,
      Session.openMarks storage [] settings)

/-- What one message does to the state. -/
def seeStep (now : Trace.Instant) (st : State) (step : Rpc.Step) : State :=
  let st := { st with disk := diskOf st.disk step.server.storage, served := step.server.opened }
  let st := Act.told now step.marks st
  let st := { st with
    out := st.out ++ Rpc.Server.written step.reply
    err := st.err ++ Rpc.Server.logLine step.log }
  if step.marks.isEmpty then st else Act.told now [.leave []] st

/-- The server that a state starts with. -/
def serverOn (st : State) (directory : Bytes) : Rpc.Server :=
  { storage := .folder ⟨st.disk, directory⟩, opened := st.served }

/-- What the end of serving means for the command. -/
def endServing : Option Rpc.Ending → Except Failure Unit
  | none | some .exit => .ok ()
  | some .exitWithoutShutdown => .error (.status 1)
  | some (.stream e) => .error (.stream e)

/-- Answers all requests. -/
def serve (o : Options) : Act Unit := do
  let around ← read
  let st ← get
  let (_, st, ending) := Rpc.Server.serve (some (openServed o around.directory))
    (seeStep around.now) (around.input.length + 1) (serverOn st around.directory) st around.input
  set st
  Act.ofExcept id (endServing ending)

/-! ## Watching -/

/-- What happened to a file. -/
inductive Change where
  | write
  | create
  | remove
  | rename
  /-- Something other than its text. -/
  | permissions
deriving DecidableEq, Repr, Inhabited

/-- Whether files came or went. -/
def Change.isStructural : Change → Bool
  | create | remove | rename => true
  | write | permissions => false

/-- A project that is watched. -/
structure Watcher where
  root : Bytes
  session : Session
  color : Bool := false
deriving Repr, Inhabited

namespace Watcher

/-- The report of a watcher at a time. -/
def report (w : Watcher) (now : Trace.Instant) : Bytes :=
  let items := w.session.allDiagnostics
  "── " ++ now.clock ++ " ──\n"
    ++ Diagnostic.pretty { color := w.color, notes := true } w.session.file? items
    ++ Diagnostic.summary items ++ "\n"

/-- Prints the report. -/
def show_ (w : Watcher) : Act Unit := do Act.print (w.report (← read).now)

/-- Opens the project anew. -/
def reopen (w : Watcher) : Act Watcher := do
  let storage ← Act.ofExcept id (storageAt (← get).disk w.root)
  let session ← openSession storage w.session.settings
  return { w with session }

/-- Whether a failure only says that a file is gone. -/
def isGone : Session.Error → Bool
  | .storage e => match e.fault with
    | .missing | .missingFor _ => true
    | _ => false
  | _ => false

/-- Reads the files again that changed; nothing if the project has to be opened anew. -/
def reloadAll (s : Session) (root : Bytes) :
    List (Bytes × Change) → Except Session.Error (Option Session)
  | [] => .ok (some s)
  | (path, change) :: rest =>
    if change.isStructural then .ok none
    else if !s.settings.extension.isSuffixOf path then reloadAll s root rest
    else match s.lookup? (Path.relative root path) with
      | none => .ok none
      | some id =>
        match s.reload id with
        | .ok s => reloadAll s root rest
        | .error e => if isGone e then reloadAll s root rest else .error e

/-- Brings the session in step with the disk after some changes. -/
def follow (w : Watcher) (changes : List (Bytes × Change)) : Act Watcher := do
  Act.tell [.enter .phase "watch:apply"]
  let disk := (← get).disk
  let current := { w.session with storage := .folder ⟨disk, w.root⟩ }
  let result ← Act.attempt do
    match ← Act.ofExcept .session (reloadAll current w.root changes) with
    | some session => return { w with session }
    | none => w.reopen
  Act.tell [.leave (Bytes.ofNat changes.length ++ " change(s)")]
  Act.ofExcept id result

/-- Watches the project of a command. -/
def start (o : Options) (args : List Bytes) : Act Watcher := do
  let color ← Act.colored o
  let p ← openProject o (targetOf args)
  return { root := p.root, session := p.session, color }

/-- Puts a text into a file, as others do, and says what happened. -/
def edit (path text : Bytes) : Act Change := do
  let full ← Act.absolute path
  let disk := (← get).disk
  let change := if (disk.stat full).toBool then Change.write else .create
  let (disk, _) := disk.makeDirs (Path.dir full)
  modify fun st => { st with disk := (disk.writeFile full text).toOption.getD disk }
  return change

/-- Reports after each edit. -/
def followEdits (w : Watcher) : List (Bytes × Bytes) → Act Unit
  | [] => pure ()
  | (path, text) :: rest => do
    let change ← edit path text
    let w ← w.follow [(← Act.absolute path, change)]
    w.show_
    w.followEdits rest

end Watcher

/-- Watches a project until the edits are over. -/
def watch (o : Options) (args : List Bytes) : Act Unit := do
  let w ← Watcher.start o args
  w.show_
  Act.warn ("watching " ++ w.root ++ "\n")
  w.followEdits (← read).edits

end Command

end Storyline
