import Storyline.Json.Writer
import Storyline.Release
import Storyline.Rpc.Frame
import Storyline.Rpc.Message
import Storyline.Rpc.SessionId
import Storyline.Session.Compile
import Storyline.Session.Open
import Storyline.Session.Listing

/-!
# The server

A server keeps the sessions that one client opened and answers its requests one after the other.
All sessions are on one storage: what one of them writes, the others find there.  Their ids come
from a source of ids, and the server keeps count of how many it took.

Each request with an id gets exactly one reply.  A request without one gets none, and what goes
wrong with it is logged.
-/

namespace Storyline.Rpc

open Outline (Fuzzy)

/-! ## Failures -/

/-- Why a request fails. -/
inductive Failure where
  | missingParams
  | badParams (m : Mismatch)
  | badSessionId (written : Bytes)
  | unknownSession (written : Bytes)
  /-- This server opens no projects. -/
  | noOpening
  | unknownMethod (method : Bytes)
  | session (e : Session.Error)
  /-- The project was not found or cannot be opened. -/
  | project (message : Bytes)
deriving DecidableEq, Repr, Inhabited

namespace Failure

/-- The wording of a failure. -/
def message : Failure → Bytes
  | missingParams => "missing params"
  | badParams m => "invalid params: " ++ m.message
  | badSessionId s => "invalid session id " ++ Text.quoted s
  | unknownSession s => "unknown session " ++ s
  | noOpening => "opening projects is not supported"
  | unknownMethod m => "method not found: " ++ m
  | session e => e.message
  | project message => message

/-- The number of a failure. -/
def code : Failure → Int
  | missingParams | badParams _ | badSessionId _ => -32602
  | unknownMethod _ => -32601
  | unknownSession _ => -32001
  | session (.unknownBlob _) => -32002
  | noOpening | session _ | project _ => -32000

end Failure

/-! ## State -/

/-- A server and the sessions it keeps. -/
structure Server where
  storage : Storage
  /-- The sessions that are open, the latest first. -/
  sessions : List (SessionId × Session) := []
  /-- How many sessions were ever opened. -/
  opened : Nat := 0
  /-- Whether the client said that it is about to leave. -/
  isShutDown : Bool := false
deriving Repr, Inhabited

/-- Opens the project at a path; also gives what that tells. -/
abbrev Opener := Storage → Bytes → Except Failure Session × List Trace.Mark

/-- What a handler gives: its result or failure, the server after it, and what it tells. -/
structure Handled where
  outcome : Except Failure Json
  server : Server
  marks : List Trace.Mark := []

namespace Server

/-! ## Parameters -/

/-- The member that names the session. -/
def sessionField : String × FieldKind := ("session", .text)

def openShape : RecordShape := .mk "openParams" [("root", .text)]
def sessionShape : RecordShape := .mk "sessionParams" [sessionField]
def createShape : RecordShape :=
  .mk "createParams" [sessionField, ("name", .text), ("parent", .blob), ("isDir", .flag)]
def renameShape : RecordShape := .mk "renameParams" [sessionField, ("id", .blob), ("name", .text)]
def blobShape : RecordShape := .mk "blobParams" [sessionField, ("id", .blob)]
def textShape : RecordShape := .mk "textParams" [sessionField, ("id", .blob), ("text", .text)]

/-- Reads the parameters of a request. -/
def readParams (shape : RecordShape) : Option Json → Except Failure Members
  | none => .error .missingParams
  | some j => (shape.read j).mapError .badParams

/-! ## Sessions -/

/-- The open session that parameters name. -/
def sessionOf [SessionIds] (s : Server) (params : Option Json) :
    Except Failure (SessionId × Session) := do
  let written := (← readParams sessionShape params).text "session"
  match SessionIds.read? written with
  | none => throw (.badSessionId written)
  | some id =>
    match s.sessions.lookup id with
    | none => throw (.unknownSession written)
    | some session => return (id, session)

/-- Puts a session in the place of the one with its id, and makes its storage that of the server. -/
def update (s : Server) (id : SessionId) (session : Session) : Server :=
  { s with
    storage := session.storage
    sessions := s.sessions.map fun p => if p.1 = id then (id, session) else p }

/-- What an operation on a session takes and gives. -/
abbrev Operation := Session → Members → Except Session.Error (Json × Session)

/-- Runs an operation on the session that parameters name. -/
def onSession [SessionIds] (s : Server) (shape : RecordShape) (params : Option Json)
    (run : Operation) : Except Failure (Json × Server) := do
  let (id, session) ← s.sessionOf params
  let members ← readParams shape params
  let current := { session with storage := session.storage.withContentOf s.storage }
  let (result, session) ← (run current members).mapError .session
  return (result, s.update id session)

/-! ## Operations -/

/-- An operation that only looks. -/
def looking (look : Session → Json) : Operation := fun session _ => .ok (look session, session)

/-- Opens a session on the project that parameters name. -/
def openSession [SessionIds] (s : Server) (opener? : Option Opener) (params : Option Json) :
    Handled :=
  match readParams openShape params, opener? with
  | .error f, _ => ⟨.error f, s, []⟩
  | .ok _, none => ⟨.error .noOpening, s, []⟩
  | .ok ms, some opener =>
    match opener s.storage (ms.text "root") with
    | (.error f, marks) => ⟨.error f, s, marks⟩
    | (.ok session, marks) =>
      let id := SessionIds.new (s.opened + 1)
      let tree := Json.array (session.fileTree.map (·.toJson))
      ⟨.ok (.record [("session", .text (SessionIds.spell id)), ("tree", tree)]),
        { s with sessions := (id, session) :: s.sessions, opened := s.opened + 1 }, marks⟩

/-- Closes the session that parameters name. -/
def closeSession [SessionIds] (s : Server) (params : Option Json) :
    Except Failure (Json × Server) := do
  let (id, _) ← s.sessionOf params
  return (.null, { s with sessions := s.sessions.filter fun p => p.1 != id })

/-- The text of a member written to a file, or only read in place of the file's own. -/
def texting [Fuzzy] (change : Session → BlobId → Bytes → Except Session.Error Session) :
    Operation :=
  fun session ms => do
    let id := ms.blob "id"
    let session ← change session id (ms.text "text")
    return ((session.compileFile id).toJson, session)

/-- The methods that work on one session. -/
def operation? [Fuzzy] (method : Bytes) : Option (RecordShape × Operation) :=
  let methods : List (String × RecordShape × Operation) := [
    ("session/tree", sessionShape,
      looking fun session => .array (session.fileTree.map (·.toJson))),
    ("session/compile", sessionShape, looking fun session => session.compile.toJson),
    ("session/createEntry", createShape, fun session ms => do
      let (tree, session) ← session.create (ms.text "name") (ms.blob "parent") (ms.flag "isDir")
      return (tree.toJson, session)),
    ("session/rename", renameShape, fun session ms => do
      let (tree, session) ← session.rename (ms.blob "id") (ms.text "name")
      return (tree.toJson, session)),
    ("session/delete", blobShape, fun session ms => do
      return (.null, ← session.delete (ms.blob "id"))),
    ("session/recompileFile", textShape, texting Session.recompile),
    ("session/save", textShape, texting Session.save)]
  (methods.find? fun m => Bytes.ofString m.1 = method).map (·.2)

/-- What a handler that changed the server at most if it went well gives. -/
def handled (s : Server) : Except Failure (Json × Server) → Handled
  | .ok (result, server) => ⟨.ok result, server, []⟩
  | .error f => ⟨.error f, s, []⟩

/-- Answers a request that does not end the connection; nothing for a method that is not known. -/
def handle? [SessionIds] [Fuzzy] (s : Server) (opener? : Option Opener) (r : Request) :
    Option Handled :=
  if r.method = ("initialize" : Bytes) then
    let release : Release := {}
    some ⟨.ok (.record [("serverInfo",
      .record [("name", .str "storytell"), ("version", .text release.version)])]), s, []⟩
  else if r.method = ("shutdown" : Bytes) then
    some ⟨.ok .null, { s with isShutDown := true, sessions := [] }, []⟩
  else if r.method = ("session/open" : Bytes) then some (s.openSession opener? r.params)
  else if r.method = ("session/close" : Bytes) then some (s.handled (s.closeSession r.params))
  else (operation? r.method).map fun (shape, run) => s.handled (s.onSession shape r.params run)

end Server

/-! ## Receiving -/

/-- Why a server stops. -/
inductive Ending where
  /-- The client left after it had said so. -/
  | exit
  | exitWithoutShutdown
  | stream (e : Frame.Error)
deriving DecidableEq, Repr, Inhabited

/-- The wording of an ending. -/
def Ending.message : Ending → Bytes
  | exit => "rpc exit"
  | exitWithoutShutdown => "rpc exit without shutdown"
  | stream e => e.message

/-- What a server does on a message. -/
structure Step where
  server : Server
  /-- What it tells before it replies; the part that began first is still going on then. -/
  marks : List Trace.Mark := []
  reply : Option Json := none
  /-- What it logs. -/
  log : Option Bytes := none
  ending : Option Ending := none

namespace Server

/-- What is replied to a request, or logged if no reply is wanted. -/
def settle (h : Handled) (r : Request) (marks : List Trace.Mark) : Step :=
  match r.id, h.outcome with
  | some id, .ok result => { server := h.server, marks, reply := some (resultReply id result) }
  | some id, .error f =>
    { server := h.server, marks, reply := some (failureReply id f.code f.message) }
  | none, .ok _ => { server := h.server, marks }
  | none, .error f => { server := h.server, marks, log := some (r.method ++ ": " ++ f.message) }

/-- Answers a request. -/
def answer [SessionIds] [Fuzzy] (s : Server) (opener? : Option Opener) (r : Request) : Step :=
  let start := Trace.Mark.enter .command ("rpc:" ++ r.method)
  if r.method = ("exit" : Bytes) then
    { server := s, marks := [start],
      ending := some (if s.isShutDown then .exit else .exitWithoutShutdown) }
  else match s.handle? opener? r with
    | some h =>
      let trouble := match h.outcome with
        | .ok _ => []
        | .error f => [Trace.Mark.tell "error" f.message]
      settle h r (start :: h.marks ++ trouble)
    | none =>
      { server := s, marks := [start],
        reply := r.id.map fun id =>
          let f := Failure.unknownMethod r.method
          failureReply id f.code f.message }

/-- Answers a payload.  A message without a method asks for nothing. -/
def receive [SessionIds] [Fuzzy] (s : Server) (opener? : Option Opener) (payload : Bytes) : Step :=
  match Request.read payload with
  | .error e =>
    { server := s, reply := some (failureReply .null (-32700) "parse error"),
      log := some ("bad message: " ++ e.message) }
  | .ok r => if r.method.isEmpty then { server := s } else s.answer opener? r

/-- What a server writes for a reply.  The id keeps the spelling it came with, apart from line
separators. -/
def written (reply : Option Json) : Bytes :=
  (reply.map fun r => Frame.write (Json.lineSafe r.compact)).getD []

/-- What a server logs, as a line. -/
def logLine (log : Option Bytes) : Bytes :=
  (log.map fun (l : Bytes) => "rpc: " ++ l ++ "\n").getD []

/-- Reads at most `fuel` messages off a stream and answers them; `see` is shown every step. -/
def serve [SessionIds] [Fuzzy] {σ : Type} (opener? : Option Opener) (see : σ → Step → σ) :
    (fuel : Nat) → Server → σ → Bytes → Server × σ × Option Ending
  | 0, s, seen, _ => (s, seen, none)
  | fuel + 1, s, seen, input =>
    match Frame.read input with
    | .finished => (s, seen, none)
    | .failed e => (s, seen, some (.stream e))
    | .message payload rest =>
      let step := s.receive opener? payload
      match step.ending with
      | some e => (step.server, see seen step, some e)
      | none => serve opener? see fuel step.server (see seen step) rest

/-- What a server wrote and logged. -/
structure Transcript where
  output : Bytes := []
  log : Bytes := []
deriving DecidableEq, Repr, Inhabited

/-- A transcript with one more step. -/
def Transcript.add (t : Transcript) (step : Step) : Transcript :=
  ⟨t.output ++ written step.reply, t.log ++ logLine step.log⟩

/-- Answers all messages of a stream. -/
def serveAll [SessionIds] [Fuzzy] (s : Server) (opener? : Option Opener) (input : Bytes) :
    Server × Transcript × Option Ending :=
  serve opener? Transcript.add (input.length + 1) s {} input

end Server

end Storyline.Rpc
