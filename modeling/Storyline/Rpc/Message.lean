import Storyline.Json.Fault
import Storyline.Text.Case

/-!
# Messages

What comes in is a request, which has a method and perhaps an id to answer to; what goes out is a
reply with the id and a result or a failure.

Messages and their parameters are JSON objects whose members have kinds.  A member is found by its
name, whatever the case of its letters; members without a name here are passed over, those that
are `null` change nothing, and of several with one name the last counts.  A value of the wrong
kind spoils the whole record, and the first one is reported.
-/

namespace Storyline.Rpc

/-! ## Shapes -/

mutual

/-- The kind of a member. -/
inductive FieldKind where
  | text
  | flag
  /-- The number of a directory or file. -/
  | blob
  | integer
  /-- Anything, `null` included. -/
  | any
  | record (shape : RecordShape)

/-- The members of a record.  `name` is what messages call it. -/
inductive RecordShape where
  | mk (name : String) (fields : List (String × FieldKind))

end

deriving instance Repr for FieldKind
deriving instance Repr for RecordShape

/-- What messages call a record. -/
def RecordShape.name : RecordShape → String
  | mk name _ => name

/-- The members of a record. -/
def RecordShape.fields : RecordShape → List (String × FieldKind)
  | mk _ fields => fields

/-- What messages call a kind. -/
def FieldKind.name : FieldKind → String
  | text => "string"
  | flag => "bool"
  | blob => "session.BlobID"
  | integer => "int"
  | any => "json.RawMessage"
  | record s => "rpc." ++ s.name

/-- The member with a name, or else the first one whose name differs only in the case of
letters. -/
def RecordShape.field? (s : RecordShape) (name : Bytes) : Option (String × FieldKind) :=
  s.fields.find? (fun f => Bytes.ofString f.1 = name) <|>
    s.fields.find? fun f => Bytes.sameLetters f.1 name

/-! ## Mismatches -/

/-- A value of the wrong kind. -/
structure Mismatch where
  /-- The words for the value. -/
  value : Bytes
  /-- What messages call the kind that was due. -/
  wanted : String
  /-- The outermost record, and the names that lead from there to the value, as they are written;
  nothing if the record itself is the value. -/
  place : Option (String × List Bytes)
deriving DecidableEq, Repr, Inhabited

/-- The wording of a mismatch. -/
def Mismatch.message (m : Mismatch) : Bytes :=
  let place : Bytes := match m.place with
    | none => "Go value"
    | some (record, names) => "Go struct field " ++ Bytes.join "." (Bytes.ofString record :: names)
  "json: cannot unmarshal " ++ m.value ++ " into " ++ place ++ " of type "
    ++ Bytes.ofString m.wanted

/-- The words for a value. -/
def valueWords : Json → Bytes
  | .null => "null"
  | .bool _ => "bool"
  | .number _ => "number"
  | .string _ => "string"
  | .array _ => "array"
  | .object _ => "object"

/-- The integer that a number spells without point and exponent, if it has at most 64 bits. -/
def integer? (spelling : Bytes) : Option Int :=
  match spelling with
  | 0x2D :: digits =>
    ((Bytes.toNat? digits).filter (· ≤ 0x8000000000000000)).map fun n => -(n : Int)
  | digits => ((Bytes.toNat? digits).filter (· < 0x8000000000000000)).map Int.ofNat

/-- The number of a directory or file. -/
def blob? (spelling : Bytes) : Option Nat := (Bytes.toNat? spelling).filter (· < 0x100000000)

/-! ## Reading -/

/-- The members that were understood, the last first. -/
abbrev Members := List (String × Json)

/-- What is wrong with a value of a simple kind, in words. -/
def FieldKind.complaint? : FieldKind → Json → Option Bytes
  | .any, _ | _, .null => none
  | .text, .string _ | .flag, .bool _ => none
  | .blob, .number s => if (blob? s).isSome then none else some ("number " ++ s)
  | .integer, .number s => if (integer? s).isSome then none else some ("number " ++ s)
  | .record _, .object _ => none
  | _, j => some (valueWords j)

/-- A name as it stands in a place: a tilde and a slash are written by number. -/
def placeName (name : Bytes) : Bytes :=
  name.flatMap fun (b : UInt8) =>
    if b = '~' then Bytes.ofString "~0" else if b = '/' then Bytes.ofString "~1" else [b]

mutual

/-- The first mismatch in the members of a record; `names` lead to the record from the one that is
called `root`.  `fuel` bounds how deep records are inside one another. -/
def mismatchIn? (root : String) : (fuel : Nat) → RecordShape → (names : List Bytes) →
    List (Bytes × Json) → Option Mismatch
  | 0, _, _, _ => none
  | fuel + 1, shape, names, members =>
    members.findSome? fun (name, value) =>
      (shape.field? name).bind fun (_, kind) =>
        mismatchOf? root fuel (names ++ [placeName name]) kind value

/-- The first mismatch in the value of a member. -/
def mismatchOf? (root : String) : (fuel : Nat) → (names : List Bytes) → FieldKind → Json →
    Option Mismatch
  | 0, _, _, _ => none
  | fuel + 1, names, kind, value =>
    match kind.complaint? value with
    | some words => some ⟨words, kind.name, some (root, names)⟩
    | none =>
      match kind, value.members? with
      | .record inner, some members => mismatchIn? root fuel inner names members
      | _, _ => none

end

/-- How deep records are inside one another at most, twice. -/
def shapeDepth : Nat := 4

/-- The members that a record understands. -/
def RecordShape.members (s : RecordShape) (members : List (Bytes × Json)) : Members :=
  members.reverse.filterMap fun (name, value) =>
    (s.field? name).bind fun (field, kind) =>
      match kind, value with
      | .any, _ => some (field, value)
      | _, .null => none
      | _, _ => some (field, value)

/-- Reads a record; `null` has no members. -/
def RecordShape.read (s : RecordShape) (j : Json) : Except Mismatch Members :=
  match j with
  | .null => .ok []
  | j =>
    match j.members? with
    | none => .error ⟨valueWords j, "rpc." ++ s.name, none⟩
    | some members =>
      match mismatchIn? s.name shapeDepth s [] members with
      | some m => .error m
      | none => .ok (s.members members)

namespace Members

/-- The value of a member. -/
def get? (ms : Members) (name : String) : Option Json := ms.lookup name

/-- The text of a member; empty if there is none. -/
def text (ms : Members) (name : String) : Bytes := ((ms.get? name).bind Json.text?).getD []

/-- The flag of a member; not set if there is none. -/
def flag (ms : Members) (name : String) : Bool :=
  match ms.get? name with
  | some (.bool b) => b
  | _ => false

/-- The number of a directory or file; 0 if there is none. -/
def blob (ms : Members) (name : String) : Nat :=
  match ms.get? name with
  | some (.number s) => (blob? s).getD 0
  | _ => 0

end Members

/-! ## Requests and replies -/

/-- What is asked for. -/
structure Request where
  /-- What the reply has to name; nothing if no reply is wanted. -/
  id : Option Json := none
  /-- Empty if the message asks for nothing. -/
  method : Bytes := []
  params : Option Json := none
deriving Repr, Inhabited

/-- Why a payload is no message. -/
inductive BadMessage where
  | malformed (f : Json.Fault)
  | mismatch (m : Mismatch)
deriving DecidableEq, Repr, Inhabited

/-- The wording of a bad message. -/
def BadMessage.message : BadMessage → Bytes
  | malformed f => f.message
  | mismatch m => m.message

/-- The members of a failure. -/
def failureShape : RecordShape := .mk "Error" [("code", .integer), ("message", .text)]

/-- The members of a message. -/
def messageShape : RecordShape :=
  .mk "message" [("jsonrpc", .text), ("id", .any), ("method", .text), ("params", .any),
    ("result", .any), ("error", .record failureShape)]

/-- The request in a payload. -/
def Request.read (payload : Bytes) : Except BadMessage Request :=
  match Json.fault? payload, Json.read? payload with
  | some f, _ => .error (.malformed f)
  | none, none => .error (.malformed .incomplete)
  | none, some j =>
    match messageShape.read j with
    | .error m => .error (.mismatch m)
    | .ok ms => .ok { id := ms.get? "id", method := ms.text "method", params := ms.get? "params" }

/-- The version of the protocol. -/
def protocolVersion : Json := .str "2.0"

/-- A reply with a result. -/
def resultReply (id result : Json) : Json :=
  .record [("id", id), ("jsonrpc", protocolVersion), ("result", result)]

/-- A reply that says what went wrong. -/
def failureReply (id : Json) (code : Int) (message : Bytes) : Json :=
  .record [("error", .record [("code", .int code), ("message", .text message)]), ("id", id),
    ("jsonrpc", protocolVersion)]

end Storyline.Rpc
