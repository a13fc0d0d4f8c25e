import Storyline.Text.Glyph
import Storyline.Text.Case
import Storyline.Text.Quoted

/-!
# Frames

Messages follow one another on a stream, each after header lines that say how long it is and an
empty line.  Of the headers only the length counts; if it is given more than once, the last one
does.

`Frame.write` puts a message into its frame and `Frame.read` takes the first one off a stream.
-/

namespace Storyline.Rpc.Frame

/-- Why a stream cannot be read on. -/
inductive Error where
  /-- A length that is no number or below zero. -/
  | badLength (written : Bytes)
  | noLength
  | tooLong (length : Nat)
  /-- The stream ends inside a header line or a message. -/
  | cutShort
deriving DecidableEq, Repr, Inhabited

/-- The wording of a failure. -/
def Error.message : Error → Bytes
  | badLength s => "invalid Content-Length " ++ Text.quoted s
  | noLength => "missing Content-Length header"
  | tooLong n => "message of " ++ Bytes.ofNat n ++ " bytes exceeds limit"
  | cutShort => "unexpected EOF"

/-- What is next on a stream. -/
inductive Next where
  /-- A message, and what follows it. -/
  | message (payload rest : Bytes)
  /-- The stream ends where a header line or a message would begin. -/
  | finished
  | failed (e : Error)
deriving DecidableEq, Repr, Inhabited

/-- The name of the header that gives the length. -/
def lengthHeader : Bytes := "Content-Length"

/-- How long a message may be. -/
def maxLength : Nat := 64 * 1024 * 1024

/-- The largest number that a length may spell. -/
def maxNumber : Nat := 0x7FFFFFFFFFFFFFFF

/-- The number that a length spells, with or without a sign. -/
def number? (s : Bytes) : Option Nat :=
  let bounded (n : Option Nat) (limit : Nat) : Option Nat := n.filter (· ≤ limit)
  match s with
  | 0x2B :: digits => bounded (Bytes.toNat? digits) maxNumber
  | 0x2D :: digits => bounded (Bytes.toNat? digits) 0
  | digits => bounded (Bytes.toNat? digits) maxNumber

/-- The length that a header line gives, if it is that header. -/
def lengthOf? (line : Bytes) : Option (Except Error Nat) :=
  match Bytes.cut? ":" line with
  | none => none
  | some (name, value) =>
    if Bytes.sameLetters lengthHeader name.trimBlank then
      match number? value.trimBlank with
      | some n => some (.ok n)
      | none => some (.error (.badLength value.trimBlank))
    else none

/-- The bytes up to the first line feed, and what follows it. -/
def line? (s : Bytes) : Option (Bytes × Bytes) := Bytes.cut? "\n" s

/-- What is known after some header lines. -/
inductive Head where
  /-- The empty line came; the length if one was given, and what follows. -/
  | ended (length : Option Nat) (rest : Bytes)
  | finished
  | failed (e : Error)
deriving DecidableEq, Repr, Inhabited

/-- Reads at most `fuel` header lines; `length` is the last length so far. -/
def readHead : (fuel : Nat) → (length : Option Nat) → Bytes → Head
  | 0, _, _ => .finished
  | fuel + 1, length, s =>
    match line? s with
    | none => if s.isEmpty then .finished else .failed .cutShort
    | some (line, rest) =>
      let line := line.trimRight fun b => b = '\r' || b = '\n'
      if line.isEmpty then .ended length rest
      else match lengthOf? line with
        | none => readHead fuel length rest
        | some (.ok n) => readHead fuel (some n) rest
        | some (.error e) => .failed e

/-- Takes the first message off a stream. -/
def read (s : Bytes) : Next :=
  match readHead (s.length + 1) none s with
  | .finished => .finished
  | .failed e => .failed e
  | .ended none _ => .failed .noLength
  | .ended (some n) rest =>
    if maxLength < n then .failed (.tooLong n)
    else if n ≤ rest.length then .message (rest.take n) (rest.drop n)
    else if rest.isEmpty then .finished
    else .failed .cutShort

/-- A message in its frame. -/
def write (payload : Bytes) : Bytes :=
  lengthHeader ++ ": " ++ Bytes.ofNat payload.length ++ "\r\n\r\n" ++ payload

end Storyline.Rpc.Frame
