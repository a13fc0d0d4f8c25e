import Storyline.Text.Bytes

/-!
# Content digests

SHA-256 over byte texts.  `Digest.ofBytes` is the hash of one text and `Digest.combine` the hash
of a digest followed by further texts, with nothing between them.
-/

namespace Storyline

/-- A 256-bit content hash as thirty-two bytes. -/
structure Digest where
  bytes : Bytes
deriving DecidableEq, Repr, Inhabited

namespace Digest

/-! ## Words -/

/-- Rotation of a word to the right. -/
def rotate (n x : UInt32) : UInt32 := (x >>> n) ||| (x <<< (32 - n))

/-- The word that four bytes spell, most significant first. -/
def word (a b c d : UInt8) : UInt32 :=
  (a.toUInt32 <<< 24) ||| (b.toUInt32 <<< 16) ||| (c.toUInt32 <<< 8) ||| d.toUInt32

/-- The words of a text whose length is a multiple of four. -/
def words : Bytes → List UInt32
  | a :: b :: c :: d :: rest => word a b c d :: words rest
  | _ => []

/-- The four bytes of a word, most significant first. -/
def wordBytes (x : UInt32) : Bytes :=
  [(x >>> 24).toUInt8, (x >>> 16).toUInt8, (x >>> 8).toUInt8, x.toUInt8]

/-- The round constants: fractional parts of the cube roots of the first 64 primes. -/
def roundConstants : List UInt32 := [
    0x428a2f98, 0x71374491, 0xb5c0fbcf, 0xe9b5dba5, 0x3956c25b, 0x59f111f1, 0x923f82a4, 0xab1c5ed5,
    0xd807aa98, 0x12835b01, 0x243185be, 0x550c7dc3, 0x72be5d74, 0x80deb1fe, 0x9bdc06a7, 0xc19bf174,
    0xe49b69c1, 0xefbe4786, 0x0fc19dc6, 0x240ca1cc, 0x2de92c6f, 0x4a7484aa, 0x5cb0a9dc, 0x76f988da,
    0x983e5152, 0xa831c66d, 0xb00327c8, 0xbf597fc7, 0xc6e00bf3, 0xd5a79147, 0x06ca6351, 0x14292967,
    0x27b70a85, 0x2e1b2138, 0x4d2c6dfc, 0x53380d13, 0x650a7354, 0x766a0abb, 0x81c2c92e, 0x92722c85,
    0xa2bfe8a1, 0xa81a664b, 0xc24b8b70, 0xc76c51a3, 0xd192e819, 0xd6990624, 0xf40e3585, 0x106aa070,
    0x19a4c116, 0x1e376c08, 0x2748774c, 0x34b0bcb5, 0x391c0cb3, 0x4ed8aa4a, 0x5b9cca4f, 0x682e6ff3,
    0x748f82ee, 0x78a5636f, 0x84c87814, 0x8cc70208, 0x90befffa, 0xa4506ceb, 0xbef9a3f7, 0xc67178f2]

/-! ## Compression -/

/-- The eight chaining words. -/
structure State where
  a : UInt32
  b : UInt32
  c : UInt32
  d : UInt32
  e : UInt32
  f : UInt32
  g : UInt32
  h : UInt32

/-- The chaining words before the first block. -/
def State.initial : State where
  a := 0x6a09e667
  b := 0xbb67ae85
  c := 0x3c6ef372
  d := 0xa54ff53a
  e := 0x510e527f
  f := 0x9b05688c
  g := 0x1f83d9ab
  h := 0x5be0cd19

/-- Wordwise sum of two states. -/
def State.add (s t : State) : State where
  a := s.a + t.a
  b := s.b + t.b
  c := s.c + t.c
  d := s.d + t.d
  e := s.e + t.e
  f := s.f + t.f
  g := s.g + t.g
  h := s.h + t.h

/-- One round with a round constant and a schedule word. -/
def State.round (s : State) (k w : UInt32) : State :=
  let s1 := rotate 6 s.e ^^^ rotate 11 s.e ^^^ rotate 25 s.e
  let choice := (s.e &&& s.f) ^^^ (~~~s.e &&& s.g)
  let t1 := s.h + s1 + choice + k + w
  let s0 := rotate 2 s.a ^^^ rotate 13 s.a ^^^ rotate 22 s.a
  let majority := (s.a &&& s.b) ^^^ (s.a &&& s.c) ^^^ (s.b &&& s.c)
  { a := t1 + (s0 + majority), b := s.a, c := s.b, d := s.c
    e := s.d + t1, f := s.e, g := s.f, h := s.g }

/-- Adds `count` words to a message schedule that has at least sixteen. -/
def extend (schedule : Array UInt32) : (count : Nat) → Array UInt32
  | 0 => schedule
  | n + 1 =>
    let back (k : Nat) : UInt32 := schedule.getD (schedule.size - k) 0
    let x := back 15
    let y := back 2
    let s0 := rotate 7 x ^^^ rotate 18 x ^^^ (x >>> 3)
    let s1 := rotate 17 y ^^^ rotate 19 y ^^^ (y >>> 10)
    extend (schedule.push (back 16 + s0 + back 7 + s1)) n

/-- The state after a block of sixteen words. -/
def State.compress (s : State) (block : List UInt32) : State :=
  let schedule := (extend block.toArray 48).toList
  s.add ((roundConstants.zip schedule).foldl (fun t kw => t.round kw.1 kw.2) s)

/-- The state after all blocks of a padded message. -/
def State.absorb (s : State) : (blocks : Nat) → List UInt32 → State
  | 0, _ => s
  | n + 1, ws => (s.compress (ws.take 16)).absorb n (ws.drop 16)

/-- A message followed by a one bit, zeros up to eight bytes before a multiple of 64, and its
length in bits. -/
def pad (message : Bytes) : Bytes :=
  let n := message.length
  let zeros := (119 - n % 64) % 64
  let bits := n * 8
  let length := (List.range 8).map fun i => (bits / Nat.pow 256 (7 - i)).toUInt8
  message ++ ((0x80 : UInt8) :: List.replicate zeros 0) ++ length

/-- The SHA-256 digest of a text. -/
def ofBytes (message : Bytes) : Digest :=
  let padded := pad message
  let s := State.initial.absorb (padded.length / 64) (words padded)
  ⟨[s.a, s.b, s.c, s.d, s.e, s.f, s.g, s.h].flatMap wordBytes⟩

/-- The digest of thirty-two zero bytes standing for "no content". -/
def zero : Digest := ⟨List.replicate 32 0⟩

/-- The digest of a content digest followed by further texts. -/
def combine (content : Digest) (parts : List Bytes) : Digest :=
  ofBytes (content.bytes ++ parts.flatten)

/-- A digest in hexadecimal. -/
def hex (d : Digest) : Bytes := d.bytes.hex

end Digest

end Storyline
