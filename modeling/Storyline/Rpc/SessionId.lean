import Storyline.Text.Bytes

/-!
# Ids of sessions

An id is sixteen bytes.  Where new ones come from and how they are spelled is left open
(`SessionIds`): a server relies on no more than `SessionIds.Sound` says.
-/

namespace Storyline.Rpc

/-- The id of a session. -/
structure SessionId where
  bytes : Bytes
  length_bytes : bytes.length = 16
deriving DecidableEq, Repr

instance : Inhabited SessionId := ⟨List.replicate 16 0, List.length_replicate⟩

/-- A source of ids, and a way to spell them. -/
class SessionIds where
  /-- The id that is made at the `n`-th time. -/
  new : (n : Nat) → SessionId
  /-- The spelling of an id. -/
  spell : SessionId → Bytes
  /-- The id that a text spells; an id may have several spellings. -/
  read? : Bytes → Option SessionId

namespace SessionIds

/-- What is relied on of the first `count` ids, and of the spelling of all. -/
structure Sound [SessionIds] (count : Nat) : Prop where
  /-- An id is not one of those that were made before. -/
  fresh : ∀ m n, m < n → n ≤ count → new m ≠ new n
  /-- An id is spelled with hexadecimal digits and dashes. -/
  plain : ∀ id, ∀ b ∈ spell id, b = ('-' : UInt8) ∨ ∃ n < 16, b = Bytes.hexDigit n
  /-- What an id is spelled as is read as that id. -/
  read?_spell : ∀ id, read? (spell id) = some id

end SessionIds

end Storyline.Rpc
