import Storyline.Text.Glyph
import Storyline.Source.Cursor

/-!
# Brackets and quotes

Scripts and parameters stand in a story between brackets.  Where they end is found without reading
them as scripts: brackets nest, and what stands in quotes does not count.
-/

namespace Storyline.Markup

/-- Whether a byte opens or closes a quoted string. -/
def isQuote (b : UInt8) : Bool := b = '"' || b = '\'' || b = 0x60

/-- The distance to the first `closing` that has no `opening` of its own.  Quoted strings are
skipped; a backslash inside one hides the byte behind it. -/
def closeDistance (opening closing : UInt8) (text : Bytes) : Option Nat :=
  go 0 none 0 text
where
  /-- Searches from the distance `i` on, inside `quote` and `depth` brackets deep. -/
  go (depth : Nat) (quote : Option UInt8) (i : Nat) : Bytes → Option Nat
    | [] => none
    | b :: rest =>
      match quote with
      | some q =>
        if b = '\\' then
          match rest with
          | [] => none
          | _ :: rest => go depth quote (i + 2) rest
        else go depth (if b = q then none else quote) (i + 1) rest
      | none =>
        if isQuote b then go depth (some b) (i + 1) rest
        else if b = opening then go (depth + 1) none (i + 1) rest
        else if b = closing then
          if depth = 0 then some i else go (depth - 1) none (i + 1) rest
        else go depth none (i + 1) rest

/-- Whether a byte is an opening bracket. -/
def isOpening (b : UInt8) : Bool := b = '(' || b = '[' || b = 0x7B

/-- Whether a byte is a closing bracket. -/
def isClosing (b : UInt8) : Bool := b = ')' || b = ']' || b = 0x7D

/-- The parameters between commas that stand outside of brackets and quotes, without blanks around
them.  Nothing but blanks is no parameter. -/
def splitParams (text : Bytes) : List Bytes :=
  if text.trimBlank.isEmpty then [] else go 0 none [] text
where
  /-- The parameters from here on; `current` is the one being read, last byte first. -/
  go (depth : Int) (quote : Option UInt8) (current : Bytes) : Bytes → List Bytes
    | [] => [Bytes.trimBlank current.reverse]
    | b :: rest =>
      match quote with
      | some q =>
        if b = '\\' then
          match rest with
          | [] => [Bytes.trimBlank (b :: current).reverse]
          | e :: rest => go depth quote (e :: b :: current) rest
        else go depth (if b = q then none else quote) (b :: current) rest
      | none =>
        if isQuote b then go depth (some b) (b :: current) rest
        else if isOpening b then go (depth + 1) none (b :: current) rest
        else if isClosing b then go (depth - 1) none (b :: current) rest
        else if b = ',' && depth = 0 then
          Bytes.trimBlank current.reverse :: go depth none [] rest
        else go depth none (b :: current) rest

end Storyline.Markup

namespace Storyline.Cursor

/-- The offset, below `limit`, of the symbol that closes an `opening` right before the cursor. -/
def closeOffset? (c : Cursor) (opening closing : UInt8) (limit : Nat) : Option Nat :=
  (Markup.closeDistance opening closing (c.slice c.offset limit)).map (c.offset + ·)

end Storyline.Cursor
