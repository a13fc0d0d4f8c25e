import Mathlib.Data.List.TakeWhile
import Storyline.Proofs.Text.Ascii
import Storyline.Proofs.Text.Lists
import Storyline.Command.Serve
import Storyline.Json.Basic

/-!
# Ids are read as they were spelled

The id of a session is told to the client as a string, and the client names the session by sending
that string back.  Its spelling is in ASCII and needs no escapes, so that it stands in JSON as it is
(`text?_text`), and what stands there is read back as the id (`SessionIds.Sound.read?_text`).

Numbered ids are sound up to the number that six bytes can hold (`SessionId.sound_of_lt`).
-/

namespace Storyline

/-! ## Hexadecimal digits -/

namespace Bytes

theorem hexDigit?_hexDigit : ∀ n < 16, hexDigit? (hexDigit n) = some n := by decide

theorem hexDigit_ne_dash : ∀ n < 16, hexDigit n ≠ 45 := by decide

theorem hex_cons (b : UInt8) (s : Bytes) :
    hex (b :: s) = hexDigit (b.toNat / 16 % 16) :: hexDigit (b.toNat % 16) :: hex s := rfl

theorem length_hex (s : Bytes) : s.hex.length = 2 * s.length := by
  induction s with
  | nil => rfl
  | cons b s ih =>
    simp only [hex_cons, List.length_cons, ih]
    omega

theorem exists_hexDigit_of_mem_hex {s : Bytes} {d : UInt8} (h : d ∈ s.hex) :
    ∃ n < 16, d = hexDigit n := by
  induction s with
  | nil => cases h
  | cons b s ih =>
    rw [hex_cons, List.mem_cons, List.mem_cons] at h
    rcases h with rfl | rfl | h
    · exact ⟨_, Nat.mod_lt _ (by decide), rfl⟩
    · exact ⟨_, Nat.mod_lt _ (by decide), rfl⟩
    · exact ih h

end Bytes

/-! ## Strings without escapes -/

namespace Json

/-- A byte that stands for itself in a string. -/
def isBare (b : UInt8) : Bool := 0x20 ≤ b && b < 0x80 && b != 0x22 && b != 0x5C

theorem bare_glyph {b : UInt8} (h : isBare b = true) :
    b < 0x80 ∧ b ≠ (0x5C : UInt8) ∧ spellGlyph .plain (.char (Char.ofNat b.toNat)) = [b]
      ∧ String.utf8EncodeChar (Char.ofNat b.toNat) = [b] := by
  have hall : ∀ n : Fin 256, isBare n.val.toUInt8 = true →
      n.val.toUInt8 < 0x80 ∧ n.val.toUInt8 ≠ 0x5C
        ∧ spellGlyph .plain (.char (Char.ofNat n.val)) = [n.val.toUInt8]
        ∧ String.utf8EncodeChar (Char.ofNat n.val) = [n.val.toUInt8] := by decide +kernel
  have hback : b.toNat.toUInt8 = b := by simp
  have hb := hall ⟨b.toNat, b.toNat_lt⟩
  rw [hback] at hb
  exact hb h

theorem glyphs_bare {s : Bytes} (h : ∀ b ∈ s, isBare b = true) :
    s.glyphs = s.map fun b => .char (Char.ofNat b.toNat) := by
  induction s with
  | nil => rfl
  | cons b s ih =>
    obtain ⟨hb, hs⟩ := List.forall_mem_cons.mp h
    rw [Bytes.glyphs_cons_ascii (bare_glyph hb).1, ih hs, List.map_cons]

theorem flatMap_singleton_of {α : Type} {g : α → Bytes} {s : Bytes} {f : UInt8 → α}
    (h : ∀ b ∈ s, g (f b) = [b]) : (s.map f).flatMap g = s := by
  induction s with
  | nil => rfl
  | cons b s ih =>
    obtain ⟨hb, hs⟩ := List.forall_mem_cons.mp h
    rw [List.map_cons, List.flatMap_cons, hb, ih hs]
    rfl

theorem spell_bare {s : Bytes} (h : ∀ b ∈ s, isBare b = true) : spell .plain s = s := by
  rw [spell, glyphs_bare h]
  exact flatMap_singleton_of fun b hb => (bare_glyph (h b hb)).2.2.1

theorem unspellFrom_bare {s : Bytes} (h : ∀ b ∈ s, isBare b = true) (acc : Array UInt8) :
    (unspellFrom acc 0 s).toList = acc.toList ++ s := by
  induction s generalizing acc with
  | nil => simp [unspellFrom]
  | cons b s ih =>
    obtain ⟨hb, hs⟩ := List.forall_mem_cons.mp h
    have hne : ¬ b = ('\\' : UInt8) := (bare_glyph hb).2.1
    simp only [unspellFrom, if_neg hne, ih hs, Array.toList_push, List.append_assoc,
      List.singleton_append]

/-- A text that needs no escapes is the text of its string. -/
theorem text?_text {s : Bytes} (h : ∀ b ∈ s, isBare b = true) : (text s).text? = some s := by
  have hread : (unspellFrom #[] 0 s).toList = s := unspellFrom_bare h #[]
  rw [text, spell_bare h, text?, unspell, hread, Bytes.shown, glyphs_bare h, List.map_map,
    Bytes.ofChars]
  exact congrArg some (flatMap_singleton_of fun b hb => (bare_glyph (h b hb)).2.2.2)

end Json

/-! ## Ids that are relied on -/

namespace Rpc

namespace SessionIds

variable [SessionIds] {count : Nat}

theorem Sound.mono (h : Sound count) {fewer : Nat} (hle : fewer ≤ count) : Sound fewer :=
  { h with fresh := fun m n hlt hn => h.fresh m n hlt (hn.trans hle) }

theorem Sound.bare (h : Sound count) (id : SessionId) :
    ∀ b ∈ spell id, Json.isBare b = true := by
  have hdigits : ∀ n < 16, Json.isBare (Bytes.hexDigit n) = true := by decide
  intro b hb
  rcases h.plain id b hb with rfl | ⟨n, hn, rfl⟩
  · decide
  · exact hdigits n hn

/-- An id that was told in JSON is read back. -/
theorem Sound.read?_text (h : Sound count) (id : SessionId) :
    (Json.text (spell id)).text?.bind read? = some id := by
  rw [Json.text?_text (h.bare id), Option.bind_some, h.read?_spell]

end SessionIds

/-! ## Numbered ids -/

namespace SessionId

theorem readPairs?_hex (s : Bytes) : readPairs? s.hex = some s := by
  induction s with
  | nil => rfl
  | cons b s ih =>
    have hhigh := Bytes.hexDigit?_hexDigit (b.toNat / 16 % 16) (Nat.mod_lt _ (by decide))
    have hlow := Bytes.hexDigit?_hexDigit (b.toNat % 16) (Nat.mod_lt _ (by decide))
    have hbyte : 16 * (b.toNat / 16 % 16) + b.toNat % 16 = b.toNat := by
      have := b.toNat_lt
      omega
    simp only [Bytes.hex_cons, readPairs?, hhigh, hlow, ih, hbyte, bind, Option.bind, pure]
    simp

theorem readDigits?_hex (id : SessionId) : readDigits? id.bytes.hex = some id := by
  rw [readDigits?, readPairs?_hex]
  exact dif_pos id.length_bytes

/-- The digits of an id in their five groups. -/
theorem spell_eq (id : SessionId) : ∃ a b c d e, id.spell = Bytes.join "-" [a, b, c, d, e]
    ∧ a ++ b ++ c ++ d ++ e = id.bytes.hex
    ∧ [a, b, c, d, e].map List.length = [8, 4, 4, 4, 12] := by
  refine ⟨_, _, _, _, _, rfl, ?_, ?_⟩
  · have hsplit : ∀ n, (id.bytes.hex.drop n).take 4 ++ id.bytes.hex.drop (n + 4)
        = id.bytes.hex.drop n := fun n => by
      rw [← List.drop_drop, List.take_append_drop]
    simp only [List.append_assoc]
    rw [hsplit 16, hsplit 12, hsplit 8, List.take_append_drop]
  · simp [Bytes.length_hex, id.length_bytes]

/-- An id is spelled with digits and dashes. -/
theorem plain_spell (id : SessionId) :
    ∀ b ∈ id.spell, b = ('-' : UInt8) ∨ ∃ n < 16, b = Bytes.hexDigit n := by
  obtain ⟨a, b, c, d, e, hspell, hdigits, -⟩ := spell_eq id
  have hdash : Bytes.ofString "-" = [('-' : UInt8)] := by decide
  intro x hx
  rw [hspell, Bytes.join_cons, hdash] at hx
  have hmem : x = ('-' : UInt8) ∨ x ∈ a ++ b ++ c ++ d ++ e := by
    simp only [List.flatMap_cons, List.flatMap_nil, List.append_nil, List.mem_append,
      List.mem_singleton] at hx ⊢
    tauto
  rw [hdigits] at hmem
  exact hmem.imp_right Bytes.exists_hexDigit_of_mem_hex

/-- The spelling of an id is read back as the id. -/
theorem read?_spell (id : SessionId) : read? id.spell = some id := by
  obtain ⟨a, b, c, d, e, hspell, hdigits, hlengths⟩ := spell_eq id
  have hjoined : id.spell = a ++ 45 :: (b ++ 45 :: (c ++ 45 :: (d ++ 45 :: e))) := by
    have hdash : Bytes.ofString "-" = [45] := by decide
    rw [hspell, Bytes.join_cons, hdash]
    simp
  have hlength : id.spell.length = 36 := by
    simp only [List.map_cons, List.map_nil, List.cons.injEq] at hlengths
    simp only [hjoined, List.length_append, List.length_cons]
    omega
  have hdash : (45 : UInt8) ∉ a ++ b ++ c ++ d ++ e := by
    intro hx
    rw [hdigits] at hx
    obtain ⟨n, hn, heq⟩ := Bytes.exists_hexDigit_of_mem_hex hx
    exact Bytes.hexDigit_ne_dash n hn heq.symm
  -- none of the groups has a dash in it, so that splitting at the dashes gives the groups
  have hpieces : Bytes.splitOnByte 45 id.spell = [a, b, c, d, e] := by
    have hsep : Bytes.ofString "-" = [45] := by decide
    rw [hspell, hsep]
    refine Bytes.splitOnByte_join (List.cons_ne_nil _ _) ?_
    simpa [and_assoc] using hdash
  have hgroup : readGroups? id.spell = some id := by
    have hwhole : id.spell.take 36 = id.spell := List.take_of_length_le hlength.le
    have hminus : ('-' : UInt8) = 45 := by decide
    rw [readGroups?, hwhole, hminus, hpieces]
    simp only [hlengths, if_true, hdigits, readDigits?_hex]
  rw [read?, hlength]
  exact hgroup

/-- Numbers that six bytes can hold give different ids. -/
theorem ofNumber_inj {m n : Nat} (hm : m < 0x1000000000000) (hn : n < 0x1000000000000)
    (h : ofNumber m = ofNumber n) : m = n := by
  have hbytes := List.append_cancel_left (congrArg bytes h)
  have hdigit (i d : Nat) (hi : i < 6) (hd : Nat.pow 256 (5 - i) = d) :
      m / d % 256 = n / d % 256 := by
    subst hd
    exact congrArg UInt8.toNat (List.map_inj_left.mp hbytes i (List.mem_range.mpr hi))
  have h0 := hdigit 0 1099511627776 (by decide) rfl
  have h1 := hdigit 1 4294967296 (by decide) rfl
  have h2 := hdigit 2 16777216 (by decide) rfl
  have h3 := hdigit 3 65536 (by decide) rfl
  have h4 := hdigit 4 256 (by decide) rfl
  have h5 := hdigit 5 1 (by decide) rfl
  omega

/-- Numbered ids can be relied on as long as six bytes hold their numbers. -/
theorem sound_of_lt {count : Nat} (h : count < 0x1000000000000) : SessionIds.Sound count where
  fresh m n hlt hn heq := Nat.ne_of_lt hlt (ofNumber_inj (by omega) (by omega) heq)
  plain := plain_spell
  read?_spell := read?_spell

end SessionId

end Rpc

end Storyline
