import Reindent.Text.Encoding
import Mathlib.Data.Nat.Basic

/-!
# Well-formed UTF-8

A character is written in one to four bytes.  The first byte says how many there are, and each of
the others carries six more bits of the character's number.  Not every such sequence is a character:
a number must not take more bytes than it needs, and it must be the number of a character, which
leaves out the surrogates and what lies beyond the last one.  Bytes are text exactly when they are
characters one after another.
-/

namespace Reindent
namespace Text

/-- A byte after the first one of a character. -/
def IsTail (b : UInt8) : Prop :=
  b.toNat / 64 = 2

/-- The bytes have the form of a character with a number: the marks of the first byte and of the
others, and the bits behind the marks. -/
inductive Spells : List UInt8 → ℕ → Prop
  | one {a : UInt8} (ha : a.toNat < 0x80) : Spells [a] a.toNat
  | two {a b : UInt8} (ha : a.toNat / 32 = 6) (hb : IsTail b) :
      Spells [a, b] (a.toNat % 32 * 64 + b.toNat % 64)
  | three {a b c : UInt8} (ha : a.toNat / 16 = 14) (hb : IsTail b) (hc : IsTail c) :
      Spells [a, b, c] ((a.toNat % 16 * 64 + b.toNat % 64) * 64 + c.toNat % 64)
  | four {a b c d : UInt8} (ha : a.toNat / 8 = 30) (hb : IsTail b) (hc : IsTail c)
      (hd : IsTail d) :
      Spells [a, b, c, d]
        (((a.toNat % 8 * 64 + b.toNat % 64) * 64 + c.toNat % 64) * 64 + d.toNat % 64)

/-- The least number that takes so many bytes. -/
def leastOf : ℕ → ℕ
  | 2 => 0x80
  | 3 => 0x800
  | 4 => 0x10000
  | _ => 0

/-- The bytes are the UTF-8 form of the character with a number. -/
structure IsCharacter (bytes : List UInt8) (number : ℕ) : Prop where
  spells : Spells bytes number
  not_overlong : leastOf bytes.length ≤ number
  not_surrogate : number < 0xD800 ∨ 0xDFFF < number
  le_last : number ≤ 0x10FFFF

/-- The bytes are characters one after another. -/
inductive WellFormed : List UInt8 → Prop
  | nil : WellFormed []
  | cons {bytes rest : List UInt8} {number : ℕ} (hfirst : IsCharacter bytes number)
      (hrest : WellFormed rest) : WellFormed (bytes ++ rest)

/-! ## One character -/

theorem toNat_ofNat_of_lt
    {n : ℕ} (h : n < 256) :
    (UInt8.ofNat n).toNat = n := by
  rw [UInt8.toNat_ofNat']
  exact Nat.mod_eq_of_lt h

theorem ofNat_eq_of_eq_toNat
    {n : ℕ} {b : UInt8} (h : n = b.toNat) :
    UInt8.ofNat n = b := by
  rw [h, UInt8.ofNat_toNat]

theorem Spells.of_eq
    {bytes : List UInt8} {m n : ℕ} (h : Spells bytes m) (heq : m = n) :
    Spells bytes n :=
  heq ▸ h

theorem spells_utf8EncodeChar (c : Char) :
    Spells (String.utf8EncodeChar c) c.toNat := by
  have hvalid : c.toNat < 0xD800 ∨ 0xDFFF < c.toNat ∧ c.toNat < 0x110000 := c.valid
  rw [String.utf8EncodeChar]
  simp only [Char.toNat_val]
  generalize c.toNat = n at hvalid ⊢
  split_ifs with hone htwo hthree
  · have ha := toNat_ofNat_of_lt (show n < 256 by omega)
    exact (Spells.one (by omega)).of_eq ha
  · have ha := toNat_ofNat_of_lt (show n / 64 % 32 + 192 < 256 by omega)
    have hb := toNat_ofNat_of_lt (show n % 64 + 128 < 256 by omega)
    have hspells := Spells.two (a := UInt8.ofNat (n / 64 % 32 + 192))
      (b := UInt8.ofNat (n % 64 + 128)) (by omega) (by rw [IsTail]; omega)
    exact hspells.of_eq (by omega)
  · have ha := toNat_ofNat_of_lt (show n / 4096 % 16 + 224 < 256 by omega)
    have hb := toNat_ofNat_of_lt (show n / 64 % 64 + 128 < 256 by omega)
    have hc := toNat_ofNat_of_lt (show n % 64 + 128 < 256 by omega)
    have hspells := Spells.three (a := UInt8.ofNat (n / 4096 % 16 + 224))
      (b := UInt8.ofNat (n / 64 % 64 + 128)) (c := UInt8.ofNat (n % 64 + 128))
      (by omega) (by rw [IsTail]; omega) (by rw [IsTail]; omega)
    exact hspells.of_eq (by omega)
  · have ha := toNat_ofNat_of_lt (show n / 262144 % 8 + 240 < 256 by omega)
    have hb := toNat_ofNat_of_lt (show n / 4096 % 64 + 128 < 256 by omega)
    have hc := toNat_ofNat_of_lt (show n / 64 % 64 + 128 < 256 by omega)
    have hd := toNat_ofNat_of_lt (show n % 64 + 128 < 256 by omega)
    have hspells := Spells.four (a := UInt8.ofNat (n / 262144 % 8 + 240))
      (b := UInt8.ofNat (n / 4096 % 64 + 128)) (c := UInt8.ofNat (n / 64 % 64 + 128))
      (d := UInt8.ofNat (n % 64 + 128))
      (by omega) (by rw [IsTail]; omega) (by rw [IsTail]; omega) (by rw [IsTail]; omega)
    exact hspells.of_eq (by omega)

theorem leastOf_length_utf8EncodeChar_le (c : Char) :
    leastOf (String.utf8EncodeChar c).length ≤ c.toNat := by
  rw [String.utf8EncodeChar]
  simp only [Char.toNat_val]
  split_ifs with hone htwo hthree
  · exact Nat.zero_le _
  · exact Nat.lt_of_not_le hone
  · exact Nat.lt_of_not_le htwo
  · exact Nat.lt_of_not_le hthree

/-- The form of a character is well-formed. -/
theorem isCharacter_utf8EncodeChar (c : Char) :
    IsCharacter (String.utf8EncodeChar c) c.toNat := by
  have hvalid : c.toNat < 0xD800 ∨ 0xDFFF < c.toNat ∧ c.toNat < 0x110000 := c.valid
  exact ⟨spells_utf8EncodeChar c, leastOf_length_utf8EncodeChar_le c, by omega, by omega⟩

/-- What is well-formed is the form of a character: its bytes are all there is to choose. -/
theorem IsCharacter.exists_eq_utf8EncodeChar
    {bytes : List UInt8} {number : ℕ} (h : IsCharacter bytes number) :
    ∃ c : Char, bytes = String.utf8EncodeChar c := by
  obtain ⟨hspells, hleast, hsurrogate, hlast⟩ := h
  have hvalid : number.isValidChar := by
    rw [Nat.isValidChar]
    omega
  obtain ⟨c, hnumber⟩ : ∃ c : Char, c.val.toNat = number := ⟨Char.ofNatAux number hvalid, rfl⟩
  refine ⟨c, ?_⟩
  rw [String.utf8EncodeChar]
  simp only [hnumber]
  cases hspells with
  | one ha =>
      rw [if_pos (by omega), UInt8.ofNat_toNat]
  | @two a b ha hb =>
      simp only [leastOf, List.length_cons, List.length_nil] at hleast
      rw [IsTail] at hb
      rw [if_neg (by omega), if_pos (by omega)]
      rw [ofNat_eq_of_eq_toNat (show _ = a.toNat by omega),
        ofNat_eq_of_eq_toNat (show _ = b.toNat by omega)]
  | @three a b c ha hb hc =>
      simp only [leastOf, List.length_cons, List.length_nil] at hleast
      rw [IsTail] at hb hc
      rw [if_neg (by omega), if_neg (by omega), if_pos (by omega)]
      rw [ofNat_eq_of_eq_toNat (show _ = a.toNat by omega),
        ofNat_eq_of_eq_toNat (show _ = b.toNat by omega),
        ofNat_eq_of_eq_toNat (show _ = c.toNat by omega)]
  | @four a b c d ha hb hc hd =>
      simp only [leastOf, List.length_cons, List.length_nil] at hleast
      rw [IsTail] at hb hc hd
      rw [if_neg (by omega), if_neg (by omega), if_neg (by omega)]
      rw [ofNat_eq_of_eq_toNat (show _ = a.toNat by omega),
        ofNat_eq_of_eq_toNat (show _ = b.toNat by omega),
        ofNat_eq_of_eq_toNat (show _ = c.toNat by omega),
        ofNat_eq_of_eq_toNat (show _ = d.toNat by omega)]

/-! ## A whole text -/

theorem wellFormed_flatMap_utf8EncodeChar (chars : List Char) :
    WellFormed (chars.flatMap String.utf8EncodeChar) := by
  induction chars with
  | nil => exact .nil
  | cons c chars ih => exact .cons (isCharacter_utf8EncodeChar c) ih

theorem WellFormed.exists_eq_flatMap
    {bytes : List UInt8} (h : WellFormed bytes) :
    ∃ chars : List Char, bytes = chars.flatMap String.utf8EncodeChar := by
  induction h with
  | nil => exact ⟨[], rfl⟩
  | cons hfirst _ ih =>
      obtain ⟨c, rfl⟩ := hfirst.exists_eq_utf8EncodeChar
      obtain ⟨chars, rfl⟩ := ih
      exact ⟨c :: chars, rfl⟩

/-- Bytes can be read exactly when they are well-formed. -/
theorem isSome_ofUtf8?_iff (bytes : ByteArray) :
    (ofUtf8? bytes).isSome = true ↔ WellFormed bytes.data.toList := by
  have hvalid : (ofUtf8? bytes).isSome = true ↔ bytes.IsValidUTF8 := by
    rw [ofUtf8?, Option.isSome_map, String.fromUTF8?]
    split
    · next hvalid => exact iff_of_true rfl hvalid
    · next hvalid => exact iff_of_false (by simp) hvalid
  rw [hvalid]
  constructor
  · rintro ⟨chars, rfl⟩
    rw [List.utf8Encode, List.toList_data_toByteArray]
    exact wellFormed_flatMap_utf8EncodeChar chars
  · intro hformed
    obtain ⟨chars, hchars⟩ := hformed.exists_eq_flatMap
    refine ⟨chars, ByteArray.ext (Array.toList_inj.mp ?_)⟩
    rw [List.utf8Encode, List.toList_data_toByteArray, hchars]

end Text
end Reindent
