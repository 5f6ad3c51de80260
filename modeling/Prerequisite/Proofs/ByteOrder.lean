import Mathlib.Data.List.Lex
import Mathlib.Data.String.Basic
import Mathlib.Order.Monotone.Basic

/-!
# The order of texts by their bytes

Texts are ordered by the code points of their characters.  UTF-8 is made so that the bytes give the
same order: the encodings of two characters differ at some byte, and the first byte where they do is
smaller for the character with the smaller code point.  So neither encoding begins the other, and
what follows the characters does not matter.
-/

namespace Prerequisite.Text

/-- The bytes of the UTF-8 encoding of a text. -/
def bytes (text : String) : List ℕ := text.toByteArray.data.toList.map UInt8.toNat

/-- The bytes of the UTF-8 encoding of a character. -/
def encoding (c : Char) : List ℕ := (String.utf8EncodeChar c).map UInt8.toNat

/-- A text is encoded character by character. -/
theorem bytes_eq_flatMap (text : String) :
  bytes text = text.toList.flatMap encoding
  := by
  rw [bytes, ← String.utf8Encode_toList, List.utf8Encode, List.toList_data_toByteArray,
    List.map_flatMap]
  rfl

/-- The bytes after the first have six bits of the code point each. -/
theorem encoding_eq (c : Char) :
  encoding c =
    if c.toNat ≤ 127 then [c.toNat]
    else if c.toNat ≤ 2047 then [192 + c.toNat / 64, 128 + c.toNat % 64]
    else if c.toNat ≤ 65535 then
      [224 + c.toNat / 64 / 64, 128 + c.toNat / 64 % 64, 128 + c.toNat % 64]
    else
      [240 + c.toNat / 64 / 64 / 64, 128 + c.toNat / 64 / 64 % 64, 128 + c.toNat / 64 % 64,
        128 + c.toNat % 64]
  := by
  have hvalid : c.toNat < 0xD800 ∨ 0xDFFF < c.toNat ∧ c.toNat < 0x110000 := c.valid
  unfold encoding String.utf8EncodeChar
  simp only [Char.toNat] at hvalid ⊢
  split_ifs
  <;> simp only [List.map_cons, List.map_nil, UInt8.toNat_ofNat', List.cons.injEq, and_true]
  <;> omega

/-- The character with the smaller code point is encoded by smaller bytes, whatever follows. -/
theorem encoding_append_lt {c d : Char} (h : c < d) (rest rest' : List ℕ) :
  encoding c ++ rest < encoding d ++ rest'
  := by
  have hcode : c.toNat < d.toNat := h
  rw [encoding_eq, encoding_eq]
  split_ifs
  <;> simp only [List.cons_append, List.nil_append, List.cons_lt_cons_iff] <;> omega

theorem flatMap_encoding_lt {text text' : List Char} (h : text < text') :
  text.flatMap encoding < text'.flatMap encoding
  := by
  induction h with
  | @nil c rest =>
    have hne : encoding c ≠ [] := by simp [encoding, String.utf8EncodeChar_ne_nil]
    obtain ⟨byte, others, hencoding⟩ := List.exists_cons_of_ne_nil hne
    rw [List.flatMap_nil, List.flatMap_cons, hencoding, List.cons_append]
    apply List.nil_lt_cons
  | cons _ ih =>
    rw [List.flatMap_cons, List.flatMap_cons]
    apply List.append_left_lt ih
  | rel hhead =>
    rw [List.flatMap_cons, List.flatMap_cons]
    apply encoding_append_lt hhead

/-- Texts and their bytes are ordered alike. -/
theorem bytes_strictMono :
  StrictMono bytes
  := by
  intro text text' h
  rw [bytes_eq_flatMap, bytes_eq_flatMap]
  apply flatMap_encoding_lt (String.lt_iff_toList_lt.mp h)

end Prerequisite.Text
