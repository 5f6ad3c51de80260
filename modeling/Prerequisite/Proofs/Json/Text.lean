import Prerequisite.Json.Text
import Prerequisite.Json.Token
import Prerequisite.Json.Value
import Prerequisite.Proofs.Utf8

/-!
# Texts written and read back

A text that is written between quotes denotes that text: the escape of each character denotes that
character, whatever stands before.
-/

namespace Prerequisite

/-! ### Escapes -/

namespace Json

/-- Some characters inside quotes stand for a character. -/
inductive StandsFor (c : Char) : List Char → Prop where
  /-- A letter after a backslash. -/
  | short {letter : Char} :
      letter ∈ ['"', '\\', '/', 'b', 'f', 'n', 'r', 't'] → shortEscape? letter = some c →
      StandsFor c ['\\', letter]
  /-- The number of a control character. -/
  | hexadecimal {high low : Char} :
      Token.isHexDigit high → Token.isHexDigit low →
      hexNumber? ['0', '0', high, low] = some c.toNat → c.toNat < 0x20 →
      StandsFor c ['\\', 'u', '0', '0', high, low]
  /-- The character itself. -/
  | plain : c ≠ '"' → c ≠ '\\' → 0x20 ≤ c.toNat → StandsFor c [c]

theorem isHexDigit_hexDigit {n : ℕ} (h : n < 16) :
  Token.isHexDigit (hexDigit n)
  := by
  have hall : ∀ n < 16, Token.isHexDigit (hexDigit n) := by decide
  apply hall n h

theorem hexValue?_hexDigit {n : ℕ} (h : n < 16) :
  hexValue? (hexDigit n) = some n
  := by
  have hall : ∀ n < 16, hexValue? (hexDigit n) = some n := by decide
  apply hall n h

theorem standsFor_escaped (c : Char) :
  StandsFor c (escaped c)
  := by
  unfold escaped
  split_ifs with hquote hbackslash hnewline hreturn htab hbackspace hfeed hcontrol
  · exact .short (by simp) (by rw [hquote]; rfl)
  · exact .short (by simp) (by rw [hbackslash]; rfl)
  · exact .short (by simp) (by rw [hnewline]; rfl)
  · exact .short (by simp) (by rw [hreturn]; rfl)
  · exact .short (by simp) (by rw [htab]; rfl)
  · exact .short (by simp) (by rw [hbackspace]; rfl)
  · exact .short (by simp) (by rw [hfeed]; rfl)
  · have hhigh : c.toNat / 16 < 16 := by omega
    have hlow : c.toNat % 16 < 16 := by omega
    have hnumber : c.toNat / 16 * 16 + c.toNat % 16 = c.toNat := by omega
    apply StandsFor.hexadecimal (isHexDigit_hexDigit hhigh) (isHexDigit_hexDigit hlow) _ hcontrol
    have hzero : hexValue? '0' = some 0 := rfl
    simp [hexNumber?, hzero, hexValue?_hexDigit hhigh, hexValue?_hexDigit hlow, hnumber]
  · exact .plain hquote hbackslash (by omega)

/-- What stands for a character is read as that character, whatever has been read before. -/
theorem StandsFor.unescape? {c : Char} {spelling : List Char} (h : StandsFor c spelling)
    (reversed rest : List Char) :
  Json.unescape? ⟨reversed, none⟩ (spelling ++ rest) = Json.unescape? ⟨c :: reversed, none⟩ rest
  := by
  cases h with
  | @short letter hletter hescape =>
    have hu : letter ≠ 'u' := by
      rintro rfl
      contradiction
    simp [Json.unescape?, hu, hescape, Unescaped.push]
  | @hexadecimal high low hhigh hlow hnumber hcontrol =>
    have hleading : isLeading c.toNat = false := by
      simp [isLeading]
      omega
    have htrailing : isTrailing c.toNat = false := by
      simp [isTrailing]
      omega
    simp [Json.unescape?, hnumber, Unescaped.pushUnit, hleading, htrailing, Unescaped.push]
  | plain hquote hbackslash hcode =>
    simp [Json.unescape?, hbackslash, Unescaped.push]

/-- The bytes between the quotes of a text that is written. -/
def content (s : String) : List UInt8 := Utf8.encode (s.toList.flatMap escaped)

theorem unescape?_flatMap_escaped (text reversed : List Char) :
  unescape? ⟨reversed, none⟩ (text.flatMap escaped) = some (reversed.reverse ++ text)
  := by
  induction text generalizing reversed with
  | nil => simp [unescape?]
  | cons c rest ih =>
    rw [List.flatMap_cons, (standsFor_escaped c).unescape?, ih]
    simp

/-- The bytes between the quotes of a text denote the text. -/
theorem text?_content (s : String) :
  text? (content s) = some s
  := by
  rw [text?, content, Utf8.decode_encode]
  simp [Except.toOption, unescape?_flatMap_escaped]

end Json

end Prerequisite
