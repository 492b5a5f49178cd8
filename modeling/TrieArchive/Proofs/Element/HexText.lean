import Mathlib.Tactic.Common
import TrieArchive.Id

/-! Bytes are read back from their hexadecimal text, and so are ids. -/
namespace TrieArchive

namespace Bytes

theorem ofText_append (s t : String) : ofText (s ++ t) = ofText s ++ ofText t := by
  simp [ofText]

theorem ofText_ofList (cs : List Char) : ofText (String.ofList cs) = cs.flatMap String.utf8EncodeChar := by
  simp [ofText, List.utf8Encode]

theorem utf8EncodeChar_of_ascii {c : Char} (ascii : c.toNat < 128) :
    String.utf8EncodeChar c = [UInt8.ofNat c.toNat] := by
  have narrow : c.val.toNat ≤ 127 := Nat.le_of_lt_succ ascii
  rw [String.utf8EncodeChar, if_pos narrow]
  rfl

/-- A digit is one byte, which has its value. -/
theorem utf8EncodeChar_hexDigit {n : Nat} (h : n < 16) :
    ∃ b, String.utf8EncodeChar (hexDigit n) = [b] ∧ hexValue? b = some n := by
  have ascii : ∀ n < 16, (hexDigit n).toNat < 128 ∧ hexValue? (UInt8.ofNat (hexDigit n).toNat) = some n := by
    decide
  exact ⟨_, utf8EncodeChar_of_ascii (ascii n h).1, (ascii n h).2⟩

/-- Each byte is written by two digits, high half first. -/
theorem ofText_hex_cons (b : UInt8) (rest : Bytes) : ∃ high low,
    ofText (hex (b :: rest)) = high :: low :: ofText (hex rest) ∧
      hexValue? high = some (b.toNat / 16) ∧ hexValue? low = some (b.toNat % 16) := by
  obtain ⟨high, first, upper⟩ := utf8EncodeChar_hexDigit (show b.toNat / 16 < 16 by have := b.toNat_lt; omega)
  obtain ⟨low, second, lower⟩ := utf8EncodeChar_hexDigit (show b.toNat % 16 < 16 by omega)
  refine ⟨high, low, ?_, upper, lower⟩
  rw [hex, ofText_ofList, hex, ofText_ofList]
  simp only [List.flatMap_cons, List.cons_append, List.nil_append, first, second]

theorem length_ofText_hex (s : Bytes) : (ofText (hex s)).length = 2 * s.length := by
  induction s with
  | nil => rfl
  | cons b rest ih =>
    obtain ⟨_, _, text, -⟩ := ofText_hex_cons b rest
    rw [text, List.length_cons, List.length_cons, List.length_cons, ih]
    omega

end Bytes

namespace Id

theorem digits_ofText_hex (s : Bytes) (position : Nat) : digits position (Bytes.ofText (Bytes.hex s)) = .ok s := by
  induction s generalizing position with
  | nil => rfl
  | cons b rest ih =>
    obtain ⟨high, low, text, upper, lower⟩ := Bytes.ofText_hex_cons b rest
    have whole : 16 * (b.toNat / 16) + b.toNat % 16 = b.toNat := Nat.div_add_mod b.toNat 16
    rw [text, digits, upper, lower]
    simp only [ih, whole, UInt8.ofNat_toNat]
    rfl

theorem length_ofText_hex (id : Id) : (Bytes.ofText id.hex).length = 64 := by
  rw [hex, Bytes.length_ofText_hex, id.length_bytes]

theorem parse_hex (id : Id) : parse id.hex = .ok id := by
  rw [parse, parseBytes, length_ofText_hex, if_neg (by decide), if_pos rfl, hex, digits_ofText_hex]
  exact dif_pos id.length_bytes

end Id

end TrieArchive
