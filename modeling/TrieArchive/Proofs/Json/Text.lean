import TrieArchive.Json.Value
import TrieArchive.Json.Text
import TrieArchive.Proofs.Element.HexText
import TrieArchive.Proofs.Element.RoundTrip
import Mathlib.Tactic.SplitIfs

/-! Strings are read back from their quoted text, whatever characters they hold. -/
namespace TrieArchive.Json.Text

/-- The bytes of a string that goes on after `front`. -/
def behind (front : Bytes) : Except Fault (Bytes × Bytes) → Except Fault (Bytes × Bytes) := Except.map (.map (front ++ ·) id)

variable {s : Bytes}

theorem content_of_letter {e b : UInt8} (letter : simpleEscape? e = some b) (unit : e ≠ 0x75) :
    content (0x5c :: e :: s) = behind [b] (content s) := by
  rw [content, letter]
  · cases content s <;> rfl
  · exact fun _ _ _ _ _ same => absurd same unit
  · exact unit

theorem content_of_unit {a b c d : UInt8} {n : Nat} (unit : codeUnit a b c d = some n) (narrow : n < 0x80) :
    content (0x5c :: 0x75 :: a :: b :: c :: d :: s) = behind (utf8 n) (content s) := by
  have trailing : isTrailing n = false := by simp only [isTrailing]; grind
  have leading : isLeading n = false := by simp only [isLeading]; grind
  rw [content, unit]
  simp only [trailing, leading]
  cases content s <;> rfl

theorem content_of_plain {b : UInt8} (quote : b ≠ 0x22) (escape : b ≠ 0x5c) (printed : ¬b < 0x20) :
    content (b :: s) = behind [b] (content s) := by
  rw [content, if_neg printed]
  · cases content s <;> rfl
  · exact quote
  all_goals intros; contradiction

theorem utf8_of_ascii {b : UInt8} (ascii : b.toNat < 0x80) : utf8 b.toNat = [b] := by
  have code : (Char.ofNat b.toNat).toNat = b.toNat := by
    rw [Char.ofNat, dif_pos (.inl (by omega))]
    rfl
  rw [utf8, Binary.ofText_char, Bytes.utf8EncodeChar_of_ascii (by omega), code, UInt8.ofNat_toNat]

/-- However a byte is written, it is read back, and what follows decides the rest. -/
theorem content_escape (b : UInt8) (s : Bytes) : content (escape b ++ s) = behind [b] (content s) := by
  rw [escape]
  split_ifs with quote escape backspace tab line page back control
  · exact content_of_letter (by rw [quote]; rfl) (by decide)
  · exact content_of_letter (by rw [escape]; rfl) (by decide)
  · exact backspace ▸ content_of_letter (e := 0x62) rfl (by decide)
  · exact tab ▸ content_of_letter (e := 0x74) rfl (by decide)
  · exact line ▸ content_of_letter (e := 0x6e) rfl (by decide)
  · exact page ▸ content_of_letter (e := 0x66) rfl (by decide)
  · exact back ▸ content_of_letter (e := 0x72) rfl (by decide)
  · obtain ⟨high, low, text, upper, lower⟩ := Bytes.ofText_hex_cons b []
    have narrow : b.toNat < 0x80 := Nat.lt_trans (UInt8.lt_iff_toNat_lt.mp control) (by decide)
    have unit : codeUnit 0x30 0x30 high low = some b.toNat := by
      have zero : Bytes.hexValue? 0x30 = some 0 := rfl
      simp only [codeUnit, zero, upper, lower, Option.bind_eq_bind, Option.bind_some, Option.pure_def]
      exact congrArg some (by omega)
    have read : content (0x5c :: 0x75 :: 0x30 :: 0x30 :: high :: low :: s) = _ := content_of_unit unit narrow
    rw [utf8_of_ascii narrow] at read
    rw [text]
    exact read
  · exact content_of_plain quote escape control

theorem content_escapes (bytes rest : Bytes) : content (bytes.flatMap escape ++ 0x22 :: rest) = .ok (bytes, rest) := by
  induction bytes with
  | nil => exact content.eq_2 rest
  | cons b later ih =>
    rw [List.flatMap_cons, List.append_assoc, content_escape, ih]
    rfl

/-- A string is read back from its text behind the opening quote. -/
theorem run_body (text : String) (rest : Bytes) :
    body.run ((Bytes.ofText text).flatMap escape ++ 0x22 :: rest) = .ok (text, rest) := by
  simp only [StateT.run, body, content_escapes, bind, Except.bind]
  rw [Binary.text?_ofText]
  rfl

end TrieArchive.Json.Text
