/-! Byte strings, the numbers written in them low byte first, and their hexadecimal text. -/
namespace TrieArchive

/-- The power of naturals is core's, also where algebra offers a second one: a bound such as `2 ^ n` is then
one expression in the definitions and in everything proved about them. -/
@[default_instance high]
instance (priority := high) natPow : Pow Nat Nat := ⟨Nat.pow⟩

abbrev Bytes := List UInt8

namespace Bytes

/-- The low `width` bytes of `n`, low byte first. -/
def word : (width : Nat) → Nat → Bytes
  | 0, _ => []
  | width + 1, n => UInt8.ofNat n :: word width (n / 256)

/-- The number written by these bytes, low byte first. -/
def value : Bytes → Nat
  | [] => 0
  | b :: rest => b.toNat + 256 * value rest

@[simp] theorem length_word (width n : Nat) : (word width n).length = width := by
  induction width generalizing n with
  | zero => rfl
  | succ width ih => simp [word, ih]

/-- Reading back what was written loses only the bits above the width. -/
theorem value_word (width n : Nat) : value (word width n) = n % 256 ^ width := by
  induction width generalizing n with
  | zero => simp [word, value, Nat.mod_one]
  | succ width ih =>
    rw [word, value, ih, Nat.pow_succ, Nat.mul_comm (256 ^ width), Nat.mod_mul]
    simp

def ofText (s : String) : Bytes := s.toUTF8.data.toList

/-- The text these bytes encode, when they are well-formed UTF-8. -/
def text? (s : Bytes) : Option String := String.fromUTF8? ⟨s.toArray⟩

/-- Cuts the bytes into pieces of `size`, the last one shorter. The bytes themselves bound the
number of pieces. -/
def pieces (size : Nat) (s : Bytes) : List Bytes :=
  go s s
where
  go : Bytes → Bytes → List Bytes
    | _ :: fuel, b :: rest => (b :: rest).take size :: go fuel ((b :: rest).drop size)
    | _, _ => []

/-- Splits off exactly `n` bytes. -/
def split? (n : Nat) (s : Bytes) : Option (Bytes × Bytes) :=
  let taken := s.take n
  if taken.length = n then some (taken, s.drop n) else none

theorem split?_append {a : Bytes} {n : Nat} (h : a.length = n) (b : Bytes) :
    split? n (a ++ b) = some (a, b) := by
  simp [split?, List.take_left' h, List.drop_left' h, h]

def hexDigit (n : Nat) : Char :=
  if n < 10 then Char.ofNat ('0'.toNat + n) else Char.ofNat ('a'.toNat + (n - 10))

/-- Two lower-case digits a byte, high half first. -/
def hex (s : Bytes) : String :=
  String.ofList (s.flatMap fun b => [hexDigit (b.toNat / 16), hexDigit (b.toNat % 16)])

/-- The value of an ASCII hexadecimal digit of either case. -/
def hexValue? (b : UInt8) : Option Nat :=
  let n := b.toNat
  if 48 ≤ n ∧ n ≤ 57 then some (n - 48)
  else if 97 ≤ n ∧ n ≤ 102 then some (n - 87)
  else if 65 ≤ n ∧ n ≤ 70 then some (n - 55)
  else none

end Bytes

end TrieArchive
