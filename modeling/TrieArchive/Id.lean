import TrieArchive.Hash.Blake3
import TrieArchive.Text.Quoted

/-! Content ids: 32-byte digests, ordered bytewise, written as 64 hexadecimal digits. -/
namespace TrieArchive

structure Id where
  bytes : Bytes
  length_bytes : bytes.length = 32
  deriving DecidableEq

namespace Id

@[ext] theorem ext {a b : Id} (h : a.bytes = b.bytes) : a = b := by
  cases a; cases b; simp_all

instance : Ord Id := ⟨fun a b => compare a.bytes b.bytes⟩

theorem compare_def (a b : Id) : compare a b = compare a.bytes b.bytes := rfl

instance : Std.TransOrd Id where
  eq_swap {a b} := by simpa only [compare_def] using Std.OrientedCmp.eq_swap
  isLE_trans {a b c} := by simpa only [compare_def] using Std.TransCmp.isLE_trans

instance : Std.LawfulEqOrd Id where
  compare_self {a} := by simp
  eq_of_compare {a b} h := Id.ext (Std.LawfulEqCmp.eq_of_compare (by simpa only [compare_def] using h))

/-- The BLAKE3 digest of a byte string. -/
def blake3 (s : Bytes) : Id := ⟨Blake3.digest s, Blake3.length_digest s⟩

def hex (id : Id) : String := Bytes.hex id.bytes

/-- The first seven digits, as messages show an id. -/
def short (id : Id) : String := (id.hex.take 7).toString

def listing (id : Id) : String := "ContainerId(" ++ id.short ++ ")"

/-- Puts an id before the first that is not below it. -/
def insertSorted (id : Id) : List Id → List Id
  | [] => [id]
  | other :: rest => if (compare id other).isLE then id :: other :: rest else other :: insertSorted id rest

/-- The ids in order, repeats kept. -/
def sort (ids : List Id) : List Id := ids.foldr insertSorted []

/-- Why a text is not an id. Lengths and positions count bytes of UTF-8. -/
inductive ParseFault where
  | oddLength
  | wrongLength
  | badDigit (byte : UInt8) (position : Nat)
  deriving DecidableEq, Repr

def ParseFault.message : ParseFault → String
  | .oddLength => "Odd number of digits"
  | .wrongLength => "Invalid string length"
  | .badDigit byte position =>
    "Invalid character " ++ Text.quotedChar (Char.ofNat byte.toNat) ++ " at position " ++ toString position

/-- Reads pairs of digits from `position` on, stopping at the first byte that is no digit. -/
def digits (position : Nat) : Bytes → Except ParseFault Bytes
  | [] => .ok []
  | [a] => .error (.badDigit a position)
  | a :: b :: rest =>
    match Bytes.hexValue? a, Bytes.hexValue? b with
    | none, _ => .error (.badDigit a position)
    | _, none => .error (.badDigit b (position + 1))
    | some high, some low => do
      let tail ← digits (position + 2) rest
      return UInt8.ofNat (16 * high + low) :: tail

/-- Parity is checked before length and length before digits. -/
def parseBytes (s : Bytes) : Except ParseFault Id := do
  if s.length % 2 ≠ 0 then throw .oddLength
  let bytes ← if s.length = 64 then digits 0 s else throw .wrongLength
  if h : bytes.length = 32 then return ⟨bytes, h⟩ else throw .wrongLength

def parse (s : String) : Except ParseFault Id := parseBytes (Bytes.ofText s)

end Id

end TrieArchive
