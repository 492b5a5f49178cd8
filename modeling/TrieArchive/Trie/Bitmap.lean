import TrieArchive.Bytes
/-! Slots of a branch: five bits of a hash select one of 32 slots, and a 32-bit word has one bit a
slot. Entries are kept in slot order, so a slot's position is the number of lower bits set. -/
namespace TrieArchive

def bitsPerLevel : Nat := 5

/-- The shift of the last level of branches, which has four hash bits left. -/
def maxShift : Nat := 60

/-- The five bits of the hash from `shift` on; bits beyond the hash are zero. A shift counts modulo the
width of the hash. -/
def fragment (hash : UInt64) (shift : Nat) : Nat := (hash.toNat >>> (shift % 64)) % 32

namespace Bitmap

/-- The single bit of a slot. A slot counts modulo the width of the word. -/
def mask (slot : Nat) : UInt32 := UInt32.ofNat (2 ^ (slot % 32))

def has (m : UInt32) (slot : Nat) : Bool := m.toNat.testBit slot

def count (m : UInt32) : Nat := (List.range 32).countP (has m)

/-- The number of bits of `m` below the single bit `bit`. -/
def index (m bit : UInt32) : Nat := count (m &&& (bit - 1))

/-- The number of slots below `slot` in use. -/
def rank (m : UInt32) (slot : Nat) : Nat := (List.range slot).countP (has m)

def insert (m : UInt32) (slot : Nat) : UInt32 := m ||| mask slot

def erase (m : UInt32) (slot : Nat) : UInt32 := m &&& ~~~(mask slot)

/-- The slots in use, lowest first. -/
def slots (m : UInt32) : List Nat := (List.range 32).filter (has m)

theorem fragment_lt (hash : UInt64) (shift : Nat) : fragment hash shift < 32 :=
  Nat.mod_lt _ (by decide)

theorem length_slots (m : UInt32) : (slots m).length = count m := by
  simp [slots, count, List.countP_eq_length_filter]

theorem toNat_mask {slot : Nat} (h : slot < 32) : (mask slot).toNat = 2 ^ slot := by
  have : 2 ^ slot < 2 ^ 32 := Nat.pow_lt_pow_right (by decide) h
  simpa [mask, Nat.mod_eq_of_lt h] using this

theorem has_and (a b : UInt32) (slot : Nat) : has (a &&& b) slot = (has a slot && has b slot) := by
  simp [has]

/-- Counting below a single bit counts below its slot. -/
theorem index_mask (m : UInt32) {slot : Nat} (h : slot < 32) : index m (mask slot) = rank m slot := by
  have bits (i : Nat) : has (mask slot - 1) i = decide (i < slot) := by
    have one : (1 : UInt32) ≤ mask slot := by
      rw [UInt32.le_iff_toNat_le, toNat_mask h]; exact Nat.one_le_two_pow
    rw [has, UInt32.toNat_sub_of_le _ _ one, toNat_mask h]
    exact Nat.testBit_two_pow_sub_one slot i
  have split : List.range 32 = List.range slot ++ (List.range (32 - slot)).map (slot + ·) := by
    rw [← List.range_add]; congr 1; omega
  simp only [index, count, rank, split, List.countP_append]
  have low : (List.range slot).countP (has (m &&& (mask slot - 1))) = (List.range slot).countP (has m) := by
    apply List.countP_congr
    intro i hi
    simp [has_and, bits, List.mem_range.1 hi]
  have high : ((List.range (32 - slot)).map (slot + ·)).countP (has (m &&& (mask slot - 1))) = 0 := by
    rw [List.countP_eq_zero]
    intro i hi
    obtain ⟨j, -, rfl⟩ := List.mem_map.1 hi
    simp [has_and, bits]
  omega

end Bitmap

end TrieArchive
