import TrieArchive.Proofs.Trie.Slots
import TrieArchive.Proofs.Trie.Position

/-! The steps of an operation that have no meaning outside a range: shifts, positions in a list, slots of a bitmap and
counting down. Written out, each of them answers a violation there. -/
namespace TrieArchive

inductive Violation where
  | shiftTooWide (amount : Nat)
  | positionOutside (position length : Nat)
  | slotTaken
  | belowZero
  /-- A key that was just found is not met where it is to be dropped. -/
  | keyLost
  /-- A collision node is asked to keep a value of another hash. -/
  | foreignHash
  deriving DecidableEq, Repr

abbrev Checked := Except Violation

namespace Checked

variable {α : Type}

@[simp] theorem ok_bind {β : Type} (a : α) (f : α → Checked β) : (Except.ok a : Checked α) >>= f = f a := rfl

def fragment (hash : UInt64) (shift : Nat) : Checked Nat :=
  if shift < 64 then return TrieArchive.fragment hash shift else throw (.shiftTooWide shift)

def mask (slot : Nat) : Checked UInt32 :=
  if slot < 32 then return Bitmap.mask slot else throw (.shiftTooWide slot)

/-- The single bit of the slot that a branch at `depth` has for a hash. -/
def slotBit (hash : UInt64) (depth : Nat) : Checked UInt32 := do mask (← fragment hash (shiftAt depth))

/-- The position of a slot, given by its bit. -/
def index (m bit : UInt32) : Checked Nat :=
  if bit = 0 then throw .belowZero else return Bitmap.index m bit

/-- A bitmap with one slot more, which the other bitmap of the branch must not have. -/
def occupy (own other bit : UInt32) : Checked UInt32 :=
  if other &&& bit = 0 then return own ||| bit else throw .slotTaken

def get (entries : List α) (position : Nat) : Checked α :=
  match entries[position]? with
  | some a => return a
  | none => throw (.positionOutside position entries.length)

def set (entries : List α) (position : Nat) (a : α) : Checked (List α) :=
  if position < entries.length then return entries.set position a
  else throw (.positionOutside position entries.length)

def insertIdx (entries : List α) (position : Nat) (a : α) : Checked (List α) :=
  if position ≤ entries.length then return entries.insertIdx position a
  else throw (.positionOutside position entries.length)

def eraseIdx (entries : List α) (position : Nat) : Checked (List α) :=
  if position < entries.length then return entries.eraseIdx position
  else throw (.positionOutside position entries.length)

def decrement : Nat → Checked Nat
  | 0 => throw .belowZero
  | n + 1 => return n

/-- A difference of two sizes. -/
def difference (more less : Nat) : Checked Nat := if less ≤ more then return more - less else throw .belowZero

/-- The entries from a position on. -/
def suffix (entries : List α) (start : Nat) : Checked (List α) :=
  if start ≤ entries.length then return entries.drop start else throw (.positionOutside start entries.length)

/-- A word moved up. Bits that it is too narrow for are lost. -/
def shiftLeft (n : UInt64) (amount : Nat) : Checked UInt64 :=
  if amount < 64 then return n <<< UInt64.ofNat amount else throw (.shiftTooWide amount)

/-- The bits of a hash that are used up above a shift; above the width of the hash these are all. -/
def lowBits (shift : Nat) : Checked UInt64 :=
  if 64 ≤ shift then return UInt64.ofNat (2 ^ 64 - 1)
  else do
    let bit ← shiftLeft 1 shift
    if bit = 0 then throw .belowZero else return bit - 1

theorem decrement_eq {n : Nat} (more : 0 < n) : decrement n = .ok (n - 1) := by
  cases n with
  | zero => contradiction
  | succ n => rfl

section Slots

variable {entries : List α} {m other : UInt32} {slot : Nat}

theorem shiftAt_le_maxShift {depth : Nat} (level : depth < branchLevels) : shiftAt depth ≤ maxShift := by
  simp only [maxShift, shiftAt, bitsPerLevel, branchLevels] at level ⊢
  omega

/-- Above the last level, a shift is narrower than a hash. -/
theorem shiftAt_lt {depth : Nat} (level : depth < branchLevels) : shiftAt depth < 64 :=
  Nat.lt_of_le_of_lt (shiftAt_le_maxShift level) (by decide)

theorem fragment_eq {depth : Nat} (level : depth < branchLevels) (hash : UInt64) :
    fragment hash (shiftAt depth) = .ok (slotAt hash depth) := if_pos (shiftAt_lt level)

theorem mask_eq (h : slot < 32) : mask slot = .ok (Bitmap.mask slot) := if_pos h

theorem slotBit_eq {depth : Nat} (level : depth < branchLevels) (hash : UInt64) :
    slotBit hash depth = .ok (Bitmap.mask (slotAt hash depth)) := by
  rw [slotBit, fragment_eq level, ok_bind, mask_eq (slotAt_lt hash depth)]

theorem mask_ne_zero (h : slot < 32) : Bitmap.mask slot ≠ 0 := fun zero => by
  have bit := Bitmap.has_mask h slot
  rw [zero, Bitmap.has_zero] at bit
  simp at bit

theorem index_eq (h : slot < 32) (m : UInt32) : index m (Bitmap.mask slot) = .ok (Bitmap.rank m slot) := by
  rw [index, if_neg (mask_ne_zero h), Bitmap.index_mask m h]
  rfl

/-- Taking a slot moves nothing in front of it. -/
theorem index_insert (h : slot < 32) (free : Bitmap.has m slot = false) :
    index (Bitmap.insert m slot) (Bitmap.mask slot) = .ok (Bitmap.rank m slot) := by
  rw [index_eq h, Bitmap.rank_insert h free, if_neg (Nat.lt_irrefl _), Nat.add_zero]

theorem has_erase_self (h : slot < 32) (m : UInt32) : Bitmap.has (Bitmap.erase m slot) slot = false := by
  simp [Bitmap.has_erase h]

/-- A word shares a bit with that of a slot just when it has the slot. -/
theorem and_mask_eq_zero_iff (h : slot < 32) : m &&& Bitmap.mask slot = 0 ↔ Bitmap.has m slot = false := by
  constructor
  · intro none
    have bit := Bitmap.has_and m (Bitmap.mask slot) slot
    rw [none, Bitmap.has_zero, Bitmap.has_mask h] at bit
    simpa using bit.symm
  · intro free
    refine Bitmap.ext_has fun i => ?_
    rw [Bitmap.has_and, Bitmap.has_mask h, Bitmap.has_zero]
    by_cases same : i = slot
    · rw [same, free]
      rfl
    · simp [same]

theorem meets_mask (h : slot < 32) (used : Bitmap.has m slot) : m &&& Bitmap.mask slot ≠ 0 := fun none =>
  Bool.eq_false_iff.mp ((and_mask_eq_zero_iff h).mp none) used

theorem misses_mask (h : slot < 32) (free : Bitmap.has m slot = false) : ¬m &&& Bitmap.mask slot ≠ 0 :=
  not_not.mpr ((and_mask_eq_zero_iff h).mpr free)

theorem occupy_eq (h : slot < 32) (free : Bitmap.has other slot = false) :
    occupy m other (Bitmap.mask slot) = .ok (Bitmap.insert m slot) :=
  if_pos ((and_mask_eq_zero_iff h).mpr free)

theorem get_eq {position : Nat} {a : α} (found : entries[position]? = some a) : get entries position = .ok a := by
  rw [get, found]
  rfl

/-- Whatever a slot in use keeps stands at the position of the slot. -/
theorem get_rank {a : α} (found : Bitmap.kept? m entries slot = some a) : get entries (Bitmap.rank m slot) = .ok a :=
  get_eq ((Bitmap.kept?_eq_getElem? (Bitmap.used_of_kept? found)).symm.trans found)

variable (full : entries.length = Bitmap.count m)
include full

theorem set_rank (used : Bitmap.has m slot) (a : α) :
    set entries (Bitmap.rank m slot) a = .ok (entries.set (Bitmap.rank m slot) a) :=
  if_pos (full ▸ Bitmap.rank_lt_count used)

theorem eraseIdx_rank (used : Bitmap.has m slot) :
    eraseIdx entries (Bitmap.rank m slot) = .ok (entries.eraseIdx (Bitmap.rank m slot)) :=
  if_pos (full ▸ Bitmap.rank_lt_count used)

theorem insertIdx_rank (h : slot < 32) (a : α) :
    insertIdx entries (Bitmap.rank m slot) a = .ok (entries.insertIdx (Bitmap.rank m slot) a) :=
  if_pos (full ▸ Bitmap.rank_le_count m (Nat.le_of_lt h))

end Slots

section Words

theorem toNat_shiftLeft {n : UInt64} {amount : Nat} (narrow : amount < 64) :
    ∃ m, shiftLeft n amount = .ok m ∧ m.toNat = n.toNat * 2 ^ amount % 2 ^ 64 := by
  refine ⟨_, if_pos narrow, ?_⟩
  have whole : (UInt64.ofNat amount).toNat % 64 = amount := by
    rw [UInt64.toNat_ofNat_of_lt' (by rw [UInt64.size]; omega), Nat.mod_eq_of_lt narrow]
  rw [UInt64.toNat_shiftLeft, whole, Nat.shiftLeft_eq]

/-- Masking with the low bits keeps what is used up above the depth. -/
theorem lowBits_eq {depth : Nat} (level : depth < branchLevels) :
    ∃ low, lowBits (shiftAt depth) = .ok low ∧ ∀ hash : UInt64, (hash &&& low).toNat = pathOf hash depth := by
  have narrow := shiftAt_lt level
  obtain ⟨bit, shifted, value⟩ := toNat_shiftLeft (n := 1) narrow
  have power : 2 ^ shiftAt depth < 2 ^ 64 := Nat.pow_lt_pow_right (by decide) narrow
  have bit_toNat : bit.toNat = 2 ^ shiftAt depth := by
    rw [value]
    simpa using Nat.mod_eq_of_lt power
  have some : bit ≠ 0 := fun zero => by
    rw [zero] at bit_toNat
    exact absurd bit_toNat (Nat.ne_of_lt (Nat.two_pow_pos _))
  refine ⟨bit - 1, ?_, fun hash => ?_⟩
  · rw [lowBits, if_neg (by omega), shifted, ok_bind, if_neg some]
    rfl
  · have one : (1 : UInt64) ≤ bit := by
      rw [UInt64.le_iff_toNat_le, bit_toNat]
      exact Nat.one_le_two_pow
    rw [UInt64.toNat_and, UInt64.toNat_sub_of_le _ _ one, bit_toNat]
    exact Nat.and_two_pow_sub_one_eq_mod _ _

/-- A longer path fits a word just when its slot keeps all its bits when it is moved up. -/
theorem slot_lt_iff {shift slot path : Nat} (narrow : shift < 64) (bounded : path < 2 ^ shift) :
    slot < 2 ^ (64 - shift) ↔ path + slot * 2 ^ shift < 2 ^ 64 := by
  have whole : 2 ^ 64 = 2 ^ (64 - shift) * 2 ^ shift := (Nat.pow_sub_mul_pow 2 (Nat.le_of_lt narrow)).symm
  rw [whole]
  constructor
  · intro less
    have next := Nat.mul_le_mul_right (2 ^ shift) (Nat.succ_le_of_lt less)
    rw [Nat.succ_mul] at next
    omega
  · intro less
    exact Nat.lt_of_mul_lt_mul_right (Nat.lt_of_le_of_lt (Nat.le_add_left _ _) less)

/-- Adding a slot to a path in a word. The slot is read back from it just when the path fits the word. -/
theorem deeper_eq {depth slot : Nat} {path : UInt64} (level : depth < branchLevels)
    (bounded : path.toNat < 2 ^ shiftAt depth) (h : slot < 32) :
    ∃ above, shiftLeft (UInt64.ofNat slot) (shiftAt depth) = .ok above ∧
      (slotAt (path ||| above) depth = slot ↔ path.toNat + slot * 2 ^ shiftAt depth < 2 ^ 64) ∧
      (path.toNat + slot * 2 ^ shiftAt depth < 2 ^ 64 →
        (path ||| above).toNat = path.toNat + slot * 2 ^ shiftAt depth) := by
  have narrow := shiftAt_lt level
  obtain ⟨above, shifted, value⟩ := toNat_shiftLeft (n := UInt64.ofNat slot) narrow
  have word : (UInt64.ofNat slot).toNat = slot := UInt64.toNat_ofNat_of_lt' (by rw [UInt64.size]; omega)
  have whole : 2 ^ 64 = 2 ^ (64 - shiftAt depth) * 2 ^ shiftAt depth :=
    (Nat.pow_sub_mul_pow 2 (Nat.le_of_lt narrow)).symm
  -- what is left of the slot when it is moved up
  set left := slot % 2 ^ (64 - shiftAt depth)
  have small : left ≤ slot := Nat.mod_le _ _
  have joined : (path ||| above).toNat = path.toNat + left * 2 ^ shiftAt depth := by
    rw [UInt64.toNat_or, value, word, whole, Nat.mul_mod_mul_right, Nat.or_comm, Nat.add_comm, Nat.mul_comm]
    exact (Nat.two_pow_add_eq_or_of_lt bounded _).symm
  have read : slotAt (path ||| above) depth = left := by
    rw [slotAt_eq level, joined, Nat.add_mul_div_right _ _ (Nat.two_pow_pos _), Nat.div_eq_of_lt bounded, Nat.zero_add,
      Nat.mod_eq_of_lt (Nat.lt_of_le_of_lt small h)]
  have fits : slot < 2 ^ (64 - shiftAt depth) ↔ path.toNat + slot * 2 ^ shiftAt depth < 2 ^ 64 :=
    slot_lt_iff narrow bounded
  refine ⟨above, shifted, ?_, fun less => ?_⟩
  · rw [read, ← fits]
    constructor
    · intro same
      rw [← same]
      exact Nat.mod_lt _ (Nat.two_pow_pos _)
    · exact Nat.mod_eq_of_lt
  · rw [joined, show left = slot from Nat.mod_eq_of_lt (fits.mpr less)]

end Words

end Checked

end TrieArchive
