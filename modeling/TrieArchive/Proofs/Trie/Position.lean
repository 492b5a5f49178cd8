import Mathlib.Tactic.Common
import TrieArchive.Trie.Node

/-! Positions in a trie: a depth and the hash bits used up on the way to it. -/
namespace TrieArchive

/-- The low bits of a hash that are used up above a depth. -/
def pathOf (hash : UInt64) (depth : Nat) : Nat := hash.toNat % 2 ^ shiftAt depth

theorem slotAt_lt (hash : UInt64) (depth : Nat) : slotAt hash depth < 32 := Bitmap.fragment_lt ..

theorem slotAt_eq {depth : Nat} (level : depth < branchLevels) (hash : UInt64) :
    slotAt hash depth = hash.toNat / 2 ^ shiftAt depth % 32 := by
  have unwrapped : shiftAt depth % 64 = shiftAt depth := by
    apply Nat.mod_eq_of_lt
    simp only [shiftAt, bitsPerLevel, branchLevels] at level ⊢
    omega
  rw [slotAt, fragment, unwrapped, Nat.shiftRight_eq_div_pow]

theorem shiftAt_succ (depth : Nat) : 2 ^ shiftAt (depth + 1) = 2 ^ shiftAt depth * 32 := by
  rw [shiftAt, Nat.mul_succ, Nat.pow_add]
  rfl

@[simp] theorem pathOf_zero (hash : UInt64) : pathOf hash 0 = 0 := by simp [pathOf, shiftAt, Nat.mod_one]

theorem pathOf_lt (hash : UInt64) (depth : Nat) : pathOf hash depth < 2 ^ shiftAt depth :=
  Nat.mod_lt _ (Nat.two_pow_pos _)

/-- Below the last level of branches the whole hash is used up. -/
theorem pathOf_branchLevels (hash : UInt64) : pathOf hash branchLevels = hash.toNat :=
  Nat.mod_eq_of_lt (Nat.lt_trans hash.toNat_lt (by decide))

/-- One level down, the path is longer by the slot taken. -/
theorem pathOf_succ {depth : Nat} (level : depth < branchLevels) (hash : UInt64) :
    pathOf hash (depth + 1) = pathOf hash depth + slotAt hash depth * 2 ^ shiftAt depth := by
  rw [pathOf, shiftAt_succ, Nat.mod_mul, slotAt_eq level, pathOf, Nat.mul_comm]

/-- A longer path fixes a shorter one. -/
theorem pathOf_mod {depth below : Nat} (h : depth ≤ below) (hash : UInt64) :
    pathOf hash below % 2 ^ shiftAt depth = pathOf hash depth :=
  Nat.mod_mod_of_dvd _ (Nat.pow_dvd_pow 2 (Nat.mul_le_mul_left bitsPerLevel h))

theorem pathOf_eq_of_le {a b : UInt64} {depth below : Nat} (h : depth ≤ below)
    (same : pathOf a below = pathOf b below) : pathOf a depth = pathOf b depth := by
  rw [← pathOf_mod h, same, pathOf_mod h]

/-- A path made of a shorter one and a slot gives both back. -/
theorem path_injective {depth path path' slot slot' : Nat} (bounded : path < 2 ^ shiftAt depth)
    (bounded' : path' < 2 ^ shiftAt depth)
    (same : path + slot * 2 ^ shiftAt depth = path' + slot' * 2 ^ shiftAt depth) :
    path = path' ∧ slot = slot' := by
  have pos := Nat.two_pow_pos (shiftAt depth)
  have low := congrArg (· % 2 ^ shiftAt depth) same
  have high := congrArg (· / 2 ^ shiftAt depth) same
  simp only [Nat.add_mul_mod_self_right, Nat.mod_eq_of_lt bounded, Nat.mod_eq_of_lt bounded'] at low
  simp only [Nat.add_mul_div_right _ _ pos, Nat.div_eq_of_lt bounded, Nat.div_eq_of_lt bounded',
    Nat.zero_add] at high
  exact ⟨low, high⟩

/-- A path one level down is bounded by its own level. -/
theorem path_lt {depth path slot : Nat} (bounded : path < 2 ^ shiftAt depth) (h : slot < 32) :
    path + slot * 2 ^ shiftAt depth < 2 ^ shiftAt (depth + 1) := by
  rw [shiftAt_succ]
  have := Nat.mul_le_mul_right (2 ^ shiftAt depth) (Nat.le_of_lt_succ h)
  omega

/-- Hashes on the same path took the same slots on the way. -/
theorem slotAt_eq_of_pathOf {a b : UInt64} {depth below : Nat} (level : depth < branchLevels)
    (h : depth < below) (same : pathOf a below = pathOf b below) : slotAt a depth = slotAt b depth := by
  have here := pathOf_eq_of_le (Nat.succ_le_of_lt h) same
  rw [pathOf_succ level, pathOf_succ level] at here
  exact (path_injective (pathOf_lt ..) (pathOf_lt ..) here).2

/-- Whether a hash lies on a path one level down is told by its path and its slot here. -/
theorem pathOf_succ_eq_iff {depth path slot : Nat} (level : depth < branchLevels)
    (bounded : path < 2 ^ shiftAt depth) (hash : UInt64) :
    pathOf hash (depth + 1) = path + slot * 2 ^ shiftAt depth ↔
      pathOf hash depth = path ∧ slotAt hash depth = slot := by
  rw [pathOf_succ level]
  constructor
  · exact path_injective (pathOf_lt ..) bounded
  · rintro ⟨rfl, rfl⟩
    rfl

end TrieArchive
