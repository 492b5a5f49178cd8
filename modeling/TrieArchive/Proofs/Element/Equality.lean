import TrieArchive.Element.ChosenHash
import TrieArchive.Element.Tag

/-! Keys of which equal ones have equal hashes. -/
namespace TrieArchive

instance {α : Type} [BEq α] [LawfulBEq α] [StableHash α] : LawfulStableHash α where
  hash_eq a b same := by rw [eq_of_beq same]

/-- Pairs are compared part by part. -/
instance equivBEqProd {α β : Type} [BEq α] [BEq β] [EquivBEq α] [EquivBEq β] : EquivBEq (α × β) where
  symm same := by
    obtain ⟨first, second⟩ := Bool.and_eq_true_iff.mp same
    exact Bool.and_eq_true_iff.mpr ⟨BEq.symm first, BEq.symm second⟩
  trans one two := by
    obtain ⟨first, second⟩ := Bool.and_eq_true_iff.mp one
    obtain ⟨first', second'⟩ := Bool.and_eq_true_iff.mp two
    exact Bool.and_eq_true_iff.mpr ⟨BEq.trans first first', BEq.trans second second'⟩

namespace Tag

theorem beq_iff (a b : Tag) : a == b ↔ a.id = b.id := beq_iff_eq (a := a.id)

instance : EquivBEq Tag where
  rfl := (beq_iff _ _).mpr rfl
  symm same := (beq_iff _ _).mpr ((beq_iff _ _).mp same).symm
  trans first second := (beq_iff _ _).mpr (((beq_iff _ _).mp first).trans ((beq_iff _ _).mp second))

/-- Only the number of a note is hashed. -/
instance : LawfulStableHash Tag where
  hash_eq a b same := by
    have bytes : HashInput.bytes a = HashInput.bytes b :=
      congrArg (fun id : UInt32 => HashInput.bytes id) ((beq_iff a b).mp same)
    exact congrArg Sip.hash bytes

end Tag

end TrieArchive
