import TrieArchive.Proofs.Trie.Canonical

/-! Node graphs of any shape, of which it is only known that the bitmaps of a branch go with what it keeps. Well-formed
nodes are among them. -/
namespace TrieArchive.Node

variable {α κ : Type}

/-- The bitmaps of each branch are disjoint and tell what it keeps, and no branch is below the last level. Values may be in
any slots, collisions may have any hash, and children may hold any number of values. -/
inductive Fitted : (depth : Nat) → Node α → Prop where
  | branch {depth : Nat} {datamap nodemap : UInt32} {values : List α} {children : List (Node α)}
      (level : depth < branchLevels) (disjoint : datamap &&& nodemap = 0)
      (filled : values.length = Bitmap.count datamap) (linked : children.length = Bitmap.count nodemap)
      (below : ∀ child ∈ children, Fitted (depth + 1) child) :
      Fitted depth (.branch datamap nodemap values children)
  | collision {depth : Nat} {hash : UInt64} {values : List α} : Fitted depth (.collision hash values)

theorem Canonical.fitted [BEq κ] {L : Layout α κ} {depth path : Nat} {node : Node α}
    (canonical : Canonical L depth path node) : node.Fitted depth := by
  induction canonical with
  | collision => exact .collision
  | branch level _ disjoint filled linked _ _ _ _ ih =>
    refine .branch level disjoint filled linked fun child member => ?_
    obtain ⟨slot, kept⟩ := (Bitmap.mem_iff_kept? linked).mp member
    exact ih slot child kept

/-- A node that offers its only value has no other. -/
theorem Fitted.toList_of_singleton? {depth : Nat} {node : Node α} (fitted : node.Fitted depth) {v : α}
    (only : node.singleton? = some v) : node.toList = [v] := by
  cases fitted with
  | @collision _ _ values =>
    rcases values with _ | ⟨first, _ | ⟨second, rest⟩⟩ <;> cases only
    rw [toList_collision]
  | @branch _ _ nodemap values children _ _ _ linked =>
    rcases values with _ | ⟨first, _ | ⟨second, rest⟩⟩
    · cases only
    · simp only [singleton?, Option.ite_none_right_eq_some, Option.some.injEq] at only
      obtain ⟨rfl, rfl⟩ := only
      obtain rfl : children = [] := List.eq_nil_of_length_eq_zero linked
      rw [toList_branch]
      rfl
    · cases only

end TrieArchive.Node
