import TrieArchive.Proofs.Trie.Slots
import TrieArchive.Proofs.Trie.Position
import TrieArchive.Proofs.Trie.Contents

/-! The one form of trie that the operations build. Values stand where their hashes lead, and what
could stand further up is never kept below. -/
namespace TrieArchive.Node

variable {α κ : Type} [BEq κ] {L : Layout α κ}

/-- Well-formed nodes at a position. In a branch every value is in the slot of its hash, and every child
holds at least two values. Below the last level of branches, values share their whole hash. -/
inductive Canonical (L : Layout α κ) : (depth path : Nat) → Node α → Prop where
  | branch {depth path : Nat} {datamap nodemap : UInt32} {values : List α} {children : List (Node α)}
      (level : depth < branchLevels) (bounded : path < 2 ^ shiftAt depth)
      (disjoint : datamap &&& nodemap = 0)
      (filled : values.length = Bitmap.count datamap)
      (linked : children.length = Bitmap.count nodemap)
      (placed : ∀ slot v, Bitmap.kept? datamap values slot = some v →
        pathOf (L.place v) depth = path ∧ slotAt (L.place v) depth = slot)
      (reached : ∀ slot child, Bitmap.kept? nodemap children slot = some child →
        path + slot * 2 ^ shiftAt depth < 2 ^ 64)
      (several : ∀ slot child, Bitmap.kept? nodemap children slot = some child → 2 ≤ child.count)
      (below : ∀ slot child, Bitmap.kept? nodemap children slot = some child →
        Canonical L (depth + 1) (path + slot * 2 ^ shiftAt depth) child) :
      Canonical L depth path (.branch datamap nodemap values children)
  | collision {depth path : Nat} {hash : UInt64} {values : List α}
      (level : depth = branchLevels) (whole : hash.toNat = path)
      (several : 2 ≤ values.length)
      (placed : ∀ v ∈ values, L.place v = hash)
      (distinct : L.Distinct values) :
      Canonical L depth path (.collision hash values)

theorem listAll_eq (nodes : List (Node α)) : listAll nodes = nodes.flatMap toList := by
  induction nodes with
  | nil => rfl
  | cons node rest ih => simp [listAll, ih]

@[simp] theorem toList_branch (datamap nodemap : UInt32) (values : List α) (children : List (Node α)) :
    (branch datamap nodemap values children).toList = values ++ children.flatMap toList := by
  rw [toList, listAll_eq]

@[simp] theorem toList_collision (hash : UInt64) (values : List α) :
    (collision hash values).toList = values := by rw [toList]

theorem exists_mem_of_count {node : Node α} (h : 0 < node.count) : ∃ v, v ∈ node.toList := by
  rw [← length_toList] at h
  exact List.exists_mem_of_length_pos h

theorem mem_toList_branch {datamap nodemap : UInt32} {values : List α} {children : List (Node α)}
    (filled : values.length = Bitmap.count datamap) (linked : children.length = Bitmap.count nodemap)
    {v : α} : v ∈ (branch datamap nodemap values children).toList ↔
      (∃ slot, Bitmap.kept? datamap values slot = some v) ∨
      ∃ slot child, Bitmap.kept? nodemap children slot = some child ∧ v ∈ child.toList := by
  rw [toList_branch, List.mem_append, Bitmap.mem_iff_kept? filled, List.mem_flatMap]
  refine or_congr Iff.rfl ?_
  constructor
  · rintro ⟨child, member, inside⟩
    obtain ⟨slot, found⟩ := (Bitmap.mem_iff_kept? linked).mp member
    exact ⟨slot, child, found, inside⟩
  · rintro ⟨slot, child, found, inside⟩
    exact ⟨child, (Bitmap.mem_iff_kept? linked).mpr ⟨slot, found⟩, inside⟩

namespace Canonical

variable {depth path : Nat} {node : Node α}

theorem bounded (canonical : Canonical L depth path node) : path < 2 ^ shiftAt depth := by
  cases canonical with
  | branch _ bounded => exact bounded
  | collision level whole => exact level ▸ whole ▸ Nat.lt_trans (UInt64.toNat_lt _) (by decide)

theorem depth_le (canonical : Canonical L depth path node) : depth ≤ branchLevels := by
  cases canonical with
  | branch level => omega
  | collision level => omega

/-- All values below a node lie on its path. -/
theorem pathOf_eq (canonical : Canonical L depth path node) {v : α} (member : v ∈ node.toList) :
    pathOf (L.place v) depth = path := by
  induction canonical with
  | branch level bounded _ filled linked placed _ _ _ ih =>
    rcases (mem_toList_branch filled linked).mp member with ⟨slot, found⟩ | ⟨slot, child, found, inside⟩
    · exact (placed slot v found).1
    · exact ((pathOf_succ_eq_iff level bounded _).mp (ih slot child found inside)).1
  | collision level whole _ placed =>
    rw [toList_collision] at member
    rw [level, pathOf_branchLevels, placed v member, whole]

section Branch

variable {datamap nodemap : UInt32} {values : List α} {children : List (Node α)}

/-- What hangs below a slot has hashes that lead to the slot. -/
theorem slotAt_eq_of_below (canonical : Canonical L depth path (.branch datamap nodemap values children))
    {slot : Nat} {child : Node α} (found : Bitmap.kept? nodemap children slot = some child) {v : α}
    (inside : v ∈ child.toList) : slotAt (L.place v) depth = slot := by
  cases canonical with
  | branch level bounded _ _ _ _ _ _ below =>
    exact ((pathOf_succ_eq_iff level bounded _).mp ((below slot child found).pathOf_eq inside)).2

/-- A branch holds a value inline in the slot of its hash or else in the child in that slot. -/
theorem mem_branch (canonical : Canonical L depth path (.branch datamap nodemap values children)) {v : α} :
    v ∈ (Node.branch datamap nodemap values children).toList ↔
      Bitmap.kept? datamap values (slotAt (L.place v) depth) = some v ∨
      ∃ child, Bitmap.kept? nodemap children (slotAt (L.place v) depth) = some child ∧ v ∈ child.toList := by
  have atSlot {slot : Nat} {child : Node α} (found : Bitmap.kept? nodemap children slot = some child)
      (inside : v ∈ child.toList) := canonical.slotAt_eq_of_below found inside
  cases canonical with
  | branch level bounded disjoint filled linked placed =>
    rw [mem_toList_branch filled linked]
    constructor
    · rintro (⟨slot, found⟩ | ⟨slot, child, found, inside⟩)
      · exact .inl ((placed slot v found).2 ▸ found)
      · exact .inr ⟨child, (atSlot found inside).symm ▸ found, inside⟩
    · rintro (found | ⟨child, found, inside⟩)
      · exact .inl ⟨_, found⟩
      · exact .inr ⟨_, child, found, inside⟩

end Branch

/-- No key is stored twice. -/
theorem distinct (canonical : Canonical L depth path node) [EquivBEq κ] (lawful : L.Lawful) :
    L.Distinct node.toList := by
  -- values in different slots of a branch have different hashes
  have apart (depth : Nat) {v w : α} (slots : slotAt (L.place v) depth ≠ slotAt (L.place w) depth) :
      (L.key v == L.key w) = false := by
    by_contra same
    exact slots (congrArg (slotAt · depth) (lawful _ _ (by simpa using same)))
  induction canonical with
  | collision _ _ _ _ distinct => simpa using distinct
  | @branch depth path datamap nodemap values children level bounded disjoint filled linked placed reached several
      below ih =>
    have canonical := Canonical.branch level bounded disjoint filled linked placed reached several below
    rw [toList_branch]
    refine List.pairwise_append.mpr ⟨?_, ?_, ?_⟩
    · refine Bitmap.pairwise_of_kept filled fun a b v w before first second => apart depth ?_
      rw [(placed a v first).2, (placed b w second).2]
      exact Nat.ne_of_lt before
    · refine List.pairwise_flatMap.mpr ⟨fun child member => ?_, ?_⟩
      · obtain ⟨slot, found⟩ := (Bitmap.mem_iff_kept? linked).mp member
        exact ih slot child found
      · refine Bitmap.pairwise_of_kept linked fun a b first second before here there v hv w hw =>
          apart depth ?_
        rw [canonical.slotAt_eq_of_below here hv, canonical.slotAt_eq_of_below there hw]
        exact Nat.ne_of_lt before
    · intro v hv w hw
      obtain ⟨slot, inline⟩ := (Bitmap.mem_iff_kept? filled).mp hv
      obtain ⟨child, member, inside⟩ := List.mem_flatMap.mp hw
      obtain ⟨other, found⟩ := (Bitmap.mem_iff_kept? linked).mp member
      refine apart depth ?_
      rw [(placed slot v inline).2, canonical.slotAt_eq_of_below found inside]
      rintro rfl
      have free := Bitmap.disjoint_iff.mp disjoint _ (Bitmap.used_of_kept? inline)
      rw [Bitmap.used_of_kept? found] at free
      contradiction

/-- A node with two values fits in one position only: where they part is fixed by their hashes, and
collisions stand on one level. -/
theorem position_unique (canonical : Canonical L depth path node) {depth' path' : Nat}
    (canonical' : Canonical L depth' path' node) (several : 2 ≤ node.count) :
    depth = depth' ∧ path = path' := by
  -- values that part at a depth share no longer path
  have higher {depth path depth' path' : Nat} {node : Node α} (canonical : Canonical L depth path node)
      (canonical' : Canonical L depth' path' node) (several : 2 ≤ node.count) : ¬ depth < depth' := by
    induction canonical generalizing depth' path' with
    | collision level =>
      have := canonical'.depth_le
      omega
    | @branch depth path datamap nodemap values children level bounded disjoint filled linked placed _ big below
        ih =>
      intro deeper
      cases canonical' with
      | branch level' bounded' disjoint' filled' linked' placed' reached' several' below' =>
        cases children with
        | nil =>
          have two : 2 ≤ values.length := by simpa [count, countAll] using several
          obtain ⟨a, _, first⟩ := (Bitmap.getElem?_eq_some_iff filled).mp
            (List.getElem?_eq_getElem (show 0 < values.length by omega))
          obtain ⟨b, _, second⟩ := (Bitmap.getElem?_eq_some_iff filled).mp
            (List.getElem?_eq_getElem (show 1 < values.length by omega))
          have together := (placed' a _ first).1.trans (placed' b _ second).1.symm
          have slots := slotAt_eq_of_pathOf level deeper together
          rw [(placed a _ first).2, (placed b _ second).2] at slots
          subst slots
          omega
        | cons child rest =>
          obtain ⟨slot, found⟩ := (Bitmap.mem_iff_kept? linked).mp (List.mem_cons_self : child ∈ child :: rest)
          exact ih slot child found (below' slot child found) (big slot child found) (Nat.succ_lt_succ deeper)
  have same : depth = depth' := by
    have := higher canonical canonical' several
    have := higher canonical' canonical several
    omega
  subst same
  obtain ⟨v, member⟩ := exists_mem_of_count (show 0 < node.count by omega)
  exact ⟨rfl, (canonical.pathOf_eq member).symm.trans (canonical'.pathOf_eq member)⟩

end Canonical

theorem empty_canonical (L : Layout α κ) : Canonical L 0 0 (empty : Node α) := by
  refine .branch (by decide) (by decide) rfl rfl rfl ?_ ?_ ?_ ?_
  all_goals
    intro slot _ found
    simp [Bitmap.kept?] at found

end TrieArchive.Node
