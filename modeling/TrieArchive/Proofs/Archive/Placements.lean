import TrieArchive.Proofs.Archive.Manifest

/-! Where the nodes of a container stand. In well-formed containers an id has one position, so what a loader remembers
of it is the same whichever container it was met in. -/
namespace TrieArchive

variable {α : Type}

namespace Node

/-- A node at a position, with its values counted. -/
def placedAt (node : Node α) (depth path : Nat) : Placed α := ⟨node, node.count, depth, path⟩

variable (A : Addressing α)

mutual
/-- The nodes at and below a node that stands at a position, each under its id and children first. -/
def placements : Node α → (depth path : Nat) → List (Id × Placed α)
  | .branch datamap nodemap values children, depth, path =>
    let node := branch datamap nodemap values children
    placementsIn (Bitmap.slots nodemap) children depth path ++ [(node.identity A, node.placedAt depth path)]
  | .collision hash values, depth, path =>
    let node := collision hash values
    [(node.identity A, node.placedAt depth path)]
def placementsIn : List Nat → List (Node α) → (depth path : Nat) → List (Id × Placed α)
  | slot :: slots, node :: rest, depth, path =>
    node.placements (depth + 1) (path + slot * 2 ^ shiftAt depth) ++ placementsIn slots rest depth path
  | _, _, _, _ => []
end

end Node

/-- The nodes at and below a placed one. -/
abbrev Placed.within (A : Addressing α) (p : Placed α) : List (Id × Placed α) := p.node.placements A p.depth p.path

/-- A container's nodes, which are those below its root. -/
def Trie.placements (A : Addressing α) (t : Trie α) : List (Id × Placed α) := t.root.placements A 0 0

namespace Node

variable {A : Addressing α}

theorem placementsIn_eq (slots : List Nat) (nodes : List (Node α)) (depth path : Nat) :
    placementsIn A slots nodes depth path = (slots.zip nodes).flatMap fun hung =>
      hung.2.placements A (depth + 1) (path + hung.1 * 2 ^ shiftAt depth) := by
  induction nodes generalizing slots with
  | nil => cases slots <;> rfl
  | cons node rest ih =>
    cases slots with
    | nil => rfl
    | cons slot slots => rw [placementsIn, ih]; rfl

theorem placements_branch (datamap nodemap : UInt32) (values : List α) (children : List (Node α)) (depth path : Nat) :
    (branch datamap nodemap values children).placements A depth path =
      (((Bitmap.slots nodemap).zip children).flatMap fun hung =>
        hung.2.placements A (depth + 1) (path + hung.1 * 2 ^ shiftAt depth)) ++
      [((branch datamap nodemap values children).identity A,
        (branch datamap nodemap values children).placedAt depth path)] := by
  rw [placements, placementsIn_eq]

theorem placements_collision (hash : UInt64) (values : List α) (depth path : Nat) :
    (collision hash values).placements A depth path =
      [((collision hash values).identity A, (collision hash values).placedAt depth path)] := by
  rw [placements]

/-- A placement in a branch is the branch's own or one in the child of some slot. -/
theorem mem_placements_branch {datamap nodemap : UInt32} {values : List α} {children : List (Node α)}
    (linked : children.length = Bitmap.count nodemap) {depth path : Nat} {entry : Id × Placed α} :
    entry ∈ (branch datamap nodemap values children).placements A depth path ↔
      (∃ slot child, Bitmap.kept? nodemap children slot = some child ∧
        entry ∈ child.placements A (depth + 1) (path + slot * 2 ^ shiftAt depth)) ∨
      entry = ((branch datamap nodemap values children).identity A,
        (branch datamap nodemap values children).placedAt depth path) := by
  rw [placements_branch, List.mem_append, List.mem_flatMap, List.mem_singleton]
  refine or_congr ?_ Iff.rfl
  constructor
  · rintro ⟨⟨slot, child⟩, hung, inside⟩
    exact ⟨slot, child, (Bitmap.mem_zip_slots linked).mp hung, inside⟩
  · rintro ⟨slot, child, kept, inside⟩
    exact ⟨(slot, child), (Bitmap.mem_zip_slots linked).mpr kept, inside⟩

namespace Canonical

variable {κ : Type} [BEq κ] {L : Layout α κ} {depth path : Nat} {node : Node α}

/-- What is placed below a placed node is itself placed. -/
theorem placements_trans (canonical : node.Canonical L depth path) {entry other : Id × Placed α}
    (member : entry ∈ node.placements A depth path)
    (inside : other ∈ entry.2.within A) : other ∈ node.placements A depth path := by
  induction canonical with
  | collision =>
    rw [placements_collision, List.mem_singleton] at member
    subst member
    exact inside
  | branch _ _ _ _ linked _ _ _ _ ih =>
    rcases (mem_placements_branch linked).mp member with ⟨slot, child, kept, below⟩ | rfl
    · exact (mem_placements_branch linked).mpr (.inl ⟨slot, child, kept, ih slot child kept below⟩)
    · exact inside

/-- The nodes that are placed are those that saving writes down. -/
theorem exists_placement_iff (canonical : node.Canonical L depth path) {x : Id} :
    (∃ p, (x, p) ∈ node.placements A depth path) ↔ ∃ d, (x, d) ∈ (node.manifest A).2 := by
  induction canonical with
  | collision =>
    rw [placements_collision, identity_collision, manifest]
    simp
  | @branch depth path datamap nodemap values children _ _ _ _ linked _ _ _ _ ih =>
    rw [manifest_branch]
    simp only [mem_placements_branch linked, identity_branch, List.mem_append, List.mem_flatMap, List.mem_singleton,
      Prod.mk.injEq]
    constructor
    · rintro ⟨p, ⟨slot, child, kept, inside⟩ | ⟨rfl, -⟩⟩
      · obtain ⟨d, written⟩ := (ih slot child kept).mp ⟨p, inside⟩
        exact ⟨d, .inl ⟨child, (Bitmap.mem_iff_kept? linked).mpr ⟨slot, kept⟩, written⟩⟩
      · exact ⟨_, .inr ⟨rfl, rfl⟩⟩
    · rintro ⟨d, ⟨child, member, written⟩ | ⟨rfl, -⟩⟩
      · obtain ⟨slot, kept⟩ := (Bitmap.mem_iff_kept? linked).mp member
        obtain ⟨p, inside⟩ := (ih slot child kept).mpr ⟨d, written⟩
        exact ⟨p, .inl ⟨slot, child, kept, inside⟩⟩
      · exact ⟨_, .inr ⟨rfl, rfl⟩⟩

end Canonical

end Node

variable {κ : Type} [BEq κ] {S : Scheme α κ} {a : Archive α}

/-- All nodes of a container that an archive describes stand where their content belongs. -/
theorem Node.Canonical.placements_sound {node : Node α} {depth path : Nat}
    (canonical : node.Canonical S.toLayout depth path) {id : Id} (unfolds : a.Unfolds id node)
    (genuine : a.GenuineFrom S.toAddressing id) (roomy : Roomy node.count depth path) {entry : Id × Placed α}
    (member : entry ∈ node.placements S.toAddressing depth path) :
    entry.2.Sound S a entry.1 ∧ Roomy entry.2.count entry.2.depth entry.2.path := by
  induction canonical generalizing id with
  | collision level whole several placed distinct =>
    rw [placements_collision, List.mem_singleton, (unfolds.manifest genuine).1] at member
    subst member
    exact ⟨⟨unfolds, genuine, .collision level whole several placed distinct, rfl⟩, roomy⟩
  | @branch depth path datamap nodemap values children level bounded disjoint filled linked placed reached several
      below ih =>
    rcases (mem_placements_branch linked).mp member with ⟨slot, child, kept, inside⟩ | rfl
    · obtain ⟨_, childId, stored, under, onward⟩ := unfolds.child linked kept
      exact ih slot child kept onward (genuine.child stored under) (.inl (several slot child kept)) inside
    · rw [(unfolds.manifest genuine).1]
      exact ⟨⟨unfolds, genuine, .branch level bounded disjoint filled linked placed reached several below, rfl⟩,
        roomy⟩

end TrieArchive
