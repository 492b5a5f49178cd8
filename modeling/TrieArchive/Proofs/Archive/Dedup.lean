import Mathlib.Data.List.Flatten
import TrieArchive.Proofs.Archive.ContentAddress

/-! What is stored under an id first is kept when something else is saved there. Where digests do not collide, that
is the same description up to the order inside a collision, so a saved trie is held up to that order. -/
namespace TrieArchive

variable {α κ : Type}

/-- The same description up to the order of values in a collision. -/
inductive Description.Alike : Description α → Description α → Prop where
  | branch (datamap nodemap : UInt32) (values : List α) (children : List Id) :
      Alike (.branch datamap nodemap values children) (.branch datamap nodemap values children)
  | collision {values values' : List α} (same : values.Perm values') : Alike (.collision values) (.collision values')

section Identity

variable {A : Addressing α} {P : Bytes → Prop} {Q : α → Prop}

theorem Description.preimage_mem_hashed (d : Description α) : d.preimage A ∈ d.hashed A := by
  cases d <;> exact List.mem_cons_self

/-- A branch and a collision are told apart by their first bytes. -/
theorem Description.preimage_branch_ne_collision {datamap nodemap : UInt32} {values values' : List α} {ids : List Id} :
    (branch datamap nodemap values ids).preimage A ≠ (collision values').preimage A := by
  intro same
  have first := congrArg List.head? same
  simp only [preimage, List.append_assoc] at first
  change some 0x62 = some 0x63 at first
  exact absurd first (by decide)

/-- Descriptions with one id are alike. A value that occurs twice shows in the id. -/
theorem Description.alike_of_identity (unique : NoCollision A.digest P) (delimits : Delimits A.encode Q)
    {d d' : Description α} (hashed : ∀ s ∈ d.hashed A, P s) (hashed' : ∀ s ∈ d'.hashed A, P s)
    (fits : ∀ v ∈ d.values, Q v) (fits' : ∀ v ∈ d'.values, Q v) (nodup : d.values.Nodup)
    (short : d.values.length < 2 ^ 64) (short' : d'.values.length < 2 ^ 64) (same : d.identity A = d'.identity A) :
    d.Alike d' := by
  have bytes := unique _ _ (hashed _ d.preimage_mem_hashed) (hashed' _ d'.preimage_mem_hashed) same
  cases d with
  | branch datamap nodemap values ids =>
    cases d' with
    | branch datamap' nodemap' values' ids' =>
      obtain ⟨rfl, rfl, rfl, rfl⟩ := preimage_branch_inj delimits short short' fits fits' bytes
      exact .branch ..
    | collision values' => exact absurd bytes preimage_branch_ne_collision
  | collision values =>
    cases d' with
    | branch datamap' nodemap' values' ids' => exact absurd bytes.symm preimage_branch_ne_collision
    | collision values' =>
      refine .collision (perm_of_digests unique delimits nodup fits fits' ?_ ?_ (preimage_collision_inj bytes))
      · exact fun v member => hashed _ (List.mem_cons_of_mem _ (List.mem_map_of_mem member))
      · exact fun v member => hashed' _ (List.mem_cons_of_mem _ (List.mem_map_of_mem member))

end Identity

namespace Node

variable [BEq κ] {L : Layout α κ} {A : Addressing α} {depth path : Nat} {node : Node α}

/-- What saving stores is stored under its own id. Its values are some of those saved, and a branch has a child for
each of some slots. -/
theorem Canonical.of_mem_manifest (canonical : node.Canonical L depth path) {entry : Id × Description α}
    (member : entry ∈ (node.manifest A).2) :
    entry.2.identity A = entry.1 ∧ entry.2.values.Sublist node.toList ∧ entry.2.children.length ≤ 32 := by
  induction canonical with
  | @collision depth path hash values =>
    obtain rfl := mem_manifest_collision.mp member
    exact ⟨(identity_collision hash values).symm, by rw [toList_collision]; exact .refl _, Nat.zero_le _⟩
  | @branch depth path datamap nodemap values children _ _ _ _ linked _ _ _ _ ih =>
    rw [toList_branch]
    rcases mem_manifest_branch.mp member with ⟨child, inside, below⟩ | rfl
    · obtain ⟨slot, kept⟩ := (Bitmap.mem_iff_kept? linked).mp inside
      obtain ⟨identity, values, width⟩ := ih slot child kept below
      have part : child.toList.Sublist (children.flatMap toList) :=
        List.sublist_flatten_of_mem (List.mem_map_of_mem inside)
      exact ⟨identity, values.trans (part.trans (List.sublist_append_right ..)), width⟩
    · refine ⟨(identity_branch ..).symm, List.sublist_append_left .., ?_⟩
      simp only [Description.children, List.length_map, linked]
      exact Bitmap.count_le nodemap

/-- Nodes whose byte strings have different digests have different ids. -/
theorem Canonical.nodup_ids (canonical : node.Canonical L depth path)
    (digests : ((node.hashed A).map A.digest).Nodup) : ((node.manifest A).2.map Prod.fst).Nodup := by
  have named : (node.manifest A).2.map Prod.fst = (node.manifest A).2.flatMap fun entry => [entry.2.identity A] := by
    rw [List.map_eq_flatMap]
    exact List.flatMap_congr fun entry member => congrArg (fun id => [id]) (canonical.of_mem_manifest member).1.symm
  have first (d : Description α) : [d.identity A].Sublist ((d.hashed A).map A.digest) := by
    cases d <;> exact List.singleton_sublist.mpr List.mem_cons_self
  rw [named]
  refine List.Nodup.sublist ?_ digests
  rw [hashed, List.map_flatMap]
  exact List.Sublist.flatMap_right _ fun entry _ => first entry.2

/-- The order inside collisions does not matter for where a node may stand. -/
theorem Canonical.of_alike [EquivBEq κ] (canonical : node.Canonical L depth path) {node' : Node α}
    (alike : node.Alike node') : node'.Canonical L depth path := by
  induction canonical generalizing node' with
  | collision level whole several placed distinct =>
    cases alike with
    | collision same =>
      exact .collision level whole (same.length_eq ▸ several) (fun v member => placed v (same.mem_iff.mpr member))
        (distinct.perm same)
  | @branch depth path datamap nodemap values children level bounded disjoint filled linked placed reached several
      below ih =>
    cases alike with
    | @branch _ _ _ _ children' width others =>
      have linked' := width.symm.trans linked
      have former (slot : Nat) (child' : Node α) (kept' : Bitmap.kept? nodemap children' slot = some child') :
          ∃ child, Bitmap.kept? nodemap children slot = some child ∧ child.Alike child' := by
        obtain ⟨child, kept⟩ := Bitmap.exists_kept linked (Bitmap.used_of_kept? kept')
        exact ⟨child, kept, Bitmap.rel_of_kept others kept kept'⟩
      refine .branch level bounded disjoint filled linked' placed ?_ ?_ ?_
      all_goals
        intro slot child' kept'
        obtain ⟨child, kept, alike⟩ := former slot child' kept'
      · exact reached slot child kept
      · rw [← length_toList, ← alike.toList_perm.length_eq, length_toList]
        exact several slot child kept
      · exact ih slot child kept alike

/-- A list of which each item is related to something is related to a list. -/
theorem exists_forall₂ {β γ : Type} {R : β → γ → Prop} {items : List β} (each : ∀ b ∈ items, ∃ c, R b c) :
    ∃ others, List.Forall₂ R items others := by
  induction items with
  | nil => exact ⟨[], .nil⟩
  | cons b rest ih =>
    obtain ⟨c, first⟩ := each b List.mem_cons_self
    obtain ⟨others, later⟩ := ih fun b' member => each b' (List.mem_cons_of_mem b member)
    exact ⟨c :: others, .cons first later⟩

end Node

namespace Archive

variable [BEq κ] {L : Layout α κ} {A : Addressing α} {depth path : Nat} {node : Node α} {a : Archive α}

/-- Where something alike is stored for every node of a well-formed tree, a tree alike is stored as a whole. -/
theorem exists_alike_stored (canonical : node.Canonical L depth path)
    (each : ∀ entry ∈ (node.manifest A).2, ∃ d, a.node? entry.1 = some d ∧ entry.2.Alike d) :
    ∃ node' : Node α, node.Alike node' ∧ ∀ entry ∈ (node'.manifest A).2, a.node? entry.1 = some entry.2 := by
  induction canonical with
  | @collision depth path hash values =>
    obtain ⟨d, stored, alike⟩ := each _ (Node.mem_manifest_collision.mpr rfl)
    cases alike with
    | @collision _ values' same =>
      refine ⟨.collision hash values', .collision same, fun entry member => ?_⟩
      obtain rfl := Node.mem_manifest_collision.mp member
      rwa [← (Node.Alike.collision same : (Node.collision hash values).Alike _).identity_eq]
  | @branch depth path datamap nodemap values children level bounded disjoint filled linked placed reached several
      below ih =>
    obtain ⟨d, stored, own⟩ := each _ (Node.mem_manifest_branch.mpr (.inr rfl))
    cases own
    have children' : ∀ child ∈ children, ∃ child' : Node α, child.Alike child' ∧
        ∀ entry ∈ (child'.manifest A).2, a.node? entry.1 = some entry.2 := by
      intro child inside
      obtain ⟨slot, kept⟩ := (Bitmap.mem_iff_kept? linked).mp inside
      exact ih slot child kept fun entry member => each entry (Node.mem_manifest_branch.mpr (.inl ⟨child, inside, member⟩))
    obtain ⟨others, related⟩ := Node.exists_forall₂ children'
    have ids : children.map (Node.identity A) = others.map (Node.identity A) := by
      rw [← List.forall₂_eq_eq_eq, List.forall₂_map_left_iff, List.forall₂_map_right_iff]
      exact related.imp fun _ _ found => found.1.identity_eq
    refine ⟨.branch datamap nodemap values others, .branch related.length_eq fun i child child' here there => ?_,
      fun entry member => ?_⟩
    · obtain ⟨_, first, found⟩ := Rebuild.getElem?_of_forall₂ related there
      exact Option.some.inj (here.symm.trans first) ▸ found.1
    · rcases Node.mem_manifest_branch.mp member with ⟨child', inside, below⟩ | rfl
      · obtain ⟨i, there⟩ := List.mem_iff_getElem?.mp inside
        obtain ⟨_, _, found⟩ := Rebuild.getElem?_of_forall₂ related there
        exact found.2 entry below
      · rw [Node.identity_branch] at stored ⊢
        rwa [← ids]

variable [EquivBEq κ] {S : Scheme α κ} {t : Trie α}

/-- A trie is held up to the order inside collisions where something alike is stored for each of its nodes. -/
theorem holds_of_alike_stored (canonical : t.Canonical S.toLayout) (short : t.size < 2 ^ 64)
    (each : ∀ entry ∈ (t.root.manifest S.toAddressing).2, ∃ d, a.node? entry.1 = some d ∧ entry.2.Alike d)
    (root : a.root? ((t.record S.toAddressing S.kind).identity S.digest) = some (t.record S.toAddressing S.kind)) :
    ∃ t', t.root.Alike t'.root ∧
      a.Holds S ((t.record S.toAddressing S.kind).identity S.digest) (t.record S.toAddressing S.kind) t' := by
  obtain ⟨node', alike, stored⟩ := exists_alike_stored canonical.root each
  have kept : t.size = (Trie.mk node' t.size).size := rfl
  have record := Trie.record_eq_of_alike (A := S.toAddressing) alike kept S.kind
  have size : t.size = node'.count := by
    rw [canonical.size, ← Node.length_toList, ← Node.length_toList, alike.toList_perm.length_eq]
  rw [record] at root ⊢
  exact ⟨_, alike, holds_of_stored ⟨canonical.root.of_alike alike, size⟩ short stored rfl root⟩

end Archive

end TrieArchive
