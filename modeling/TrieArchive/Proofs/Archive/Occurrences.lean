import Mathlib.Data.List.Flatten
import Mathlib.Data.List.Perm.Subperm
import TrieArchive.Proofs.Archive.Placements
import TrieArchive.Proofs.Container.CanonicalForm

/-! A container that is loaded is no larger than the archive that it comes from. No two of its nodes stand at one
position, and a description fixes the position of its node, so none of them is used twice. -/
namespace TrieArchive

variable {α κ : Type}

namespace Node

variable {A : Addressing α}

mutual
/-- Saving writes down one description for each node. -/
theorem length_manifest : (node : Node α) → (node.manifest A).2.length = node.nodes
  | .branch datamap nodemap values children => by
    simp [manifest, nodes, length_manifestAll children, Nat.add_comm]
  | .collision hash values => by simp [manifest, nodes]
theorem length_manifestAll : (nodes : List (Node α)) → (manifestAll A nodes).2.length = nodesAll nodes
  | [] => rfl
  | node :: rest => by simp [manifestAll, nodesAll, length_manifest node, length_manifestAll rest]
end

mutual
/-- The values below a node are those of the descriptions that saving writes down. -/
theorem length_values_manifest : (node : Node α) →
    ((node.manifest A).2.flatMap fun entry => entry.2.values).length = node.count
  | .branch datamap nodemap values children => by
    rw [manifest, count, List.flatMap_append, List.length_append, length_values_manifestAll children, Nat.add_comm]
    simp [Description.values]
  | .collision hash values => by simp [manifest, count, Description.values]
theorem length_values_manifestAll : (nodes : List (Node α)) →
    ((manifestAll A nodes).2.flatMap fun entry => entry.2.values).length = countAll nodes
  | [] => rfl
  | node :: rest => by
    rw [manifestAll, countAll, List.flatMap_append, List.length_append, length_values_manifest node,
      length_values_manifestAll rest]
end

variable [BEq κ] {L : Layout α κ} {depth path : Nat} {node : Node α}

namespace Canonical

/-- What stands below a node is reached through the node's own position. -/
theorem placement_below (canonical : node.Canonical L depth path) {entry : Id × Placed α}
    (member : entry ∈ node.placements A depth path) :
    depth ≤ entry.2.depth ∧ entry.2.path % 2 ^ shiftAt depth = path := by
  induction canonical with
  | @collision depth path hash values level whole several placed distinct =>
    rw [placements_collision, List.mem_singleton] at member
    subst member
    exact ⟨Nat.le_refl _, Nat.mod_eq_of_lt (Canonical.collision level whole several placed distinct).bounded⟩
  | @branch depth path datamap nodemap values children _ bounded _ _ linked _ _ _ _ ih =>
    rcases (mem_placements_branch linked).mp member with ⟨slot, child, kept, inside⟩ | rfl
    · obtain ⟨deeper, onward⟩ := ih slot child kept inside
      refine ⟨Nat.le_of_succ_le deeper, ?_⟩
      have shorter := Nat.mod_mod_of_dvd entry.2.path ⟨32, shiftAt_succ depth⟩
      rw [← shorter, onward, Nat.add_mul_mod_self_right, Nat.mod_eq_of_lt bounded]
    · exact ⟨Nat.le_refl _, Nat.mod_eq_of_lt bounded⟩

/-- No two nodes of a tree stand at one position. -/
theorem pairwise_placements (canonical : node.Canonical L depth path) :
    (node.placements A depth path).Pairwise fun p q => ¬(p.2.depth = q.2.depth ∧ p.2.path = q.2.path) := by
  induction canonical with
  | collision =>
    rw [placements_collision]
    exact List.pairwise_singleton ..
  | @branch depth path datamap nodemap values children _ bounded _ _ linked _ _ _ below ih =>
    rw [placements_branch]
    refine List.pairwise_append.mpr ⟨List.pairwise_flatMap.mpr ⟨fun hung member => ?_, ?_⟩,
      List.pairwise_singleton .., fun p inside q own => ?_⟩
    · exact ih _ _ ((Bitmap.mem_zip_slots linked).mp member)
    · -- what hangs in different slots parts at this level
      refine (Bitmap.pairwise_zip_slots linked).imp_of_mem fun {one other} here there slots => ?_
      intro p inside q inside' same
      refine slots ?_
      have first := ((below _ _ ((Bitmap.mem_zip_slots linked).mp here)).placement_below inside).2
      have second := ((below _ _ ((Bitmap.mem_zip_slots linked).mp there)).placement_below inside').2
      exact (path_injective bounded bounded (first.symm.trans (same.2 ▸ second))).2
    · rintro ⟨level, -⟩
      obtain ⟨hung, member, inside⟩ := List.mem_flatMap.mp inside
      have deeper := ((below _ _ ((Bitmap.mem_zip_slots linked).mp member)).placement_below inside).1
      rw [List.mem_singleton.mp own] at level
      exact absurd level (Nat.ne_of_gt deeper)

/-- Each node is placed once. -/
theorem map_fst_placements (canonical : node.Canonical L depth path) :
    (node.placements A depth path).map Prod.fst = node.ids A := by
  induction canonical with
  | collision =>
    rw [placements_collision, identity_collision, ids, manifest]
    rfl
  | @branch depth path datamap nodemap values children _ _ _ _ linked _ _ _ _ ih =>
    rw [placements_branch, identity_branch, ids, manifest_branch, List.map_append, List.map_append, List.map_flatMap,
      List.map_flatMap]
    congr 1
    conv_rhs => rw [← Bitmap.map_snd_zip_slots linked, List.flatMap_map]
    refine List.flatMap_congr fun hung member => ?_
    exact ih _ _ ((Bitmap.mem_zip_slots linked).mp member)

end Canonical

end Node

namespace Archive

/-- All values in the descriptions of an archive. -/
def values (a : Archive α) : List α := a.nodes.toList.flatMap fun entry => entry.2.values

/-- A trie has every node of an archive at most once, so it has no more nodes and values than the archive. -/
structure Bounds (A : Addressing α) (a : Archive α) (t : Trie α) : Prop where
  stored : ∀ entry ∈ (t.root.manifest A).2, a.node? entry.1 = some entry.2
  once : (t.root.ids A).Nodup
  nodes : t.root.nodes ≤ a.nodes.size
  values : t.size ≤ a.values.length

variable [BEq κ] {S : Scheme α κ} {a : Archive α} {id : Id} {root : Root} {t : Trie α}

/-- A description stands for one tree at one position, so none is used twice. -/
theorem Holds.nodup_ids (holds : a.Holds S id root t) : (t.root.ids S.toAddressing).Nodup := by
  rw [← holds.canonical.root.map_fst_placements]
  have apart := holds.canonical.root.pairwise_placements (A := S.toAddressing)
  refine List.Nodup.map_on (fun p here q there same => Prod.ext same ?_)
    (apart.imp fun parted same => parted ⟨congrArg (·.2.depth) same, congrArg (·.2.path) same⟩)
  have placed {p : Id × Placed α} (member : p ∈ t.root.placements S.toAddressing 0 0) :=
    holds.canonical.root.placements_sound holds.unfolds holds.genuine (.inr ⟨rfl, rfl⟩) member
  obtain ⟨sound, roomy⟩ := placed here
  obtain ⟨sound', roomy'⟩ := placed there
  exact sound.unique (same ▸ sound') roomy roomy'

theorem Holds.bounds (holds : a.Holds S id root t) : a.Bounds S.toAddressing t := by
  have stored (entry : Id × Description α) (member : entry ∈ (t.root.manifest S.toAddressing).2) :
      a.node? entry.1 = some entry.2 := (((holds.unfolds.manifest holds.genuine).2 entry).mp member).2
  -- saving writes down some entries of the archive, each once
  have part : (t.root.manifest S.toAddressing).2.Subperm a.nodes.toList :=
    holds.nodup_ids.of_map.subperm fun entry member =>
      Std.ExtTreeMap.mem_toList_iff_getElem?_eq_some.mpr (stored entry member)
  refine ⟨stored, holds.nodup_ids, ?_, ?_⟩
  · rw [← Node.length_manifest (A := S.toAddressing), ← Std.ExtTreeMap.length_toList]
    exact part.length_le
  · rw [holds.canonical.size, ← Node.length_values_manifest (A := S.toAddressing)]
    obtain ⟨entries, same, inside⟩ := part
    rw [← (same.flatMap_right _).length_eq]
    exact (inside.flatMap _).length_le

end Archive

/-- Whatever an archive says, and whatever its loader has loaded before, no node occurs twice in a container that is
loaded. So the container has at most as many nodes and values as the archive has. -/
theorem loaded_nodes_occur_once {α κ β : Type} [BEq α] [StableHash α] [Binary α] [BEq κ] [StableHash κ] [Binary κ]
    [Binary β] :
    (∀ (a : Archive α) (l : Loader α) (id : Id) (s : TrieSet α), Loader.Reached TrieSet.scheme a l →
      (TrieSet.load l id).1 = .ok s → a.Bounds .blake3 s.trie) ∧
    (∀ (a : Archive (κ × β)) (l : Loader (κ × β)) (id : Id) (m : TrieMap κ β), Loader.Reached TrieMap.scheme a l →
      (TrieMap.load l id).1 = .ok m → a.Bounds .blake3 m.trie) := by
  constructor
  · intro a l id s reached loaded
    obtain ⟨root, holds⟩ := reached.holds (TrieSet.load_eq_ok_iff.mp loaded)
    exact holds.bounds
  · intro a l id m reached loaded
    obtain ⟨root, holds⟩ := reached.holds (TrieMap.load_eq_ok_iff.mp loaded)
    exact holds.bounds

/-- Three keys, two of which are one level further down, beside a description that nothing refers to. -/
theorem loaded_nodes_occur_once_spare_entry :
    let s := TrieSet.ofList [(0 : UInt32), 1, 2]
    let m := TrieMap.ofList [((0 : UInt32), 'a'), (1, 'b'), (2, 'c')]
    let spare : Archive UInt32 := ⟨(∅ : Std.ExtTreeMap Id (Description UInt32)).insert (Id.blake3 []) (.collision []), ∅⟩
    let a := (s.save spare).1
    let b := (m.save .empty).1
    ((TrieSet.load (.ofArchive a) (s.save .empty).2).1 = .ok s ∧ a.Bounds .blake3 s.trie ∧
        s.trie.root.nodes = 2 ∧ a.nodes.size = 3) ∧
      (TrieMap.load (.ofArchive b) (m.save .empty).2).1 = .ok m ∧ b.Bounds .blake3 m.trie := by
  intro s m spare a b
  obtain ⟨sets, maps⟩ := loaded_nodes_occur_once (α := UInt32) (κ := UInt32) (β := Char)
  constructor
  · have facts : s.trie.size < 2 ^ 64 ∧ ((s.trie.root.manifest .blake3).2.map Prod.fst).Nodup ∧
        (∀ entry ∈ (s.trie.root.manifest .blake3).2, (spare.node? entry.1).isNone) ∧
        s.trie.root.nodes = 2 ∧ a.nodes.size = 3 := by decide +kernel
    obtain ⟨short, ids, free, two, three⟩ := facts
    have canonical : s.trie.Canonical TrieSet.layout := (TrieSet.ofList_represents _).canonical
    clear_value s
    have holds := Archive.holds_save (S := TrieSet.scheme) (a := spare) canonical short
      (fun _ first _ second same => List.inj_on_of_nodup_map ids first second same)
      (fun entry member d found => absurd (free entry member) (by simp [found]))
      (fun r found => by simp [Archive.root?, spare] at found)
    have loaded := TrieSet.load_eq_ok_iff.mpr (Loader.load_ofArchive_eq_ok_iff.mpr ⟨_, holds⟩)
    exact ⟨loaded, sets a _ _ s .fresh loaded, two, three⟩
  · have short : m.trie.size < 2 ^ 64 := by decide +kernel
    have ids : ((m.trie.root.manifest .blake3).2.map Prod.fst).Nodup := by decide +kernel
    have canonical : m.trie.Canonical TrieMap.layout := (TrieMap.ofList_represents _).canonical
    clear_value m
    have holds := Archive.holds_save_new (S := TrieMap.scheme) canonical short ids
    have loaded := TrieMap.load_eq_ok_iff.mpr (Loader.load_ofArchive_eq_ok_iff.mpr ⟨_, holds⟩)
    exact ⟨loaded, maps b _ _ m .fresh loaded⟩

end TrieArchive
