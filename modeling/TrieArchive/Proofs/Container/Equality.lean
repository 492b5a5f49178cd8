import TrieArchive.Archive.Sharing
import TrieArchive.Proofs.Archive.Dedup
import TrieArchive.Proofs.Archive.Occurrences
import TrieArchive.Proofs.Trie.Equality
import TrieArchive.Proofs.Trie.Sharing

/-! Containers compare equal if they hold equal elements, or equal values under the same keys, and only then. Neither
the nodes that they have in common nor the order inside collisions makes a difference. -/
namespace TrieArchive

/-- Comparing two tries answers whether something is so. It answers the same when it passes over nodes that both have in
one place of memory, and when the values of collisions are in another order. -/
structure Trie.Compares {α : Type} [BEq α] (t t' : Trie α) (answer : Bool) (equal : Prop) : Prop where
  exact : answer ↔ equal
  shared : ∀ (memory : Label → Node α) (o o' : Outline), t.root.LaidOut memory o → t'.root.LaidOut memory o' →
    t.sameShared o t' o' = answer
  unordered : ∀ u u' : Trie α, t.root.Alike u.root → t.size = u.size → t'.root.Alike u'.root → t'.size = u'.size →
    u.same u' = answer

theorem Covers.congr {α : Type} [BEq α] {values values' others others' : List α} (same : values.Perm values')
    (same' : others.Perm others') : Covers values others ↔ Covers values' others' := by
  simp only [Covers, same.mem_iff, same'.mem_iff]

section Tries

variable {α κ : Type} [BEq κ] [EquivBEq κ] {L : Layout α κ} {t t' : Trie α}

/-- The order inside collisions does not matter for whether a trie is well-formed. -/
theorem Trie.Canonical.of_alike {u : Trie α} (canonical : t.Canonical L) (alike : t.root.Alike u.root)
    (size : t.size = u.size) : u.Canonical L := by
  refine ⟨canonical.root.of_alike alike, ?_⟩
  rw [← size, canonical.size_eq_length, Trie.toList, alike.toList_perm.length_eq, Node.length_toList]

variable [BEq α] [EquivBEq α]

theorem Trie.Canonical.compares (canonical : t.Canonical L) (canonical' : t'.Canonical L) (lawful : L.Lawful)
    (respected : L.Respected) : t.Compares t' (t.same t') (∀ key, t.find? L key == t'.find? L key) where
  exact := canonical.same_iff_find? canonical' lawful respected
  shared memory o o' laidOut laidOut' := by rw [Trie.sameShared, laidOut.sameShared_eq laidOut', Trie.same]
  unordered u u' alike size alike' size' := by
    have reordered := canonical.of_alike alike size
    have reordered' := canonical'.of_alike alike' size'
    rw [Bool.eq_iff_iff, reordered.same_iff_covers reordered' lawful respected,
      canonical.same_iff_covers canonical' lawful respected]
    exact and_congr (Covers.congr alike.toList_perm alike'.toList_perm).symm
      (Covers.congr alike'.toList_perm alike.toList_perm).symm

end Tries

theorem Trie.Compares.congr {α : Type} [BEq α] {t t' : Trie α} {answer : Bool} {equal equal' : Prop}
    (compares : t.Compares t' answer equal) (same : equal ↔ equal') : t.Compares t' answer equal' :=
  ⟨compares.exact.trans same, compares.shared, compares.unordered⟩

namespace TrieSet

variable {α : Type} [BEq α] [StableHash α]

theorem layout_respected : (layout : Layout α α).Respected := fun _ _ same => same

variable [EquivBEq α] [LawfulStableHash α] {s t : TrieSet α}

/-- What is found for an element equals it, so it is enough to look whether something is found. -/
theorem get?_beq_iff (canonical : s.trie.Canonical layout) (canonical' : t.trie.Canonical layout) (a : α) :
    s.get? a == t.get? a ↔ s.contains a = t.contains a := by
  have equal {u : TrieSet α} (canonical : u.trie.Canonical layout) {v : α} (found : u.get? a = some v) : v == a :=
    ((canonical.root.find?_eq_some_iff layout_lawful).mp found).2
  change _ ↔ (s.get? a).isSome = (t.get? a).isSome
  cases found : s.get? a with
  | none => cases t.get? a <;> simp
  | some v =>
    cases found' : t.get? a with
    | none => simp
    | some w => simpa using BEq.trans (equal canonical found) (BEq.symm (equal canonical' found'))

end TrieSet

namespace TrieMap

variable {κ β : Type} [BEq κ] [StableHash κ] [BEq β]

theorem layout_respected : (layout : Layout (κ × β) κ).Respected := fun _ _ same => (Bool.and_eq_true_iff.mp same).1

variable [EquivBEq κ] [LawfulStableHash κ] {m n : TrieMap κ β}

/-- The keys that are found for a key equal it, so it is enough to look at the values. -/
theorem find?_beq_iff (canonical : m.trie.Canonical layout) (canonical' : n.trie.Canonical layout) (key : κ) :
    m.trie.find? layout key == n.trie.find? layout key ↔ m.get? key == n.get? key := by
  have equal {u : TrieMap κ β} (canonical : u.trie.Canonical layout) {v : κ × β}
      (found : u.trie.find? layout key = some v) : v.1 == key :=
    ((canonical.root.find?_eq_some_iff layout_lawful).mp found).2
  rw [get?, get?]
  cases found : m.trie.find? layout key with
  | none => cases n.trie.find? layout key <;> simp
  | some v =>
    cases found' : n.trie.find? layout key with
    | none => simp
    | some w =>
      have keys : v.1 == w.1 := BEq.trans (equal canonical found) (BEq.symm (equal canonical' found'))
      change (v.1 == w.1 && v.2 == w.2) ↔ _
      rw [keys, Bool.true_and]
      rfl

end TrieMap

section Outlines

variable {α κ : Type} {A : Addressing α}

theorem Outline.rebuiltAll_eq (loader : Nat) (nodes : List (Node α)) :
    rebuiltAll A loader nodes = nodes.map (rebuilt A loader) := by
  induction nodes with
  | nil => rfl
  | cons node rest ih => rw [rebuiltAll, ih, List.map_cons]

/-- What a loader has rebuilt is laid out where it keeps the node of each id. -/
theorem Node.Canonical.laidOut_rebuilt [BEq κ] {L : Layout α κ} {depth path : Nat} {node : Node α}
    (canonical : node.Canonical L depth path) {loader : Nat} {memory : Label → Node α}
    (kept : ∀ entry ∈ node.placements A depth path, memory (.rebuilt loader entry.1) = entry.2.node) :
    node.LaidOut memory (Outline.rebuilt A loader node) := by
  induction canonical with
  | @collision depth path hash values =>
    rw [Outline.rebuilt]
    exact .collision (kept _ (by rw [placements_collision]; exact List.mem_singleton_self _))
  | @branch depth path datamap nodemap values children _ _ _ _ linked _ _ _ _ ih =>
    rw [Outline.rebuilt, Outline.rebuiltAll_eq]
    refine .branch (kept _ ((mem_placements_branch linked).mpr (.inr rfl))) (List.length_map _) ?_
    intro i child o here there
    rw [List.getElem?_map, here, Option.map_some, Option.some.injEq] at there
    obtain ⟨slot, named⟩ := (Bitmap.mem_iff_kept? linked).mp (List.mem_of_getElem? here)
    exact there ▸ ih slot child named fun entry inside =>
      kept entry ((mem_placements_branch linked).mpr (.inl ⟨slot, child, named, inside⟩))

/-- A memory in which each loader has a place for each id. -/
def memoryOf (entries : List (Id × Placed α)) : Label → Node α
  | .made _ => default
  | .rebuilt _ x => ((entries.find? (·.1 = x)).map (·.2.node)).getD default

/-- A tree in which no id occurs twice is laid out by its ids, for any number of loaders at once. -/
theorem Node.Canonical.laidOut_memoryOf [BEq κ] {L : Layout α κ} {depth path : Nat} {node : Node α}
    (canonical : node.Canonical L depth path) (once : (node.ids A).Nodup) (loader : Nat) :
    node.LaidOut (memoryOf (node.placements A depth path)) (Outline.rebuilt A loader node) := by
  refine canonical.laidOut_rebuilt fun entry member => ?_
  rw [← canonical.map_fst_placements] at once
  have found : (node.placements A depth path).find? (·.1 = entry.1) = some entry := by
    obtain ⟨other, inside, same, first⟩ := exists_find?_of_mem member
    rw [first, List.inj_on_of_nodup_map once inside member same]
  rw [memoryOf, found]
  rfl

end Outlines

/-- Whatever two reachable containers have gone through, sets are equal if they have the same elements and maps if they
have the same keys with equal values, and only then. -/
theorem equality_exact {α κ β : Type} [BEq α] [EquivBEq α] [StableHash α] [LawfulStableHash α] [Binary α] [BEq κ]
    [EquivBEq κ] [StableHash κ] [LawfulStableHash κ] [Binary κ] [BEq β] [EquivBEq β] [Binary β] [Inhabited β] :
    (∀ s t : TrieSet α, TrieSet.Reachable (.frozen s) → TrieSet.Reachable (.frozen t) →
      s.trie.Compares t.trie (s == t) (∀ a, s.contains a = t.contains a)) ∧
    (∀ m n : TrieMap κ β, TrieMap.Reachable (.frozen m) → TrieMap.Reachable (.frozen n) →
      m.trie.Compares n.trie (m == n) (∀ key, m.get? key == n.get? key)) := by
  constructor
  · intro s t reachable reachable'
    have canonical : s.trie.Canonical TrieSet.layout := reachable.canonical
    have canonical' : t.trie.Canonical TrieSet.layout := reachable'.canonical
    exact (canonical.compares canonical' TrieSet.layout_lawful TrieSet.layout_respected).congr
      (forall_congr' (TrieSet.get?_beq_iff canonical canonical'))
  · intro m n reachable reachable'
    have canonical : m.trie.Canonical TrieMap.layout := reachable.canonical
    have canonical' : n.trie.Canonical TrieMap.layout := reachable'.canonical
    exact (canonical.compares canonical' TrieMap.layout_lawful TrieMap.layout_respected).congr
      (forall_congr' (TrieMap.find?_beq_iff canonical canonical'))

/-- Two keys of one hash are met in either order, and nodes that are rebuilt by one loader or by two compare alike. Maps
that differ in one value are told apart. -/
theorem equality_exact_collision :
    let s := TrieSet.ofList [(⟨1, 0⟩ : ChosenHash), ⟨2, 0⟩]
    let t := TrieSet.ofList [(⟨2, 0⟩ : ChosenHash), ⟨1, 0⟩]
    let o (loader : Nat) := Outline.rebuilt .blake3 loader s.trie.root
    let m := TrieMap.ofList [((0 : UInt32), 'a'), (1, 'b')]
    let n := m.insert 1 'c'
    (s.toList ≠ t.toList ∧ s == t ∧ ∀ a, s.contains a = t.contains a) ∧
      (s.trie.sameShared (o 0) s.trie (o 0) ∧ s.trie.sameShared (o 0) s.trie (o 1)) ∧
      (m == n) = false ∧ ¬ ∀ key, m.get? key == n.get? key := by
  intro s t o m n
  obtain ⟨sets, -⟩ := equality_exact (α := ChosenHash) (κ := UInt32) (β := Char)
  obtain ⟨-, maps⟩ := equality_exact (α := UInt32) (κ := UInt32) (β := Char)
  have reachable : TrieSet.Reachable (.frozen s) := .edit .empty (.ofList _)
  have orders : s.toList ≠ t.toList ∧ s == t := by decide +kernel
  refine ⟨⟨orders.1, orders.2, (sets s t reachable (.edit .empty (.ofList _))).exact.mp orders.2⟩, ?_, ?_⟩
  · have once : (s.trie.root.ids .blake3).Nodup := by decide +kernel
    have canonical : s.trie.Canonical TrieSet.layout := reachable.canonical
    have laidOut := canonical.root.laidOut_memoryOf once
    have itself : (s == s) = true := by decide +kernel
    have shared (loader : Nat) := (sets s s reachable reachable).shared _ _ _ (laidOut 0) (laidOut loader)
    exact ⟨(shared 0).trans itself, (shared 1).trans itself⟩
  · have apart : (m == n) = false := by decide +kernel
    have reachable : TrieMap.Reachable (.frozen m) := .edit .empty (.ofList _)
    have told := (maps m n reachable (reachable.edit (.insert 1 'c'))).exact
    exact ⟨apart, fun same => Bool.false_ne_true (apart.symm.trans (told.mpr same))⟩

end TrieArchive
