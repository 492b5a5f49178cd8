import TrieArchive.Proofs.Archive.ContentAddress
import TrieArchive.Proofs.Trie.Inverse

/-! Erasing what was inserted leaves a container as it was, node by node. Inserting what was erased may only change the
order inside a collision, which neither comparing nor saving looks at. -/
namespace TrieArchive

/-- Containers that comparing, counting and saving do not tell apart. -/
structure Indistinct {σ α : Type} (same : σ → σ → Bool) (size : σ → Nat) (save : σ → Archive α → Archive α × Id)
    (c c' : σ) : Prop where
  same : same c c'
  size : size c = size c'
  ids : ∀ a b, (save c a).2 = (save c' b).2

theorem Trie.Canonical.indistinct {α κ : Type} [BEq κ] [BEq α] [ReflBEq α] {L : Layout α κ} {t t' : Trie α}
    (canonical : t.Canonical L) (canonical' : t'.Canonical L) (alike : t.root.Alike t'.root) (A : Addressing α)
    (kind : Kind) : Indistinct Trie.same Trie.size (fun t a => a.save A kind t) t t' := by
  have same := (canonical.matches_of_alike canonical' alike).same
  have size : t.size = t'.size := eq_of_beq (Bool.and_eq_true_iff.mp same).1
  exact ⟨same, size, fun _ _ => congrArg (Root.identity A.digest) (record_eq_of_alike alike size kind)⟩

namespace TrieSet

variable {α : Type} [BEq α] [EquivBEq α] [StableHash α] [LawfulStableHash α] {s : TrieSet α} {a : α}

theorem erase_insert (canonical : s.trie.Canonical layout) (absent : s.contains a = false) :
    (s.insert a).erase a = s := by
  have inserted : s.insert a = ⟨(s.trie.insert layout a).1⟩ := if_neg (Bool.eq_false_iff.mp absent)
  have erased := congrArg Prod.fst (canonical.erase_insert layout_lawful absent)
  refine congrArg mk ((trie_erase (s.insert a) a).trans ?_)
  rw [inserted]
  exact erased

/-- An element that was erased is inserted without being found. -/
theorem trie_insert_erase (canonical : s.trie.Canonical layout) {w : α} (found : s.get? a = some w) :
    ((s.erase a).insert w).trie = ((s.trie.erase layout a).1.insert layout w).1 := by
  have matched : w == a := ((canonical.root.find?_eq_some_iff layout_lawful).mp found).2
  obtain ⟨canonical', values, -⟩ := canonical.erase_spec layout_lawful a
  have gone : (s.erase a).contains w = false := by
    rw [contains, trie_erase, canonical'.contains_eq layout_lawful, Layout.present_eq_false_iff]
    intro v member
    have other := (Layout.mem_drop.mp (values.mem_iff.mp member)).2
    rwa [← BEq.congr_right matched] at other
  rw [insert, gone, if_neg (by decide), trie_erase]

end TrieSet

/-- In any container that can be come by, erasing a key right after it was inserted for the first time leaves the very
same tree, with the same order everywhere. Erasing a key and inserting what was stored under it leaves a container that
compares equal, has the same size and is saved under the same id. -/
theorem erase_undoes_insert {α κ β γ ι : Type} [BEq α] [EquivBEq α] [StableHash α] [LawfulStableHash α] [Binary α]
    [BEq κ] [EquivBEq κ] [StableHash κ] [LawfulStableHash κ] [Binary κ] [BEq β] [ReflBEq β] [Binary β] [Inhabited β]
    [BEq γ] [ReflBEq γ] [BEq ι] [EquivBEq ι] {L : Layout γ ι} (lawful : L.Lawful) :
    (∀ s : TrieSet α, TrieSet.Reachable (.frozen s) →
      (∀ a, s.contains a = false → (s.insert a).erase a = s) ∧
      (∀ a w, s.get? a = some w → Indistinct (· == ·) TrieSet.size TrieSet.save ((s.erase a).insert w) s)) ∧
    (∀ m : TrieMap κ β, TrieMap.Reachable (.frozen m) →
      (∀ key value, m.contains key = false → (m.insert key value).erase key = m) ∧
      (∀ key stored value, m.trie.find? TrieMap.layout key = some (stored, value) →
        Indistinct (· == ·) TrieMap.size TrieMap.save ((m.erase key).insert stored value) m)) ∧
    (∀ t : Trie γ, t.Canonical L →
      (∀ v, t.contains L (L.key v) = false → (t.insert L v).1.erase L (L.key v) = (t, true)) ∧
      (∀ key w, t.find? L key = some w → ∀ (A : Addressing γ) (kind : Kind),
        Indistinct Trie.same Trie.size (fun t a => a.save A kind t) ((t.erase L key).1.insert L w).1 t)) := by
  refine ⟨fun s reachable => ?_, fun m reachable => ?_, fun t canonical => ?_⟩
  · have canonical : s.trie.Canonical TrieSet.layout := reachable.canonical
    refine ⟨fun a => TrieSet.erase_insert canonical, fun a w found => ?_⟩
    obtain ⟨canonical', alike⟩ := canonical.insert_erase TrieSet.layout_lawful found
    have told := canonical'.indistinct canonical alike .blake3 .set
    rw [← TrieSet.trie_insert_erase canonical found] at told
    exact ⟨told.same, told.size, told.ids⟩
  · have canonical : m.trie.Canonical TrieMap.layout := reachable.canonical
    refine ⟨fun key value absent => ?_, fun key stored value found => ?_⟩
    · have erased := canonical.erase_insert TrieMap.layout_lawful (v := (key, value)) absent
      exact congrArg TrieMap.mk ((TrieMap.trie_erase _ key).trans (congrArg Prod.fst erased))
    · obtain ⟨canonical', alike⟩ := canonical.insert_erase TrieMap.layout_lawful found
      have told := canonical'.indistinct canonical alike .blake3 .map
      rw [← TrieMap.trie_erase] at told
      exact ⟨told.same, told.size, told.ids⟩
  · refine ⟨fun v => canonical.erase_insert lawful, fun key w found A kind => ?_⟩
    obtain ⟨canonical', alike⟩ := canonical.insert_erase lawful found
    exact canonical'.indistinct canonical alike A kind

/-- Two keys of one hash. The second brings in a chain of branches and a collision, and erasing it takes all of them
away. Putting the first back leaves it behind the second. -/
theorem erase_undoes_insert_collision :
    let s := TrieSet.ofList [(⟨1, 0⟩ : ChosenHash), ⟨3, 5⟩]
    let m := TrieMap.ofList [((⟨1, 0⟩ : ChosenHash), (7 : UInt32)), (⟨2, 0⟩, 8)]
    (s.contains ⟨2, 0⟩ = false ∧ (s.insert ⟨2, 0⟩).trie.root.nodes = 14 ∧ (s.insert ⟨2, 0⟩).erase ⟨2, 0⟩ = s) ∧
      (m.toList ≠ ((m.erase ⟨1, 0⟩).insert ⟨1, 0⟩ 7).toList ∧
        Indistinct (· == ·) TrieMap.size TrieMap.save ((m.erase ⟨1, 0⟩).insert ⟨1, 0⟩ 7) m) ∧
      ((s.insert ⟨2, 0⟩).trie.insert TrieSet.layout ⟨4, 0⟩).1.erase TrieSet.layout ⟨4, 0⟩ =
        ((s.insert ⟨2, 0⟩).trie, true) := by
  intro s m
  have lawful : (TrieSet.layout : Layout ChosenHash ChosenHash).Lawful := TrieSet.layout_lawful
  obtain ⟨sets, maps, tries⟩ := erase_undoes_insert (α := ChosenHash) (κ := ChosenHash) (β := UInt32) lawful
  have reachable : TrieSet.Reachable (.frozen s) := .edit .empty (.ofList _)
  have larger : TrieSet.Reachable (.frozen (s.insert ⟨2, 0⟩)) := reachable.edit (.insert ⟨2, 0⟩)
  refine ⟨⟨by decide +kernel, by decide +kernel, (sets s reachable).1 ⟨2, 0⟩ (by decide +kernel)⟩,
    ⟨by decide +kernel, (maps m (.edit .empty (.ofList _))).2 ⟨1, 0⟩ ⟨1, 0⟩ 7 (by decide +kernel)⟩, ?_⟩
  exact (tries _ larger.canonical).1 ⟨4, 0⟩ (by decide +kernel)

end TrieArchive
