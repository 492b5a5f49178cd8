import TrieArchive.Proofs.Trie.Erase
import TrieArchive.Proofs.Trie.Insert
import TrieArchive.Proofs.Trie.Iteration

/-! The operations of a trie keep it well-formed and edit its values as a finite map. -/
namespace TrieArchive

variable {α κ : Type} [BEq κ] {L : Layout α κ}

/-- A well-formed root, with its values counted. -/
structure Trie.Canonical (L : Layout α κ) (t : Trie α) : Prop where
  root : t.root.Canonical L 0 0
  size : t.size = t.root.count

namespace Trie

theorem empty_canonical (L : Layout α κ) : (empty : Trie α).Canonical L := ⟨Node.empty_canonical L, rfl⟩

variable {t : Trie α}

theorem Canonical.size_eq_length (canonical : t.Canonical L) : t.size = t.toList.length :=
  canonical.size.trans (Node.length_toList t.root).symm

theorem erase_of_absent {key : κ} (absent : t.contains L key = false) : t.erase L key = (t, false) := by
  rw [erase, absent, if_neg (by decide)]

variable [EquivBEq κ]

theorem Canonical.distinct (canonical : t.Canonical L) (lawful : L.Lawful) : L.Distinct t.toList :=
  canonical.root.distinct lawful

theorem Canonical.find?_eq (canonical : t.Canonical L) (lawful : L.Lawful) (key : κ) :
    t.find? L key = L.lookup key t.toList :=
  canonical.root.find?_eq_lookup lawful key

theorem Canonical.contains_eq (canonical : t.Canonical L) (lawful : L.Lawful) (key : κ) :
    t.contains L key = L.present key t.toList := by
  rw [contains, canonical.find?_eq lawful, Layout.lookup_isSome]

theorem Canonical.insert_spec (canonical : t.Canonical L) (lawful : L.Lawful) (v : α) :
    (t.insert L v).1.Canonical L ∧ (t.insert L v).1.toList.Perm (L.put v t.toList) ∧
      (t.insert L v).2 = !L.present (L.key v) t.toList := by
  obtain ⟨root, values, grown⟩ := canonical.root.insert lawful (pathOf_zero (L.place v))
  have length := values.length_eq
  rw [(canonical.root.distinct lawful).length_put, Node.length_toList, Node.length_toList,
    ← canonical.size] at length
  refine ⟨⟨root, Eq.trans ?_ length.symm⟩, values, grown⟩
  simp only [insert, grown]
  cases L.present (L.key v) t.root.toList <;> rfl

theorem Canonical.erase_spec (canonical : t.Canonical L) (lawful : L.Lawful) (key : κ) :
    (t.erase L key).1.Canonical L ∧ (t.erase L key).1.toList.Perm (L.drop key t.toList) ∧
      (t.erase L key).2 = L.present key t.toList := by
  have erased := canonical.root.erase? lawful (pathOf_zero (L.hash key))
  have contained := canonical.contains_eq lawful key
  cases found : L.present key t.toList with
  | false =>
    rw [erase_of_absent (contained.trans found), Layout.drop_of_absent (Layout.present_eq_false_iff.mp found)]
    exact ⟨canonical, .refl _, rfl⟩
  | true =>
    rw [erase, contained, found, if_pos rfl]
    generalize result : t.root.erase? L key (L.hash key) 0 = r at erased
    cases erased with
    | absent absent => rw [toList, absent] at found; contradiction
    | @found after present remnant values =>
      -- a last value of a collision is no root
      have root : after.Canonical L 0 0 := by
        cases remnant with
        | canonical root => exact root
        | last level => contradiction
      refine ⟨⟨root, ?_⟩, values, rfl⟩
      have less := (canonical.root.distinct lawful).length_drop present
      rw [← values.length_eq, Node.length_toList, Node.length_toList, ← canonical.size] at less
      change t.size - 1 = after.count
      omega

end Trie

end TrieArchive
