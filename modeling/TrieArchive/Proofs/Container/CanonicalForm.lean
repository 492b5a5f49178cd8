import TrieArchive.Proofs.Archive.Exactness
import TrieArchive.Proofs.Container.Refinement
import TrieArchive.Proofs.Trie.Shape

/-! Every container that can be come by has the one form of trie that its values allow, however it was made. -/
namespace TrieArchive

/-- A container over a well-formed trie. -/
def Handle.Canonical {σ τ α κ : Type} [BEq κ] (L : Layout α κ) (trie : σ → Trie α) (trie' : τ → Trie α) :
    Handle σ τ → Prop
  | .frozen c => (trie c).Canonical L
  | .editing c => (trie' c).Canonical L

section Handles

variable {σ τ α κ : Type} [BEq κ] {L : Layout α κ} {trie : σ → Trie α} {trie' : τ → Trie α} {h : Handle σ τ}

theorem Handle.Represents.canonical {r : Reference κ α} (represents : h.Represents L trie trie' r) :
    h.Canonical L trie trie' := by
  cases represents with
  | frozen represents => exact represents.canonical
  | editing represents => exact represents.canonical

/-- A well-formed trie stands for the map that its lookups make. -/
theorem Trie.Canonical.represents {t : Trie α} (canonical : t.Canonical L) :
    t.Represents L (L.lookup · t.toList) :=
  ⟨canonical, fun _ => rfl⟩

theorem Handle.Canonical.represents (canonical : h.Canonical L trie trie') : ∃ r, h.Represents L trie trie' r := by
  cases h with
  | frozen c => exact ⟨_, .frozen (Trie.Canonical.represents canonical)⟩
  | editing c => exact ⟨_, .editing (Trie.Canonical.represents canonical)⟩

/-- Tries of the same values have the same form. -/
theorem Trie.Canonical.alike [EquivBEq κ] {t t' : Trie α} (canonical : t.Canonical L) (canonical' : t'.Canonical L)
    (lawful : L.Lawful) (same : ∀ v, v ∈ t.toList ↔ v ∈ t'.toList) : t.root.Alike t'.root :=
  canonical.root.alike canonical'.root lawful same

end Handles

/-- What any loader answers is well-formed, whatever its archive says. -/
theorem Loader.Reached.canonical {α κ : Type} [BEq κ] {S : Scheme α κ} {a : Archive α} {l : Loader α}
    (reached : Reached S a l) {id : Id} {t : Trie α} (loaded : (l.load S id).1 = .ok t) :
    t.Canonical S.toLayout := by
  obtain ⟨root, holds⟩ := reached.holds loaded
  exact holds.canonical

namespace TrieSet

variable {α : Type} [BEq α] [StableHash α] [Binary α]

/-- The sets that come of edits, and of loads from archives that may say anything. -/
inductive Reachable : Handle (TrieSet α) (Transient α) → Prop where
  | empty : Reachable (.frozen .empty)
  | edit {h : Handle (TrieSet α) (Transient α)} (reachable : Reachable h) (e : Edit α) :
      Reachable (Edit.apply h e).1
  | load {a : Archive α} {l : Loader α} (reached : Loader.Reached scheme a l) {id : Id} {s : TrieSet α}
      (loaded : (TrieSet.load l id).1 = .ok s) : Reachable (.frozen s)

theorem Reachable.run {h : Handle (TrieSet α) (Transient α)} (reachable : Reachable h) (edits : List (Edit α)) :
    Reachable (TrieArchive.run Edit.apply h edits).1 := by
  induction edits generalizing h with
  | nil => exact reachable
  | cons e rest ih => exact ih (reachable.edit e)

variable [EquivBEq α] [LawfulStableHash α]

theorem Reachable.canonical {h : Handle (TrieSet α) (Transient α)} (reachable : Reachable h) :
    h.Canonical layout trie Transient.trie := by
  induction reachable with
  | empty => exact Trie.empty_canonical layout
  | edit _ e ih =>
    obtain ⟨r, represents⟩ := ih.represents
    exact (Edit.apply_represents represents e).1.canonical
  | load reached loaded => exact reached.canonical (load_eq_ok_iff.mp loaded)

end TrieSet

namespace TrieMap

variable {κ β : Type} [BEq κ] [StableHash κ] [Binary κ] [Binary β] [Inhabited β]

/-- The maps that come of edits, and of loads from archives that may say anything. -/
inductive Reachable : Handle (TrieMap κ β) (Transient κ β) → Prop where
  | empty : Reachable (.frozen .empty)
  | edit {h : Handle (TrieMap κ β) (Transient κ β)} (reachable : Reachable h) (e : Edit κ β) :
      Reachable (Edit.apply h e).1
  | load {a : Archive (κ × β)} {l : Loader (κ × β)} (reached : Loader.Reached scheme a l) {id : Id}
      {m : TrieMap κ β} (loaded : (TrieMap.load l id).1 = .ok m) : Reachable (.frozen m)

theorem Reachable.run {h : Handle (TrieMap κ β) (Transient κ β)} (reachable : Reachable h)
    (edits : List (Edit κ β)) : Reachable (TrieArchive.run Edit.apply h edits).1 := by
  induction edits generalizing h with
  | nil => exact reachable
  | cons e rest ih => exact ih (reachable.edit e)

variable [EquivBEq κ] [LawfulStableHash κ]

theorem Reachable.canonical {h : Handle (TrieMap κ β) (Transient κ β)} (reachable : Reachable h) :
    h.Canonical layout trie Transient.trie := by
  induction reachable with
  | empty => exact Trie.empty_canonical layout
  | edit _ e ih =>
    obtain ⟨r, represents⟩ := ih.represents
    exact (Edit.apply_represents represents e).1.canonical
  | load reached loaded => exact reached.canonical (load_eq_ok_iff.mp loaded)

end TrieMap

/-- All reachable sets, maps and edited ones are over well-formed tries, and the values of a well-formed trie
fix its shape up to the order inside collisions. -/
theorem reachable_canonical_unique {α κ β γ ι : Type} [BEq α] [EquivBEq α] [StableHash α] [LawfulStableHash α]
    [Binary α] [BEq κ] [EquivBEq κ] [StableHash κ] [LawfulStableHash κ] [Binary κ] [Binary β] [Inhabited β]
    [BEq ι] [EquivBEq ι] {L : Layout γ ι} (lawful : L.Lawful) :
    (∀ h : Handle (TrieSet α) (TrieSet.Transient α), TrieSet.Reachable h →
      h.Canonical TrieSet.layout TrieSet.trie TrieSet.Transient.trie) ∧
    (∀ h : Handle (TrieMap κ β) (TrieMap.Transient κ β), TrieMap.Reachable h →
      h.Canonical TrieMap.layout TrieMap.trie TrieMap.Transient.trie) ∧
    (∀ t t' : Trie γ, t.Canonical L → t'.Canonical L → (∀ v, v ∈ t.toList ↔ v ∈ t'.toList) →
      t.root.Alike t'.root) :=
  ⟨fun _ reachable => reachable.canonical, fun _ reachable => reachable.canonical,
    fun _ _ canonical canonical' same => canonical.alike canonical' lawful same⟩

/-- Two keys of one hash, in either order. -/
theorem reachable_canonical_unique_collision :
    (TrieSet.layout : Layout ChosenHash ChosenHash).Lawful ∧
    Handle.Canonical TrieSet.layout TrieSet.trie TrieSet.Transient.trie
      (run TrieSet.Edit.apply (.frozen .empty) [.ofList [(⟨1, 0⟩ : ChosenHash), ⟨2, 0⟩], .erase ⟨1, 0⟩]).1 ∧
    Handle.Canonical TrieMap.layout TrieMap.trie TrieMap.Transient.trie
      (run TrieMap.Edit.apply (.frozen .empty) [.transient, .insert (⟨1, 0⟩ : ChosenHash) (7 : UInt32)]).1 ∧
    (TrieSet.ofList [(⟨1, 0⟩ : ChosenHash), ⟨2, 0⟩]).trie.root.Alike
      (TrieSet.ofList [(⟨2, 0⟩ : ChosenHash), ⟨1, 0⟩]).trie.root := by
  have lawful : (TrieSet.layout : Layout ChosenHash ChosenHash).Lawful := TrieSet.layout_lawful
  obtain ⟨sets, maps, unique⟩ := reachable_canonical_unique (α := ChosenHash) (κ := ChosenHash) (β := UInt32) lawful
  refine ⟨lawful, sets _ (.run .empty _), maps _ (.run .empty _), unique _ _ ?_ ?_ fun v => ?_⟩
  · exact (TrieSet.ofList_represents _).canonical
  · exact (TrieSet.ofList_represents _).canonical
  · have one : (TrieSet.ofList [(⟨1, 0⟩ : ChosenHash), ⟨2, 0⟩]).trie.toList = [⟨1, 0⟩, ⟨2, 0⟩] := by decide +kernel
    have two : (TrieSet.ofList [(⟨2, 0⟩ : ChosenHash), ⟨1, 0⟩]).trie.toList = [⟨2, 0⟩, ⟨1, 0⟩] := by decide +kernel
    simp [one, two, or_comm]

end TrieArchive
