import TrieArchive.Proofs.Checked.Loads
import TrieArchive.Proofs.Checked.Tries
import TrieArchive.Proofs.Container.CanonicalForm

/-! Containers that are come by in any way are operated on in range, and archives that say anything are loaded in range. -/
namespace TrieArchive

/-- Every operation on a trie, with whatever key, value, number of iteration steps or archive, does what it does
without checks. -/
structure Trie.InRange {α κ : Type} [BEq κ] (S : Scheme α κ) (t : Trie α) : Prop where
  find : ∀ key, t.findChecked S.toLayout key = .ok (t.find? S.toLayout key)
  insert : ∀ value, t.insertChecked S.toLayout value = .ok (t.insert S.toLayout value)
  erase : ∀ key, t.eraseChecked S.toLayout key = .ok (t.erase S.toLayout key)
  iterate : ∀ count, t.cursor.callsChecked count = .ok (t.cursor.calls count)
  save : ∀ a : Archive α, a.saveChecked S.toAddressing S.kind t = .ok (a.save S.toAddressing S.kind t)

/-- A container all of whose operations are in range. -/
def Handle.InRange {σ τ α κ : Type} [BEq κ] (S : Scheme α κ) (trie : σ → Trie α) (trie' : τ → Trie α) :
    Handle σ τ → Prop
  | .frozen c => (trie c).InRange S
  | .editing c => (trie' c).InRange S

section Handles

variable {σ τ α κ : Type} [BEq κ] {S : Scheme α κ} {trie : σ → Trie α} {trie' : τ → Trie α}

theorem Trie.Canonical.inRange {t : Trie α} (canonical : t.Canonical S.toLayout) : t.InRange S where
  find := canonical.fitted.findChecked_eq
  insert := canonical.insertChecked_eq
  erase := canonical.fitted.eraseChecked_eq
  iterate := (counted_cursor canonical.size_eq_length).callsChecked_eq
  save a := a.saveChecked_eq S.toAddressing S.kind t

/-- The trie must be well-formed: a slot in use may have no value. -/
example : Trie.findChecked TrieSet.layout ⟨.branch 0x10000 0 [] [], 1⟩ (0 : UInt32) =
    .error (.positionOutside 0 0) := by decide +kernel

theorem Handle.Canonical.inRange {h : Handle σ τ} (canonical : h.Canonical S.toLayout trie trie') :
    h.InRange S trie trie' := by
  cases h with
  | frozen => exact Trie.Canonical.inRange canonical
  | editing => exact Trie.Canonical.inRange canonical

end Handles

/-- No shift is as wide as a hash, no position is outside a list, no slot is taken twice, nothing counts below zero and
no key is lost, neither in operations on sets and maps nor in loads of them from archives that may say anything. -/
theorem operations_stay_in_range {α κ β : Type} [BEq α] [EquivBEq α] [StableHash α] [LawfulStableHash α] [Binary α]
    [BEq κ] [EquivBEq κ] [StableHash κ] [LawfulStableHash κ] [Binary κ] [Binary β] [Inhabited β] :
    (∀ h : Handle (TrieSet α) (TrieSet.Transient α), TrieSet.Reachable h →
      h.InRange TrieSet.scheme TrieSet.trie TrieSet.Transient.trie) ∧
    (∀ h : Handle (TrieMap κ β) (TrieMap.Transient κ β), TrieMap.Reachable h →
      h.InRange TrieMap.scheme TrieMap.trie TrieMap.Transient.trie) ∧
    (∀ (l : Loader α) (ids : List Id),
      l.loadsChecked TrieSet.scheme ids = .ok (Loader.loads (·.load TrieSet.scheme) l ids)) ∧
    (∀ (l : Loader (κ × β)) (ids : List Id),
      l.loadsChecked TrieMap.scheme ids = .ok (Loader.loads (·.load TrieMap.scheme) l ids)) :=
  ⟨fun _ reachable => reachable.canonical.inRange, fun _ reachable => reachable.canonical.inRange,
    fun l ids => l.loadsChecked_eq TrieSet.scheme ids, fun l ids => l.loadsChecked_eq TrieMap.scheme ids⟩

/-- Keys of one hash, which share a node below the last branch, and an archive that has such a node just below a root. -/
theorem operations_stay_in_range_high_collision :
    let c : Description ChosenHash := .collision [⟨1, 0⟩, ⟨2, 0⟩]
    let b : Description ChosenHash := .branch 0 1 [] [c.identity .blake3]
    let r : Root := ⟨b.identity .blake3, 2, .set⟩
    let id := r.identity Id.blake3
    let a : Archive ChosenHash :=
      ⟨Std.ExtTreeMap.ofList [(c.identity .blake3, c), (b.identity .blake3, b)], Std.ExtTreeMap.ofList [(id, r)]⟩
    Handle.InRange TrieSet.scheme TrieSet.trie TrieSet.Transient.trie
        (run TrieSet.Edit.apply (.frozen .empty) [.ofList [(⟨1, 0⟩ : ChosenHash), ⟨2, 0⟩], .erase ⟨1, 0⟩]).1 ∧
      Handle.InRange TrieMap.scheme TrieMap.trie TrieMap.Transient.trie
        (run TrieMap.Edit.apply (.frozen .empty) [.transient, .insert (⟨1, 0⟩ : ChosenHash) (7 : UInt32)]).1 ∧
      Loader.loadsChecked TrieSet.scheme (.ofArchive a) [id, id] =
        .ok (Loader.loads (·.load TrieSet.scheme) (.ofArchive a) [id, id]) := by
  intro c b r id a
  obtain ⟨sets, maps, loads, -⟩ := operations_stay_in_range (α := ChosenHash) (κ := ChosenHash) (β := UInt32)
  exact ⟨sets _ (.run .empty _), maps _ (.run .empty _), loads (.ofArchive a) [id, id]⟩

end TrieArchive
