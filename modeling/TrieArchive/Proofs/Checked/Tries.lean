import TrieArchive.Proofs.Checked.Nodes
import TrieArchive.Proofs.Trie.Operations
import TrieArchive.Proofs.Trie.Removal
import TrieArchive.Proofs.Trie.Traversal
import TrieArchive.Archive.Save

/-! The operations of a whole trie with all their steps checked: a trie never counts below zero, and a key that was found
is dropped. For looking up and erasing, values need not be where their hashes lead. -/
namespace TrieArchive

variable {α κ : Type}

namespace Trie

variable [BEq κ] (L : Layout α κ)

def findChecked (t : Trie α) (key : κ) : Checked (Option α) := t.root.findChecked L key (L.hash key) 0

def insertChecked (t : Trie α) (value : α) : Checked (Trie α × Bool) := do
  let (root, grown) ← t.root.insertChecked L value (L.place value) 0
  return (⟨root, if grown then t.size + 1 else t.size⟩, grown)

def eraseChecked (t : Trie α) (key : κ) : Checked (Trie α × Bool) := do
  if (← t.findChecked L key).isSome then
    match ← t.root.eraseChecked L key (L.hash key) 0 with
    | some root => return (⟨root, ← Checked.decrement t.size⟩, true)
    | none => throw .keyLost
  else return (t, false)

end Trie

namespace Cursor

/-- Giving a value counts it off. -/
def nextChecked (c : Cursor α) : Checked (Option α × Cursor α) :=
  match advance c.pending c.values with
  | some (v, pending, values) => do return (some v, ⟨pending, values, ← Checked.decrement c.remaining⟩)
  | none => return (none, ⟨[], [], c.remaining⟩)

def callsChecked : (count : Nat) → Cursor α → Checked (List (Option α) × Cursor α)
  | 0, c => return ([], c)
  | count + 1, c => do
    let (answer, c) ← c.nextChecked
    let (answers, c) ← callsChecked count c
    return (answer :: answers, c)

/-- A cursor that knows how many values are left does not count below zero. -/
theorem Counted.nextChecked_eq {c : Cursor α} (counted : c.Counted) : c.nextChecked = .ok c.next := by
  cases moved : advance c.pending c.values with
  | none =>
    simp only [nextChecked, Cursor.next, next?, moved, Option.map_none]
    rfl
  | some step =>
    obtain ⟨v, pending, values⟩ := step
    have rest : c.rest = v :: (values ++ Node.listAll pending) := advance_eq_some moved
    have more : 0 < c.remaining := by
      rw [counted, rest]
      exact Nat.succ_pos _
    simp only [nextChecked, Cursor.next, next?, moved, Option.map_some, Checked.decrement_eq more]
    rfl

theorem Counted.callsChecked_eq {c : Cursor α} (counted : c.Counted) (count : Nat) :
    c.callsChecked count = .ok (c.calls count) := by
  induction count generalizing c with
  | zero => rfl
  | succ count ih =>
    rw [callsChecked, counted.nextChecked_eq, Checked.ok_bind]
    dsimp only
    rw [ih counted.next]
    rfl

end Cursor

namespace Trie

variable [BEq κ] {L : Layout α κ} {t : Trie α}

theorem Canonical.fitted (canonical : t.Canonical L) : t.Fitted :=
  ⟨canonical.root.fitted, canonical.size_eq_length.trans t.root.length_toList⟩

theorem Fitted.findChecked_eq (fitted : t.Fitted) (key : κ) : t.findChecked L key = .ok (t.find? L key) :=
  fitted.root.findChecked_eq key (L.hash key)

/-- A key that was found is met again, and its value is there to be counted off. -/
theorem Fitted.eraseChecked_eq (fitted : t.Fitted) (key : κ) : t.eraseChecked L key = .ok (t.erase L key) := by
  rw [eraseChecked, fitted.findChecked_eq, Checked.ok_bind]
  cases found : t.find? L key with
  | none =>
    rw [erase_of_find?_eq_none found]
    rfl
  | some v =>
    obtain ⟨after, erased, removed⟩ := fitted.root.erase?_of_find? found
    have more : 0 < t.size := by
      rw [fitted.size, ← Node.length_toList, removed.values.length_eq]
      exact Nat.succ_pos _
    rw [erase, contains, found, Option.isSome_some, if_pos rfl, if_pos rfl, fitted.root.eraseChecked_eq,
      Checked.ok_bind, erased]
    dsimp only
    rw [Checked.decrement_eq more]
    rfl

theorem Canonical.insertChecked_eq (canonical : t.Canonical L) (value : α) :
    t.insertChecked L value = .ok (t.insert L value) := by
  rw [insertChecked, canonical.root.insertChecked_eq (pathOf_zero _)]
  rfl

/-- On a node graph of any shape a lookup and an erasure agree. What the one finds the other takes out, that value once
and no other, and counts it off; the trie is left alone where nothing is found. Neither leaves its range. -/
theorem erase_takes_out_what_is_found (root : Node α) (fitted : root.Fitted 0) (key : κ) :
    (∀ v, (ofRoot root).find? L key = some v →
      ∃ after, (ofRoot root).erase L key = (ofRoot after, true) ∧ root.toList.Perm (v :: after.toList) ∧
        after.Fitted 0) ∧
    ((ofRoot root).find? L key = none → (ofRoot root).erase L key = (ofRoot root, false)) ∧
    (ofRoot root).findChecked L key = .ok ((ofRoot root).find? L key) ∧
    (ofRoot root).eraseChecked L key = .ok ((ofRoot root).erase L key) := by
  have whole := fitted_ofRoot fitted
  refine ⟨fun v found => ?_, erase_of_find?_eq_none, whole.findChecked_eq key, whole.eraseChecked_eq key⟩
  obtain ⟨⟨after, size⟩, erased, values, left⟩ := whole.erase_of_find? found
  obtain rfl : size = after.count := left.size
  exact ⟨after, erased, values, left.root⟩

/-- The root keeps 9 in the slot of 3, and 33, whose slot is that of 1, alone in a child. The hash of the collision is that
of 2. The lookups of 2 and 33 end in the children, that of 9 in a slot that is not in use. -/
theorem erase_takes_out_what_is_found_misplaced :
    let L : Layout UInt64 UInt64 := ⟨id, id⟩
    let root : Node UInt64 := .branch 0x8 0x6 [9] [.branch 0x2 0 [33] [], .collision 2 [2, 5]]
    root.Fitted 0 ∧
      (∃ after, (ofRoot root).erase L 2 = (ofRoot after, true) ∧ root.toList.Perm (2 :: after.toList) ∧
        after.Fitted 0) ∧
      (∃ after, (ofRoot root).erase L 33 = (ofRoot after, true) ∧ root.toList.Perm (33 :: after.toList) ∧
        after.Fitted 0) ∧
      (ofRoot root).erase L 9 = (ofRoot root, false) := by
  intro L root
  have fitted : root.Fitted 0 := by
    refine .branch (by decide) (by decide) (by decide +kernel) (by decide +kernel) fun child member => ?_
    rcases List.mem_cons.mp member with rfl | member
    · exact .branch (by decide) (by decide) (by decide +kernel) (by decide +kernel) fun _ none => nomatch none
    · obtain rfl := List.mem_singleton.mp member
      exact .collision
  have two := erase_takes_out_what_is_found (L := L) root fitted 2
  have below := erase_takes_out_what_is_found (L := L) root fitted 33
  have misplaced := erase_takes_out_what_is_found (L := L) root fitted 9
  exact ⟨fitted, two.1 2 (by decide +kernel), below.1 33 (by decide +kernel), misplaced.2.1 (by decide +kernel)⟩

end Trie

namespace Archive

/-- Saving reads nodes as they are; it also reports how many of them are new to the archive. -/
def saveChecked (A : Addressing α) (a : Archive α) (kind : Kind) (t : Trie α) : Checked (Archive α × Id) := do
  let (after, id) := a.save A kind t
  let _ ← Checked.difference after.nodes.size a.nodes.size
  return (after, id)

/-- Storing nodes never drops one. -/
theorem size_le_addNodes (a : Archive α) (entries : List (Id × Description α)) :
    a.nodes.size ≤ (a.addNodes entries).nodes.size := by
  induction entries generalizing a with
  | nil => exact Nat.le_refl _
  | cons entry rest ih =>
    have first : a.nodes.size ≤ (a.nodes.insertIfNew entry.1 entry.2).size := Std.ExtTreeMap.size_le_size_insertIfNew
    exact Nat.le_trans first (ih { a with nodes := a.nodes.insertIfNew entry.1 entry.2 })

theorem saveChecked_eq (A : Addressing α) (a : Archive α) (kind : Kind) (t : Trie α) :
    a.saveChecked A kind t = .ok (a.save A kind t) := by
  have grown : a.nodes.size ≤ (a.save A kind t).1.nodes.size := a.size_le_addNodes _
  have reported : Checked.difference (a.save A kind t).1.nodes.size a.nodes.size =
      .ok ((a.save A kind t).1.nodes.size - a.nodes.size) := if_pos grown
  rw [saveChecked]
  dsimp only
  rw [reported]
  rfl

end Archive

end TrieArchive
