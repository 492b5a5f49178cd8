import TrieArchive.Trie.Lookup
import TrieArchive.Proofs.Trie.Canonical

/-! Looking a key up in a well-formed node finds the value stored under it, wherever that is. -/
namespace TrieArchive.Node

variable {α κ : Type} [BEq κ] {L : Layout α κ}

theorem findAt_eq (key : κ) (hash : UInt64) (depth position : Nat) (children : List (Node α)) :
    findAt L key hash depth position children = children[position]?.bind (find? L key hash depth) := by
  induction children generalizing position with
  | nil => simp [findAt]
  | cons child rest ih =>
    cases position with
    | zero => simp [findAt]
    | succ position => simpa [findAt] using ih position

theorem hash_eq_of_key (lawful : L.Lawful) {v : α} {key : κ} (matched : L.key v == key) :
    L.place v = L.hash key := lawful _ _ matched

variable [EquivBEq κ]

/-- A lookup answers the member with the key. -/
theorem Canonical.find?_eq_some_iff {depth path : Nat} {node : Node α} (canonical : Canonical L depth path node)
    (lawful : L.Lawful) {key : κ} {v : α} : node.find? L key (L.hash key) depth = some v ↔
      v ∈ node.toList ∧ L.key v == key := by
  induction canonical with
  | collision _ _ _ placed distinct =>
    rename_i hash values
    rw [Node.find?, toList_collision]
    split
    next same => exact distinct.lookup_eq_some_iff
    next other =>
      refine ⟨fun found => (nomatch found), fun ⟨member, matched⟩ => ?_⟩
      exact absurd ((placed v member).symm.trans (hash_eq_of_key lawful matched)) other
  | @branch depth path datamap nodemap values children level bounded disjoint filled linked placed reached several
      below ih =>
    have canonical := Canonical.branch level bounded disjoint filled linked placed reached several below
    have atSlot (matched : L.key v == key) : slotAt (L.place v) depth = slotAt (L.hash key) depth :=
      congrArg (slotAt · depth) (hash_eq_of_key lawful matched)
    have located (matched : L.key v == key) := atSlot matched ▸ canonical.mem_branch (v := v)
    rw [Node.find?]
    by_cases inline : Bitmap.has datamap (slotAt (L.hash key) depth)
    · have free := Bitmap.kept?_of_free children (Bitmap.disjoint_iff.mp disjoint _ inline)
      rw [if_pos inline, Option.filter_eq_some_iff, ← Bitmap.kept?_eq_getElem? inline]
      refine and_congr_left fun matched => ?_
      rw [located matched, free]
      simp
    · have free := Bitmap.kept?_of_free values (by simpa using inline)
      rw [if_neg inline]
      by_cases child : Bitmap.has nodemap (slotAt (L.hash key) depth)
      · obtain ⟨next, kept⟩ := Bitmap.exists_kept linked child
        rw [if_pos child, findAt_eq, ← Bitmap.kept?_eq_getElem? child, kept, Option.bind_some, ih _ next kept]
        refine and_congr_left fun matched => ?_
        rw [located matched, free, kept]
        simp
      · have bare := Bitmap.kept?_of_free children (by simpa using child)
        rw [if_neg child]
        refine ⟨fun found => (nomatch found), fun ⟨member, matched⟩ => ?_⟩
        rw [located matched, free, bare] at member
        simp at member

theorem Canonical.find?_eq_lookup {depth path : Nat} {node : Node α} (canonical : Canonical L depth path node)
    (lawful : L.Lawful) (key : κ) : node.find? L key (L.hash key) depth = L.lookup key node.toList := by
  refine Option.ext fun v => ?_
  rw [canonical.find?_eq_some_iff lawful, (canonical.distinct lawful).lookup_eq_some_iff]

end TrieArchive.Node
