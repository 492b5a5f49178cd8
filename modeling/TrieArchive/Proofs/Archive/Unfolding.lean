import TrieArchive.Archive.Load
import TrieArchive.Proofs.Trie.Canonical

/-! What an archive says, apart from how it is loaded: which nodes are referred to, and which tree comes
of following all references. -/
namespace TrieArchive.Archive

variable {α κ : Type} [BEq κ] {a : Archive α}

/-- The ids met by following the references of stored descriptions. -/
inductive Reaches (a : Archive α) (start : Id) : Id → Prop where
  | start : Reaches a start start
  | step {id child : Id} {d : Description α} (reached : Reaches a start id)
      (stored : a.node? id = some d) (member : child ∈ d.children) : Reaches a start child

/-- The tree that comes of replacing every reference by what is stored there. Descriptions leave out the
hash of a collision, so any hash may stand there. -/
inductive Unfolds (a : Archive α) : Id → Node α → Prop where
  | branch {id : Id} {datamap nodemap : UInt32} {values : List α} {ids : List Id} {children : List (Node α)}
      (stored : a.node? id = some (.branch datamap nodemap values ids))
      (width : children.length = ids.length)
      (below : ∀ (i : Nat) childId child, ids[i]? = some childId → children[i]? = some child →
        Unfolds a childId child) :
      Unfolds a id (.branch datamap nodemap values children)
  | collision {id : Id} {hash : UInt64} {values : List α} (stored : a.node? id = some (.collision values)) :
      Unfolds a id (.collision hash values)

/-- A description is stored under the id made from its content. -/
def Genuine (A : Addressing α) (a : Archive α) (id : Id) : Prop :=
  ∃ d, a.node? id = some d ∧ d.identity A = id

/-- Every node met from here is stored under its own id. -/
def GenuineFrom (A : Addressing α) (a : Archive α) (id : Id) : Prop := ∀ x, a.Reaches id x → a.Genuine A x

theorem Reaches.trans {x y z : Id} (first : a.Reaches x y) (second : a.Reaches y z) : a.Reaches x z := by
  induction second with
  | start => exact first
  | step _ stored member ih => exact ih.step stored member

theorem Reaches.head {id x : Id} (reached : a.Reaches id x) :
    x = id ∨ ∃ d child, a.node? id = some d ∧ child ∈ d.children ∧ a.Reaches child x := by
  induction reached with
  | start => exact .inl rfl
  | step _ stored member ih =>
    rcases ih with rfl | ⟨d, child, here, first, rest⟩
    · exact .inr ⟨_, _, stored, member, .start⟩
    · exact .inr ⟨d, child, here, first, rest.step stored member⟩

theorem Reaches.eq_of_no_children {id x : Id} {d : Description α} (reached : a.Reaches id x)
    (stored : a.node? id = some d) (none : d.children = []) : x = id := by
  rcases reached.head with same | ⟨other, child, there, member, -⟩
  · exact same
  · obtain rfl := Option.some.inj (there.symm.trans stored)
    rw [none] at member
    contradiction

variable {A : Addressing α}

theorem GenuineFrom.child {id child : Id} {d : Description α} (genuine : a.GenuineFrom A id)
    (stored : a.node? id = some d) (member : child ∈ d.children) : a.GenuineFrom A child :=
  fun x reached => genuine x ((Reaches.start.step stored member).trans reached)

theorem GenuineFrom.identity {id : Id} {d : Description α} (genuine : a.GenuineFrom A id)
    (stored : a.node? id = some d) : d.identity A = id := by
  obtain ⟨other, same, identity⟩ := genuine id .start
  rw [stored, Option.some.injEq] at same
  rwa [same]

theorem genuineFrom_of_children {id : Id} {d : Description α} (stored : a.node? id = some d)
    (identity : d.identity A = id) (below : ∀ child ∈ d.children, a.GenuineFrom A child) :
    a.GenuineFrom A id := by
  intro x reached
  rcases reached.head with rfl | ⟨other, child, same, member, rest⟩
  · exact ⟨d, stored, identity⟩
  · rw [stored, Option.some.injEq] at same
    subst same
    exact below child member x rest

/-- What hangs in a slot of a tree unfolds from an id that the archive refers to there. -/
theorem Unfolds.child {id : Id} {datamap nodemap : UInt32} {values : List α} {children : List (Node α)}
    (unfolds : a.Unfolds id (.branch datamap nodemap values children))
    (linked : children.length = Bitmap.count nodemap) {slot : Nat} {child : Node α}
    (kept : Bitmap.kept? nodemap children slot = some child) :
    ∃ d childId, a.node? id = some d ∧ childId ∈ d.children ∧ a.Unfolds childId child := by
  cases unfolds with
  | @branch _ _ _ _ ids _ stored width below =>
    have linked' := width.symm.trans linked
    obtain ⟨childId, named⟩ := Bitmap.exists_kept linked' (Bitmap.used_of_kept? kept)
    exact ⟨_, childId, stored, (Bitmap.mem_iff_kept? linked').mpr ⟨slot, named⟩, Bitmap.rel_of_kept below named kept⟩

/-- In well-formed places an id stands for one tree. -/
theorem Unfolds.unique {L : Layout α κ} {id : Id} {node : Node α} (unfolds : a.Unfolds id node)
    {node' : Node α} (unfolds' : a.Unfolds id node') {depth path depth' path' : Nat}
    (canonical : node.Canonical L depth path) (canonical' : node'.Canonical L depth' path') : node = node' := by
  induction unfolds generalizing node' depth path depth' path' with
  | collision stored =>
    cases unfolds' with
    | branch stored' => rw [stored] at stored'; cases stored'
    | collision stored' =>
      rw [stored] at stored'
      cases stored'
      cases canonical with
      | collision _ _ several placed =>
        cases canonical' with
        | collision _ _ _ placed' =>
          obtain ⟨v, member⟩ := List.exists_mem_of_length_pos (Nat.zero_lt_of_lt several)
          rw [← placed v member, ← placed' v member]
  | branch stored width _ ih =>
    cases unfolds' with
    | collision stored' => rw [stored] at stored'; cases stored'
    | branch stored' width' below' =>
      rw [stored] at stored'
      cases stored'
      congr 1
      apply List.ext_getElem (width.trans width'.symm)
      intro i h h'
      have found := List.getElem?_eq_getElem (width ▸ h)
      have here := List.getElem?_eq_getElem h
      have here' := List.getElem?_eq_getElem h'
      cases canonical with
      | branch _ _ _ _ linked _ _ _ below =>
        cases canonical' with
        | branch _ _ _ _ linked' _ _ _ inside' =>
          obtain ⟨slot, kept, kept'⟩ := Bitmap.exists_common_slot linked linked' here here'
          exact ih i _ _ found here (below' i _ _ found here') (below slot _ kept) (inside' slot _ kept')

end TrieArchive.Archive
