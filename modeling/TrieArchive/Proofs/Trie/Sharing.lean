import TrieArchive.Proofs.Trie.Shape
import TrieArchive.Trie.Sharing

/-! Comparing may pass over nodes that two tries have in common. One place in memory holds one node, and a node compares
equal to itself, so the answer is the one that looking into all of them gives. -/
namespace TrieArchive.Node

variable {α : Type} {memory : Label → Node α}

/-- A tree as memory has it: the outline names a place for each node, and the node is in that place. -/
inductive LaidOut (memory : Label → Node α) : Node α → Outline → Prop where
  | branch {label : Label} {datamap nodemap : UInt32} {values : List α} {children : List (Node α)}
      {outlines : List Outline} (here : memory label = .branch datamap nodemap values children)
      (width : outlines.length = children.length)
      (below : ∀ (i : Nat) child o, children[i]? = some child → outlines[i]? = some o → LaidOut memory child o) :
      LaidOut memory (.branch datamap nodemap values children) (.node label outlines)
  | collision {label : Label} {hash : UInt64} {values : List α} (here : memory label = .collision hash values) :
      LaidOut memory (.collision hash values) (.node label [])

variable {a b : Node α} {o o' : Outline}

theorem LaidOut.memory_eq (laidOut : LaidOut memory a o) : memory o.label = a := by
  cases laidOut <;> assumption

variable [BEq α]

mutual
theorem same_refl [ReflBEq α] : (node : Node α) → node.same node
  | .branch datamap nodemap values children => by simp [Node.same, sameAll_refl children]
  | .collision hash values => by
    simp only [Node.same, beq_self_eq_true, Bool.true_and, List.all_eq_true, List.any_eq_true]
    exact fun v member => ⟨v, member, BEq.rfl⟩
theorem sameAll_refl [ReflBEq α] : (nodes : List (Node α)) → sameAll nodes nodes
  | [] => rfl
  | node :: rest => by rw [sameAll, same_refl node, sameAll_refl rest, Bool.true_and]
end

/-- What is named alike is one node. -/
theorem LaidOut.same_of_label [ReflBEq α] (laidOut : LaidOut memory a o) (laidOut' : LaidOut memory b o')
    (shared : o.label = o'.label) : a.same b := by
  have one : a = b := by rw [← laidOut.memory_eq, shared, laidOut'.memory_eq]
  exact one ▸ same_refl a

theorem sameSharedAll_eq {children children' : List (Node α)} {outlines outlines' : List Outline}
    (width : outlines.length = children.length) (width' : outlines'.length = children'.length)
    (each : ∀ (i : Nat) child child' o o', children[i]? = some child → children'[i]? = some child' →
      outlines[i]? = some o → outlines'[i]? = some o' → child.sameShared o child' o' = child.same child') :
    sameSharedAll children outlines children' outlines' = sameAll children children' := by
  induction children generalizing children' outlines outlines' with
  | nil => cases children' <;> rfl
  | cons child rest ih =>
    rcases children' with _ | ⟨child', rest'⟩
    · cases outlines <;> rfl
    · rcases outlines with _ | ⟨o, outlines⟩
      · contradiction
      · rcases outlines' with _ | ⟨o', outlines'⟩
        · contradiction
        · rw [sameSharedAll, sameAll, each 0 child child' o o' rfl rfl rfl rfl,
            ih (Nat.succ.inj width) (Nat.succ.inj width') fun i => each (i + 1)]

theorem sameShared_of_label (shared : o.label = o'.label) : a.sameShared o b o' := by
  cases a <;> cases b <;> simp [sameShared, shared]

/-- Passing over what is shared, at any depth, leaves the answer as it is. -/
theorem LaidOut.sameShared_eq [ReflBEq α] (laidOut : LaidOut memory a o) (laidOut' : LaidOut memory b o') :
    a.sameShared o b o' = a.same b := by
  induction laidOut generalizing b o' with
  | @branch label _ _ _ _ outlines here width below ih =>
    by_cases shared : (Outline.node label outlines).label = o'.label
    · rw [sameShared_of_label shared, LaidOut.same_of_label (.branch here width below) laidOut' shared]
    · cases laidOut' with
      | branch _ width' below' =>
        rw [sameShared, beq_eq_false_iff_ne.mpr shared, Bool.false_or, Node.same]
        congr 1
        exact sameSharedAll_eq width width' fun i child child' o o' here there first second =>
          ih i child o here first (below' i child' o' there second)
      | collision => simp [sameShared, Node.same, shared]
  | @collision label _ _ here =>
    by_cases shared : (Outline.node label []).label = o'.label
    · rw [sameShared_of_label shared, LaidOut.same_of_label (.collision here) laidOut' shared]
    · cases laidOut' with
      | branch => simp [sameShared, Node.same, shared]
      | collision => rw [sameShared, beq_eq_false_iff_ne.mpr shared, Bool.false_or, Node.same]

end TrieArchive.Node
