import TrieArchive.Trie.Bitmap

/-! Nodes of a hashed trie. A branch keeps in each slot nothing, one value or one child; values
whose hashes agree in full share a collision node below the last level of branches. -/
namespace TrieArchive

/-- What places a stored value: the part of it that is its key, and the hash of that key. Keys are
compared with `==`. -/
structure Layout (α κ : Type) where
  key : α → κ
  hash : κ → UInt64

/-- The hash that places a stored value. -/
def Layout.place {α κ : Type} (L : Layout α κ) (v : α) : UInt64 := L.hash (L.key v)

/-- The number of levels of branches that cover a hash. The root is at depth 0, and at this depth there
are collision nodes only. -/
def branchLevels : Nat := 13

/-- The hash bits used up above a depth. -/
def shiftAt (depth : Nat) : Nat := bitsPerLevel * depth

/-- The slot in which a branch at `depth` keeps a hash. -/
def slotAt (hash : UInt64) (depth : Nat) : Nat := fragment hash (shiftAt depth)

inductive Node (α : Type) where
  | branch (datamap nodemap : UInt32) (values : List α) (children : List (Node α))
  | collision (hash : UInt64) (values : List α)

namespace Node

variable {α : Type}

def empty : Node α := .branch 0 0 [] []

instance : Inhabited (Node α) := ⟨empty⟩

/-- The values stored in the node itself. -/
def values : Node α → List α
  | .branch _ _ values _ => values
  | .collision _ values => values

def children : Node α → List (Node α)
  | .branch _ _ _ children => children
  | .collision _ _ => []

/-- The only value below the node, which its parent keeps inline instead. -/
def singleton? : Node α → Option α
  | .branch _ nodemap [v] _ => if nodemap = 0 then some v else none
  | .collision _ [v] => some v
  | _ => none

mutual
/-- The number of values at and below a node. -/
def count : Node α → Nat
  | .branch _ _ values children => values.length + countAll children
  | .collision _ values => values.length
def countAll : List (Node α) → Nat
  | [] => 0
  | node :: rest => node.count + countAll rest
end

mutual
/-- A node's own values in order, then those below each child in slot order. -/
def toList : Node α → List α
  | .branch _ _ values children => values ++ listAll children
  | .collision _ values => values
def listAll : List (Node α) → List α
  | [] => []
  | node :: rest => node.toList ++ listAll rest
end

mutual
theorem length_toList : (node : Node α) → node.toList.length = node.count
  | .branch _ _ values children => by simp [toList, count, length_listAll children]
  | .collision _ _ => by simp [toList, count]
theorem length_listAll : (nodes : List (Node α)) → (listAll nodes).length = countAll nodes
  | [] => rfl
  | node :: rest => by simp [listAll, countAll, length_toList node, length_listAll rest]
end

end Node

end TrieArchive
