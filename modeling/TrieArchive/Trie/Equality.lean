import TrieArchive.Trie.Node

/-! Comparing two tries slot by slot. The order inside a collision node does not count. -/
namespace TrieArchive.Node

variable {α : Type} [BEq α]

mutual
def same : Node α → Node α → Bool
  | .branch datamap nodemap values children, .branch datamap' nodemap' values' children' =>
    datamap == datamap' && nodemap == nodemap' && values == values' && sameAll children children'
  | .collision hash values, .collision hash' values' =>
    hash == hash' && values.length == values'.length && values.all fun v => values'.any (· == v)
  | _, _ => false
def sameAll : List (Node α) → List (Node α) → Bool
  | child :: rest, child' :: rest' => child.same child' && sameAll rest rest'
  | _, _ => true
end

end TrieArchive.Node
