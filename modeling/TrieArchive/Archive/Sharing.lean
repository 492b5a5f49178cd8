import TrieArchive.Trie.Sharing
import TrieArchive.Archive.Save

/-! The nodes of a loaded container are those its loader keeps, one for each id. -/
namespace TrieArchive.Outline

variable {α : Type} (A : Addressing α) (loader : Nat)

mutual
/-- The outline of a container that a loader has rebuilt. -/
def rebuilt : Node α → Outline
  | .branch datamap nodemap values children =>
    let (id, _) := (Node.branch datamap nodemap values children).manifest A
    .node (.rebuilt loader id) (rebuiltAll children)
  | .collision hash values => .node (.rebuilt loader ((Node.collision hash values).manifest A).1) []
def rebuiltAll : List (Node α) → List Outline
  | [] => []
  | top :: rest => rebuilt top :: rebuiltAll rest
end

end TrieArchive.Outline
