import TrieArchive.Archive.Basic
import TrieArchive.Trie.Basic

/-! Saving a container stores the description of each of its nodes, and one root, under ids made
from their content. What an archive already holds under an id is kept. -/
namespace TrieArchive

variable {α : Type} (A : Addressing α)

namespace Node

mutual
/-- The id of a node, with the descriptions of all nodes at and below it, children first. -/
def manifest : Node α → Id × List (Id × Description α)
  | .branch datamap nodemap values children =>
    let (ids, below) := manifestAll children
    let description := Description.branch datamap nodemap values ids
    let id := description.identity A
    (id, below ++ [(id, description)])
  | .collision _ values =>
    let description := Description.collision values
    let id := description.identity A
    (id, [(id, description)])
def manifestAll : List (Node α) → List Id × List (Id × Description α)
  | [] => ([], [])
  | node :: rest =>
    let (id, entries) := node.manifest
    let (ids, others) := manifestAll rest
    (id :: ids, entries ++ others)
end

end Node

namespace Archive

def addNodes (a : Archive α) (entries : List (Id × Description α)) : Archive α :=
  { a with nodes := entries.foldl (fun nodes (id, description) => nodes.insertIfNew id description) a.nodes }

/-- Stores a trie as a container of the given kind and answers its id. -/
def save (a : Archive α) (kind : Kind) (t : Trie α) : Archive α × Id :=
  let (node, entries) := t.root.manifest A
  let root : Root := ⟨node, UInt64.ofNat t.size, kind⟩
  let id := root.identity A.digest
  let a := a.addNodes entries
  ({ a with roots := a.roots.insertIfNew id root }, id)

end Archive

end TrieArchive
