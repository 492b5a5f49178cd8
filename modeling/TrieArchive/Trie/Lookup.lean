import TrieArchive.Trie.Node

/-! Looking a key up: the slots its hash selects lead to the only place it can be. -/
namespace TrieArchive.Node

variable {α κ : Type} [BEq κ] (L : Layout α κ) (key : κ) (hash : UInt64)

mutual
/-- The stored value with this key, whose hash is `hash`. -/
def find? (depth : Nat) : Node α → Option α
  | .branch datamap nodemap values children =>
    let slot := slotAt hash depth
    if Bitmap.has datamap slot then
      values[Bitmap.rank datamap slot]?.filter (L.key · == key)
    else if Bitmap.has nodemap slot then
      findAt (depth + 1) (Bitmap.rank nodemap slot) children
    else none
  | .collision own values =>
    if own = hash then values.find? (L.key · == key) else none
/-- Looks into the child at a position. -/
def findAt (depth : Nat) : (position : Nat) → List (Node α) → Option α
  | _, [] => none
  | 0, child :: _ => child.find? depth
  | position + 1, _ :: rest => findAt depth position rest
end

end TrieArchive.Node
