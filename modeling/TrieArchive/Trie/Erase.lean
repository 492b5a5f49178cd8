import TrieArchive.Trie.Node

/-! Erasing a key. A child left with a single value is replaced by that value, on every level of
the way back up. -/
namespace TrieArchive.Node

variable {α κ : Type} [BEq κ] (L : Layout α κ) (key : κ) (hash : UInt64)

mutual
/-- The node without the value of this key, or `none` where the key is not met. -/
def erase? (depth : Nat) : Node α → Option (Node α)
  | .branch datamap nodemap values children =>
    let slot := slotAt hash depth
    let position := Bitmap.rank datamap slot
    if Bitmap.has datamap slot then
      match values[position]? with
      | some value =>
        if L.key value == key then
          some (.branch (Bitmap.erase datamap slot) nodemap (values.eraseIdx position) children)
        else none
      | none => none
    else if Bitmap.has nodemap slot then
      let below := Bitmap.rank nodemap slot
      match eraseAt? (depth + 1) below children with
      | some children =>
        match children[below]?.bind singleton? with
        | some value =>
          some (.branch (Bitmap.insert datamap slot) (Bitmap.erase nodemap slot)
            (values.insertIdx position value) (children.eraseIdx below))
        | none => some (.branch datamap nodemap values children)
      | none => none
    else none
  | .collision own values =>
    match values.findIdx? (L.key · == key) with
    | some position => some (.collision own (values.eraseIdx position))
    | none => none
/-- Erases from the child at a position. -/
def eraseAt? (depth : Nat) : (position : Nat) → List (Node α) → Option (List (Node α))
  | _, [] => none
  | 0, child :: rest => (child.erase? depth).map (· :: rest)
  | position + 1, child :: rest => (eraseAt? depth position rest).map (child :: ·)
end

end TrieArchive.Node
