import TrieArchive.Trie.Node

/-! Inserting a value. Only the nodes on the path its hash selects change. -/
namespace TrieArchive.Node

variable {α κ : Type}

/-- The node at `depth` for two values of different keys whose hashes agree above it: a chain of
branches down to the first depth where they differ, or to a collision node when no levels are left. -/
def ofPair (first : α) (firstHash : UInt64) (second : α) (secondHash : UInt64) :
    (left depth : Nat) → Node α
  | 0, _ => .collision firstHash [first, second]
  | left + 1, depth =>
    let a := slotAt firstHash depth
    let b := slotAt secondHash depth
    if a = b then
      .branch 0 (Bitmap.mask a) [] [ofPair first firstHash second secondHash left (depth + 1)]
    else
      .branch (Bitmap.mask a ||| Bitmap.mask b) 0 (if a < b then [first, second] else [second, first]) []

variable [BEq κ] (L : Layout α κ) (value : α) (hash : UInt64)

mutual
/-- Stores a value, in place of one with an equal key. Also answers whether the key is new. -/
def insert (depth : Nat) : Node α → Node α × Bool
  | .branch datamap nodemap values children =>
    let slot := slotAt hash depth
    let position := Bitmap.rank datamap slot
    if Bitmap.has datamap slot then
      match values[position]? with
      | some old =>
        if L.key old == L.key value then
          (.branch datamap nodemap (values.set position value) children, false)
        else
          let child := ofPair old (L.place old) value hash (branchLevels - (depth + 1)) (depth + 1)
          (.branch (Bitmap.erase datamap slot) (Bitmap.insert nodemap slot) (values.eraseIdx position)
            (children.insertIdx (Bitmap.rank nodemap slot) child), true)
      | none => (.branch datamap nodemap values children, false)
    else if Bitmap.has nodemap slot then
      let (children, grown) := insertAt (depth + 1) (Bitmap.rank nodemap slot) children
      (.branch datamap nodemap values children, grown)
    else
      (.branch (Bitmap.insert datamap slot) nodemap (values.insertIdx position value) children, true)
  | .collision own values =>
    match values.findIdx? (L.key · == L.key value) with
    | some position => (.collision own (values.set position value), false)
    | none => (.collision own (values ++ [value]), true)
/-- Inserts into the child at a position. -/
def insertAt (depth : Nat) : (position : Nat) → List (Node α) → List (Node α) × Bool
  | _, [] => ([], false)
  | 0, child :: rest =>
    let (child, grown) := child.insert depth
    (child :: rest, grown)
  | position + 1, child :: rest =>
    let (rest, grown) := insertAt depth position rest
    (child :: rest, grown)
end

end TrieArchive.Node
