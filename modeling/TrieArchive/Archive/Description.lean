import TrieArchive.Id

/-! Descriptions of trie nodes and of saved containers. A description names its children by id, so
it embeds no other node, and its own id is a digest of its content. -/
namespace TrieArchive

/-- Which container a root was saved from. Sets and maps hash different parts of their values, so
one cannot be rebuilt as the other. -/
inductive Kind where
  | set
  | map
  deriving DecidableEq, Repr

def Kind.byte : Kind → UInt8
  | .set => 0
  | .map => 1

def Kind.name : Kind → String
  | .set => "set"
  | .map => "map"

/-- How content is named: stored values are written as bytes, and bytes are digested. -/
structure Addressing (α : Type) where
  encode : α → Bytes
  digest : Bytes → Id

inductive Description (α : Type) where
  | branch (datamap nodemap : UInt32) (values : List α) (children : List Id)
  | collision (values : List α)

namespace Description

variable {α : Type}

/-- The ids of the nodes a description refers to. -/
def children : Description α → List Id
  | .branch _ _ _ children => children
  | .collision _ => []

def values : Description α → List α
  | .branch _ _ values _ => values
  | .collision values => values

def same [BEq α] : Description α → Description α → Bool
  | .branch datamap nodemap values children, .branch datamap' nodemap' values' children' =>
    datamap == datamap' && nodemap == nodemap' && values == values' && children == children'
  | .collision values, .collision values' => values == values'
  | _, _ => false

/-- The bytes that name a description. A collision counts and sorts the digests of its values, as
their order depends on history. -/
def preimage (A : Addressing α) : Description α → Bytes
  | .branch datamap nodemap values children =>
    Bytes.ofText "branch" ++ Bytes.word 4 datamap.toNat ++ Bytes.word 4 nodemap.toNat
      ++ Bytes.word 8 values.length ++ values.flatMap A.encode ++ children.flatMap Id.bytes
  | .collision values =>
    let digests := Id.sort (values.map fun v => A.digest (A.encode v))
    Bytes.ofText "collision" ++ Bytes.word 8 digests.length ++ digests.flatMap Id.bytes

def identity (A : Addressing α) (d : Description α) : Id := A.digest (d.preimage A)

end Description

/-- A saved container: its root node, its number of values and its kind. -/
structure Root where
  node : Id
  size : UInt64
  kind : Kind
  deriving DecidableEq

namespace Root

def preimage (r : Root) : Bytes :=
  Bytes.ofText "root" ++ [r.kind.byte] ++ Bytes.word 8 r.size.toNat ++ r.node.bytes

def identity (digest : Bytes → Id) (r : Root) : Id := digest r.preimage

end Root

end TrieArchive
