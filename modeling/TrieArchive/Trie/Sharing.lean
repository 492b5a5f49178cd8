import TrieArchive.Trie.Basic
import TrieArchive.Id
import Std.Data.HashSet

/-! Which nodes different versions of a trie have in common. An outline gives each node of a trie
the label of the place in memory that holds it. An edit may change a node in place only while
nothing else refers to it; from the first node on its path that something else keeps, it works on
copies. Nodes off the path are never copied. -/
namespace TrieArchive

inductive Label where
  /-- Made by an edit. -/
  | made (serial : Nat)
  /-- Rebuilt by a loader, which makes each node once. -/
  | rebuilt (loader : Nat) (id : Id)
  deriving DecidableEq

instance : Hashable Label where
  hash
    | .made serial => mixHash 0 (hash serial)
    | .rebuilt loader id => mixHash (hash loader) (hash (id.bytes.take 8))

inductive Outline where
  | node (label : Label) (children : List Outline)

namespace Outline

instance : Inhabited Outline := ⟨.node (.made 0) []⟩

def label : Outline → Label
  | .node label _ => label

def children : Outline → List Outline
  | .node _ children => children

mutual
/-- Adds the labels of all nodes. -/
def collect (seen : Std.HashSet Label) : Outline → Std.HashSet Label
  | .node label children => collectAll (seen.insert label) children
def collectAll (seen : Std.HashSet Label) : List Outline → Std.HashSet Label
  | [] => seen
  | o :: rest => collectAll (o.collect seen) rest
end

def labels (o : Outline) : Std.HashSet Label := o.collect ∅

/-- How many nodes two tries have, and how many of them are the same. -/
def overlap (a b : Outline) : Nat × Nat × Nat :=
  let inA := a.labels
  let inB := b.labels
  (inA.size, inB.size, inA.fold (fun n label => if inB.contains label then n + 1 else n) 0)

/-- The next unused label. -/
def newLabel : StateM Nat Label := fun serial => (.made serial, serial + 1)

variable {α : Type}

mutual
/-- The outline of a trie whose nodes are all new. -/
def fresh : Node α → StateM Nat Outline
  | .branch _ _ _ children => do return .node (← newLabel) (← freshAll children)
  | .collision _ _ => do return .node (← newLabel) []
def freshAll : List (Node α) → StateM Nat (List Outline)
  | [] => return []
  | top :: rest => do return (← fresh top) :: (← freshAll rest)
end

/-- The outline after an edit along `hash`. `kept` tells which nodes something else refers to. -/
def edit (kept : Label → Bool) (hash : UInt64) :
    (left depth : Nat) → (before : Node α) → Outline → (after : Node α) → StateM Nat Outline
  | left, depth, .branch _ oldmap _ oldNodes, .node label old, .branch _ nodemap _ nodes => do
    let label ← if kept label then newLabel else pure label
    let children ← ((Bitmap.slots nodemap).zip nodes).mapM fun (slot, below) => do
      let position := Bitmap.rank oldmap slot
      match left, Bitmap.has oldmap slot, oldNodes[position]?, old[position]? with
      | left + 1, true, some oldNode, some o =>
        if slot = slotAt hash depth then edit kept hash left (depth + 1) oldNode o below else pure o
      | 0, true, _, some o => pure o
      | _, _, _, _ => fresh below
    return .node label children
  | _, _, _, .node label _, .collision _ _ => do
    return .node (← if kept label then newLabel else pure label) []
  | _, _, _, _, after => fresh after

end Outline

namespace Node

variable {α : Type} [BEq α]

mutual
/-- Comparing nodes of which the labels are known: under one label is one node, which is not looked into. -/
def sameShared : Node α → Outline → Node α → Outline → Bool
  | .branch datamap nodemap values children, o, .branch datamap' nodemap' values' children', o' =>
    o.label == o'.label || datamap == datamap' && nodemap == nodemap' && values == values' &&
      sameSharedAll children o.children children' o'.children
  | .collision hash values, o, .collision hash' values', o' =>
    o.label == o'.label || hash == hash' && values.length == values'.length &&
      values.all fun v => values'.any (· == v)
  | _, o, _, o' => o.label == o'.label
def sameSharedAll : List (Node α) → List Outline → List (Node α) → List Outline → Bool
  | child :: rest, o :: outlines, child' :: rest', o' :: outlines' =>
    child.sameShared o child' o' && sameSharedAll rest outlines rest' outlines'
  | _, _, _, _ => true
end

end Node

/-- Equal sizes, then equal slots but for what two tries have in common. -/
def Trie.sameShared {α : Type} [BEq α] (a : Trie α) (o : Outline) (b : Trie α) (o' : Outline) : Bool :=
  a.size == b.size && a.root.sameShared o b.root o'

end TrieArchive
