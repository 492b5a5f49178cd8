import TrieArchive.Archive.Basic
import TrieArchive.Archive.Error
import TrieArchive.Trie.Basic

/-! Loading rebuilds containers from an archive that need not be trusted: each description must
match its id, and the nodes must form the one trie that the operations would have built. A loader
remembers the nodes it has rebuilt, so that containers with a common subtree share it. -/
namespace TrieArchive

/-- What an archive has to know about one kind of container: its name for content, and the place
of a value in the trie. -/
structure Scheme (α κ : Type) extends Addressing α, Layout α κ where
  kind : Kind

/-- A rebuilt node and its position, which is its depth and the hash bits on the way to it. -/
structure Placed (α : Type) where
  node : Node α
  /-- The number of values at and below the node. -/
  count : Nat
  depth : Nat
  path : Nat

/-- The nodes that were rebuilt, by their ids. -/
abbrev Cache (α : Type) := Std.ExtTreeMap Id (Placed α)

structure Loader (α : Type) where
  archive : Archive α
  cache : Cache α

/-- What remembers nodes while others are rebuilt. -/
class Memory (n : Type → Type) (α : outParam Type) where
  remembered : Id → n (Option (Placed α))
  keep : Id → Placed α → n Unit

instance {m : Type → Type} [Monad m] {α : Type} : Memory (StateT (Cache α) m) α where
  remembered id := return (← get).get? id
  keep id placed := modify (·.insert id placed)

/-- What is reckoned with hashes and positions to check a description. -/
class Reckoning (n : Type → Type) where
  /-- Whether some key occurs twice. -/
  repeatsKey {α κ : Type} [BEq κ] (S : Scheme α κ) : List α → n Bool
  /-- Whether each value of a branch is in the slot of its hash, in slot order, below the path. -/
  inSlots {α κ : Type} (S : Scheme α κ) (depth path : Nat) (datamap : UInt32) : List α → n Bool
  /-- The path through a slot, unless a hash is too short for it. -/
  deeper (depth path slot : Nat) : n (Option Nat)

/-- Rebuilding that remembers and reckons in `n`. What it has remembered stays even where it fails. -/
abbrev RebuildIn (n : Type → Type) (β : Type) := ExceptT LoadError n β

/-- Rebuilding as loaders do it. -/
abbrev Rebuild (α β : Type) := RebuildIn (StateM (Cache α)) β

namespace Rebuild

section Reckoning

variable {α κ : Type} (S : Scheme α κ)

def repeatsKey [BEq κ] : List α → Bool
  | [] => false
  | v :: rest => (rest.any fun w => S.key v == S.key w) || repeatsKey rest

def inSlots (depth path : Nat) (datamap : UInt32) (values : List α) : Bool :=
  values.zipIdx.all fun (v, i) =>
    let hash := S.place v
    let slot := slotAt hash depth
    hash.toNat % 2 ^ shiftAt depth == path && Bitmap.has datamap slot && Bitmap.rank datamap slot == i

def deeper (depth path slot : Nat) : Option Nat :=
  let path := path + slot * 2 ^ shiftAt depth
  if 2 ^ 64 ≤ path then none else some path

instance {σ : Type} : Reckoning (StateM σ) where
  repeatsKey S values := pure (repeatsKey S values)
  inSlots S depth path datamap values := pure (inSlots S depth path datamap values)
  deeper depth path slot := pure (deeper depth path slot)

end Reckoning

variable {n : Type → Type} [Monad n] {α κ : Type}

def reject {β : Type} (what : Corruption) : RebuildIn n β := throw (.corruption what)

section Archive

variable (S : Scheme α κ) (archive : Archive α)

/-- A node met at a position: remembered, or looked up, checked and built. -/
def visit [Memory n α] (depth path : Nat) (parent id : Id) (build : Description α → RebuildIn n (Node α × Nat)) :
    RebuildIn n (Placed α) := do
  match ← ExceptT.lift (Memory.remembered id) with
  | some placed =>
    if placed.depth = depth ∧ placed.path = path then return placed else reject (.twoPositions id)
  | none =>
    match archive.node? id with
    | none => throw (.danglingReference parent id)
    | some description =>
      if description.identity S.toAddressing ≠ id then reject (.wrongIdentity id)
      let (node, count) ← build description
      let placed : Placed α := ⟨node, count, depth, path⟩
      ExceptT.lift (Memory.keep id placed)
      return placed

/-- The container saved under `id`. `top` rebuilds its root node. -/
def rooted (top : (parent id : Id) → RebuildIn n (Placed α)) (id : Id) : RebuildIn n (Trie α) := do
  match archive.root? id with
  | none => throw (.notFound id)
  | some root =>
    if root.kind ≠ S.kind then throw (.kindMismatch id S.kind root.kind)
    if root.identity S.digest ≠ id then reject (.rootUnderWrongId id)
    let placed ← top id root.node
    if placed.count ≠ root.size.toNat then reject (.wrongSize id root.size.toNat placed.count)
    return ⟨placed.node, placed.count⟩

end Archive

variable [Reckoning n]

/-- A collision node from its values. -/
def collision [BEq κ] (S : Scheme α κ) (id : Id) (path : Nat) (values : List α) : RebuildIn n (Node α × Nat) := do
  if values.length < 2 then reject (.smallCollision id)
  if values.any fun v => (S.place v).toNat != path then reject (.foreignHash id)
  if ← ExceptT.lift (Reckoning.repeatsKey S values) then reject (.repeatedKey id)
  return (.collision (UInt64.ofNat path) values, values.length)

/-- The child in a slot. `below` rebuilds a node one level further down. -/
def child (below : (path : Nat) → Id → RebuildIn n (Placed α)) (id : Id) (depth path : Nat)
    (slot : Nat) (childId : Id) : RebuildIn n (Placed α) := do
  match ← ExceptT.lift (Reckoning.deeper depth path slot) with
  | none => reject (.slotBeyondHash id)
  | some path =>
    let placed ← below path childId
    if placed.count < 2 then reject (.smallSubtree id placed.count)
    return placed

/-- The values below a branch: its own and those its children were counted to hold. -/
def countBelow (own : Nat) (placed : List (Placed α)) : Nat := placed.foldl (fun n p => n + p.count) own

/-- A branch from its description. -/
def branch (S : Scheme α κ) (below : (path : Nat) → Id → RebuildIn n (Placed α)) (id : Id) (depth path : Nat)
    (datamap nodemap : UInt32) (values : List α) (children : List Id) : RebuildIn n (Node α × Nat) := do
  if datamap &&& nodemap ≠ 0 ∨ values.length ≠ Bitmap.count datamap ∨ children.length ≠ Bitmap.count nodemap then
    reject (.inconsistentSlots id)
  if !(← ExceptT.lift (Reckoning.inSlots S depth path datamap values)) then reject (.misplacedValue id)
  let placed ← ((Bitmap.slots nodemap).zip children).mapM fun (slot, childId) =>
    child below id depth path slot childId
  return (.branch datamap nodemap values (placed.map (·.node)), countBelow values.length placed)

variable [Memory n α] [BEq κ] (S : Scheme α κ) (archive : Archive α)

/-- The node stored under `id`, which `parent` refers to. `left` levels of branches may still follow. -/
def node : (left depth path : Nat) → (parent id : Id) → RebuildIn n (Placed α)
  | 0, depth, path, parent, id =>
    visit S archive depth path parent id fun
      | .branch .. => reject (.branchTooDeep id)
      | .collision values => collision S id path values
  | left + 1, depth, path, parent, id =>
    visit S archive depth path parent id fun
      | .branch datamap nodemap values children =>
        branch S (fun path child => node left (depth + 1) path id child) id depth path datamap nodemap values children
      | .collision _ => reject (.collisionTooHigh id)

/-- The container saved under `id`, with the root node at the root of a trie. -/
def container (id : Id) : RebuildIn n (Trie α) := rooted S archive (node S archive branchLevels 0 0) id

end Rebuild

namespace Loader

variable {α κ : Type} [BEq κ]

def ofArchive (archive : Archive α) : Loader α := ⟨archive, ∅⟩

/-- The container saved under `id`, and the loader with the nodes rebuilt on the way. -/
def load (S : Scheme α κ) (l : Loader α) (id : Id) : Except LoadError (Trie α) × Loader α :=
  let (result, cache) := (Rebuild.container S l.archive id : Rebuild α (Trie α)).run.run l.cache
  (result, { l with cache })

def listing (l : Loader α) : String :=
  Listing.record "Loader" [("roots", toString l.archive.roots.size),
    ("nodes", toString l.archive.nodes.size), ("cached", toString l.cache.size)]

end Loader

end TrieArchive
