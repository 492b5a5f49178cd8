import TrieArchive.Trie.Node

/-! A cursor walks the values of a trie one at a time, keeping the nodes still to be visited. -/
namespace TrieArchive

namespace Node

variable {α : Type}

mutual
/-- The number of nodes, which bounds how often a cursor moves on. -/
def nodes : Node α → Nat
  | .branch _ _ _ children => 1 + nodesAll children
  | .collision _ _ => 1
def nodesAll : List (Node α) → Nat
  | [] => 0
  | node :: rest => node.nodes + nodesAll rest
end

theorem nodes_eq (node : Node α) : node.nodes = 1 + nodesAll node.children := by
  cases node <;> simp [nodes, children, nodesAll]

theorem nodesAll_append (a b : List (Node α)) : nodesAll (a ++ b) = nodesAll a + nodesAll b := by
  induction a with
  | nil => simp [nodesAll]
  | cons node rest ih => simp [nodesAll, ih, Nat.add_assoc]

end Node

structure Cursor (α : Type) where
  /-- Nodes not yet visited, the next one first. -/
  pending : List (Node α)
  /-- Values of the node being visited that are still to come. -/
  values : List α
  remaining : Nat

namespace Cursor

variable {α : Type}

def ofRoot (root : Node α) (size : Nat) : Cursor α := ⟨root.children, root.values, size⟩

/-- The next value, with the nodes and values left behind it. -/
def advance : (pending : List (Node α)) → (values : List α) → Option (α × List (Node α) × List α)
  | pending, v :: values => some (v, pending, values)
  | node :: pending, [] => advance (node.children ++ pending) node.values
  | [], [] => none
termination_by pending => Node.nodesAll pending
decreasing_by simp [Node.nodesAll, Node.nodesAll_append, Node.nodes_eq]

def next? (c : Cursor α) : Option (α × Cursor α) :=
  (advance c.pending c.values).map fun (v, pending, values) => (v, ⟨pending, values, c.remaining - 1⟩)

/-- The answer to one call, and the cursor behind it. A cursor that gives nothing has nothing left to visit. -/
def next (c : Cursor α) : Option α × Cursor α :=
  match c.next? with
  | some (v, c) => (some v, c)
  | none => (none, ⟨[], [], c.remaining⟩)

/-- At least and at most how many values are said to be still to come. -/
def sizeHint (c : Cursor α) : Nat × Option Nat := (c.remaining, some c.remaining)

/-- Up to `limit` values, and the cursor behind them. -/
def take : (limit : Nat) → Cursor α → List α × Cursor α
  | 0, c => ([], c)
  | limit + 1, c =>
    match c.next? with
    | some (v, c) =>
      let (values, c) := take limit c
      (v :: values, c)
    | none => ([], c)

end Cursor

end TrieArchive
