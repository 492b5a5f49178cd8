import TrieArchive.Archive.Snapshot
import TrieArchive.Json.Form

/-! The JSON form of archives. Nodes and roots are objects keyed by the texts of their ids, in id
order; of members with one id the last one counts. -/
namespace TrieArchive

open Json.Reader

def Id.ofText? (s : String) : Option Id :=
  match Id.parse s with
  | .ok id => some id
  | .error _ => none

instance : JsonForm Id where
  toJson id := .str id.hex
  read _ := do
    match Id.ofText? (← text) with
    | some id => return id
    | none => throw .unfit

instance : JsonForm Kind where
  toJson
    | .set => .str "Set"
    | .map => .str "Map"
  read := alternative fun _ =>
    [⟨"Set", some .set, do null; return .set⟩, ⟨"Map", some .map, do null; return .map⟩]

structure Root.Unfilled where
  node : Option Id
  size : Option UInt64
  kind : Option Kind

instance : JsonForm Root where
  toJson r := .obj [("node", JsonForm.toJson r.node), ("size", JsonForm.toJson r.size),
    ("kind", JsonForm.toJson r.kind)]
  read := record
    (fun depth => [⟨"node", fun s => s.node.isSome, fun s => do return { s with node := some (← JsonForm.read depth) }⟩,
     ⟨"size", fun s => s.size.isSome, fun s => do return { s with size := some (← JsonForm.read depth) }⟩,
     ⟨"kind", fun s => s.kind.isSome, fun s => do return { s with kind := some (← JsonForm.read depth) }⟩])
    (⟨none, none, none⟩ : Root.Unfilled) fun s => do return ⟨← s.node, ← s.size, ← s.kind⟩

variable {α : Type} [JsonForm α]

structure Description.UnfilledBranch (α : Type) where
  datamap : Option UInt32
  nodemap : Option UInt32
  values : Option (List α)
  children : Option (List Id)

def Description.readBranch : (depth : Nat) → Json.Reader (Description α) := record
  (fun depth => [
    ⟨"datamap", fun s => s.datamap.isSome, fun s => do return { s with datamap := some (← JsonForm.read depth) }⟩,
    ⟨"nodemap", fun s => s.nodemap.isSome, fun s => do return { s with nodemap := some (← JsonForm.read depth) }⟩,
    ⟨"values", fun s => s.values.isSome, fun s => do return { s with values := some (← JsonForm.read depth) }⟩,
    ⟨"children", fun s => s.children.isSome, fun s => do return { s with children := some (← JsonForm.read depth) }⟩])
  (⟨none, none, none, none⟩ : UnfilledBranch α)
  fun s => do return .branch (← s.datamap) (← s.nodemap) (← s.values) (← s.children)

def Description.readCollision : (depth : Nat) → Json.Reader (Description α) := record
  (fun depth => [⟨"values", Option.isSome, fun _ => do return some (← JsonForm.read depth)⟩])
  (none : Option (List α)) (·.map .collision)

instance : JsonForm (Description α) where
  toJson
    | .branch datamap nodemap values children =>
      .obj [("Branch", .obj [("datamap", JsonForm.toJson datamap), ("nodemap", JsonForm.toJson nodemap),
        ("values", JsonForm.toJson values), ("children", JsonForm.toJson children)])]
    | .collision values => .obj [("Collision", .obj [("values", JsonForm.toJson values)])]
  read := alternative fun depth =>
    [⟨"Branch", none, Description.readBranch depth⟩, ⟨"Collision", none, Description.readCollision depth⟩]

instance : JsonForm (Std.ExtTreeMap Id α) where
  toJson m := .obj (m.toList.map fun (id, a) => (id.hex, JsonForm.toJson a))
  read depth := do
    let entries ← object Id.ofText? (JsonForm.read (α := α)) depth
    return entries.foldl (fun m (id, a) => m.insert id a) ∅

structure Snapshot.Unfilled (α : Type) where
  version : Option UInt32
  nodes : Option (Std.ExtTreeMap Id (Description α))
  roots : Option (Std.ExtTreeMap Id Root)

instance : JsonForm (Snapshot α) where
  toJson s := .obj [("version", JsonForm.toJson s.version), ("nodes", JsonForm.toJson s.nodes),
    ("roots", JsonForm.toJson s.roots)]
  read := record
    (fun depth => [
      ⟨"version", fun s => s.version.isSome, fun s => do return { s with version := some (← JsonForm.read depth) }⟩,
      ⟨"nodes", fun s => s.nodes.isSome, fun s => do return { s with nodes := some (← JsonForm.read depth) }⟩,
      ⟨"roots", fun s => s.roots.isSome, fun s => do return { s with roots := some (← JsonForm.read depth) }⟩])
    (⟨none, none, none⟩ : Snapshot.Unfilled α) fun s => do
      let version ← s.version
      let nodes ← s.nodes
      let roots ← s.roots
      return { version, nodes, roots }

end TrieArchive
