import TrieArchive.Archive.Snapshot
import TrieArchive.Element.Binary

/-! The binary form of archives. Ids are written as texts, and maps as lists of their entries in id
order; of entries with one id the last one counts. -/
namespace TrieArchive

instance : Binary Id where
  encode id := Binary.encode id.hex
  decode := do
    match Id.parse (← Binary.decode) with
    | .ok id => return id
    | .error _ => throw .refused

instance : Binary Kind where
  encode k := Bytes.word 4 k.byte.toNat
  decode := do
    match ← Binary.word 4 with
    | 0 => return .set
    | 1 => return .map
    | _ => throw .refused

instance : Binary Root where
  encode r := Binary.encode r.node ++ Binary.encode r.size ++ Binary.encode r.kind
  decode := do return ⟨← Binary.decode, ← Binary.decode, ← Binary.decode⟩

variable {α : Type} [Binary α]

instance : Binary (Description α) where
  encode
    | .branch datamap nodemap values children =>
      Bytes.word 4 0 ++ Binary.encode datamap ++ Binary.encode nodemap ++ Binary.encode values
        ++ Binary.encode children
    | .collision values => Bytes.word 4 1 ++ Binary.encode values
  decode := do
    match ← Binary.word 4 with
    | 0 => return .branch (← Binary.decode) (← Binary.decode) (← Binary.decode) (← Binary.decode)
    | 1 => return .collision (← Binary.decode)
    | _ => throw .refused

instance : Binary (Std.ExtTreeMap Id α) where
  encode m := Binary.encode m.toList
  decode := do
    let entries : List (Id × α) ← Binary.decode
    return entries.foldl (fun m (id, a) => m.insert id a) ∅

instance : Binary (Snapshot α) where
  encode s := Binary.encode s.version ++ Binary.encode s.nodes ++ Binary.encode s.roots
  decode := do
    let version ← Binary.decode
    let nodes ← Binary.decode
    let roots ← Binary.decode
    return { version, nodes, roots }

/-- How values with a binary form are named in archives. -/
def Addressing.blake3 : Addressing α := ⟨Binary.encode, Id.blake3⟩

end TrieArchive
