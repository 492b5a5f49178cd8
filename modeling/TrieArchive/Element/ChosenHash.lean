import TrieArchive.Element.Hashing
import TrieArchive.Element.Listing
import TrieArchive.Element.Binary
import TrieArchive.Json.Form

/-! Keys that bring the number their hash is made from, so that different keys can share a hash. -/
namespace TrieArchive

structure ChosenHash where
  id : UInt32
  forcedHash : UInt64
  deriving DecidableEq, Repr

namespace ChosenHash

/-- Only the chosen number is hashed; equality takes both fields. -/
instance : HashInput ChosenHash := ⟨fun k => HashInput.bytes k.forcedHash⟩

instance : Listing ChosenHash :=
  ⟨fun k => Listing.record "CKey" [("id", Listing.text k.id), ("forced_hash", Listing.text k.forcedHash)]⟩

instance : Binary ChosenHash where
  encode k := Binary.encode k.id ++ Binary.encode k.forcedHash
  decode := do return ⟨← Binary.decode, ← Binary.decode⟩

structure Unfilled where
  id : Option UInt32
  forcedHash : Option UInt64

instance : JsonForm ChosenHash where
  toJson k := .obj [("id", JsonForm.toJson k.id), ("forced_hash", JsonForm.toJson k.forcedHash)]
  read := Json.Reader.record
    (fun depth => [⟨"id", fun s => s.id.isSome, fun s => do return { s with id := some (← JsonForm.read depth) }⟩,
     ⟨"forced_hash", fun s => s.forcedHash.isSome,
       fun s => do return { s with forcedHash := some (← JsonForm.read depth) }⟩])
    (⟨none, none⟩ : Unfilled) fun s => do return ⟨← s.id, ← s.forcedHash⟩

end ChosenHash

end TrieArchive
