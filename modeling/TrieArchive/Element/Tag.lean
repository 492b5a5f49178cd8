import TrieArchive.Element.Hashing
import TrieArchive.Element.Listing
import TrieArchive.Element.Binary
import TrieArchive.Json.Form

/-! Numbered notes. The number is the key: notes with one number are equal whatever they say. -/
namespace TrieArchive

structure Tag where
  id : UInt32
  note : String
  deriving Repr

namespace Tag

instance : BEq Tag := ⟨fun a b => a.id == b.id⟩

instance : HashInput Tag := ⟨fun t => HashInput.bytes t.id⟩

instance : Listing Tag :=
  ⟨fun t => Listing.record "Tag" [("id", Listing.text t.id), ("note", Listing.text t.note)]⟩

instance : Binary Tag where
  encode t := Binary.encode t.id ++ Binary.encode t.note
  decode := do return ⟨← Binary.decode, ← Binary.decode⟩

structure Unfilled where
  id : Option UInt32
  note : Option String

instance : JsonForm Tag where
  toJson t := .obj [("id", JsonForm.toJson t.id), ("note", JsonForm.toJson t.note)]
  read := Json.Reader.record
    (fun depth => [⟨"id", fun s => s.id.isSome, fun s => do return { s with id := some (← JsonForm.read depth) }⟩,
     ⟨"note", fun s => s.note.isSome, fun s => do return { s with note := some (← JsonForm.read depth) }⟩])
    (⟨none, none⟩ : Unfilled) fun s => do return ⟨← s.id, ← s.note⟩

end Tag

end TrieArchive
