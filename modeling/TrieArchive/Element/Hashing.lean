import TrieArchive.Hash.Sip

/-! Hashes of keys. A hash places values in archives, so it is fixed by the value alone: SipHash
over a byte form in which numbers stand low byte first at their own width. -/
namespace TrieArchive

class StableHash (α : Type) where
  hash : α → UInt64

/-- Equal keys have equal hashes. -/
class LawfulStableHash (α : Type) [BEq α] [StableHash α] : Prop where
  hash_eq (a b : α) : a == b → StableHash.hash a = StableHash.hash b

/-- The bytes of a value that are hashed. -/
class HashInput (α : Type) where
  bytes : α → Bytes

namespace HashInput

instance {α : Type} [HashInput α] : StableHash α := ⟨fun a => Sip.hash (bytes a)⟩

instance : HashInput UInt8 := ⟨fun n => Bytes.word 1 n.toNat⟩
instance : HashInput UInt16 := ⟨fun n => Bytes.word 2 n.toNat⟩
instance : HashInput UInt32 := ⟨fun n => Bytes.word 4 n.toNat⟩
instance : HashInput UInt64 := ⟨fun n => Bytes.word 8 n.toNat⟩
instance : HashInput Int8 := ⟨fun n => Bytes.word 1 n.toUInt8.toNat⟩
instance : HashInput Int16 := ⟨fun n => Bytes.word 2 n.toUInt16.toNat⟩
instance : HashInput Int32 := ⟨fun n => Bytes.word 4 n.toUInt32.toNat⟩
instance : HashInput Int64 := ⟨fun n => Bytes.word 8 n.toUInt64.toNat⟩
instance : HashInput (BitVec 128) := ⟨fun n => Bytes.word 16 n.toNat⟩
instance : HashInput Bool := ⟨fun b => [if b then 1 else 0]⟩
instance : HashInput Char := ⟨fun c => Bytes.word 4 c.toNat⟩

/-- No text holds the byte that ends it, so one text never starts another. -/
instance : HashInput String := ⟨fun s => Bytes.ofText s ++ [0xff]⟩

instance : HashInput Unit := ⟨fun _ => []⟩

variable {α β : Type} [HashInput α] [HashInput β]

instance : HashInput (List α) := ⟨fun l => Bytes.word 8 l.length ++ l.flatMap bytes⟩

instance : HashInput (α × β) := ⟨fun p => bytes p.1 ++ bytes p.2⟩

instance : HashInput (Option α) where
  bytes
    | none => Bytes.word 8 0
    | some a => Bytes.word 8 1 ++ bytes a

end HashInput

end TrieArchive
