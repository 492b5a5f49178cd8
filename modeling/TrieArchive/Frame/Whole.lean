import TrieArchive.Frame.Header
import TrieArchive.Frame.Block
import TrieArchive.Hash.Xxh64

/-! Decoding a small frame at once. Its blocks are not bound to its window, but together they must
give exactly the stated content. -/
namespace TrieArchive.Frame

def checksumOf (content : Bytes) : Nat := (Xxh64.hash content).toNat % 2 ^ 32

/-- A frame that is there from its magic number to its end. -/
structure Whole where
  header : Header
  blocks : List (BlockHead × Bytes)
  checksum : Option Nat

namespace Whole

/-- The largest stated content that is decoded at once. -/
def limit : Nat := 2 ^ 13

/-- The blocks up to the last one. Each takes bytes, which bound their number. -/
def readBlocks : (bound : Bytes) → (before : List (BlockHead × Bytes)) → Reader (List (BlockHead × Bytes))
  | [], _ => throw .truncated
  | _ :: bound, before => do
    let head ← BlockHead.read
    let bytes ← take head.length
    if head.last then return ((head, bytes) :: before).reverse
    else readBlocks bound ((head, bytes) :: before)

def read : Reader Whole := do
  let _ ← take 4
  let header ← Header.read
  let blocks ← readBlocks (← get).rest []
  let checksum ← if header.checksum then some <$> word 4 else pure none
  return { header, blocks, checksum }

/-- The content of blocks that may give `room` bytes. -/
def contentOf (h : Header) : (room : Nat) → List (BlockHead × Bytes) → Option Bytes
  | _, [] => some []
  | room, (head, bytes) :: rest => do
    if head.coding = .coded ∧ h.blockLimit < head.size then none
    let limit := if head.coding = .coded then min room h.blockLimit else room
    let first ← head.content? limit bytes
    let others ← contentOf h (room - first.length) rest
    return first ++ others

/-- The content of the frame, which has the stated size. -/
def content (w : Whole) (size : Nat) : Except Fault Bytes :=
  match contentOf w.header size w.blocks with
  | none => .error .malformed
  | some content =>
    if content.length = size ∧ w.checksum.all (· == checksumOf content) then .ok content
    else .error .malformed

end Whole

end TrieArchive.Frame
