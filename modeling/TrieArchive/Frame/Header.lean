import TrieArchive.Frame.Input

/-! Frame headers: the window that a decoder has to keep, the size of the content where it is
stated, and whether a checksum follows. -/
namespace TrieArchive.Frame

structure Header where
  window : Nat
  contentSize : Option Nat
  checksum : Bool

namespace Header

def magic : Bytes := [0x28, 0xb5, 0x2f, 0xfd]

/-- The most bytes that any block yields. -/
def largestBlock : Nat := 2 ^ 17

/-- The most bytes that a block of this frame yields. -/
def blockLimit (h : Header) : Nat := min h.window largestBlock

/-- The window of a frame that does not lie in a single segment: a power of two and eighths of it. -/
def windowOf (byte : Nat) : Nat := 2 ^ (byte / 8 + 10) + 2 ^ (byte / 8 + 10) / 8 * (byte % 8)

/-- The largest power of two that a window may start from. -/
def largestLog : Nat := 31

/-- A size with all bits set states nothing. -/
def statedSize (size : Nat) : Option Nat := if size = 2 ^ 64 - 1 then none else some size

/-- The header behind the magic number. Its length is known from its first byte, and what it says is
checked once all of it is there. -/
def read : Reader Header := do
  let descriptor ← word 1
  let single := descriptor.testBit 5
  let sizeBytes := match descriptor / 64 with
    | 0 => if single then 1 else 0
    | 1 => 2
    | 2 => 4
    | _ => 8
  let dictionaryBytes := match descriptor % 4 with
    | 0 => 0
    | 1 => 1
    | 2 => 2
    | _ => 4
  let windowByte ← word (if single then 0 else 1)
  let dictionary ← word dictionaryBytes
  let size ← word sizeBytes
  if descriptor.testBit 3 ∨ dictionary ≠ 0 ∨ largestLog < windowByte / 8 + 10 then throw .malformed
  let size := if sizeBytes = 2 then size + 256 else size
  return {
    window := if single then size else windowOf windowByte
    contentSize := if sizeBytes = 0 then none else statedSize size
    checksum := descriptor.testBit 2 }

end Header

end TrieArchive.Frame
