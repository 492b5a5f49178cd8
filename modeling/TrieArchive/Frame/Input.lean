import TrieArchive.Bytes

/-! The input of a decoder of compressed frames. It arrives in parts of one size, and a decoder can
tell how much of it is at hand. -/
namespace TrieArchive.Frame

inductive Fault where
  | truncated
  | malformed
  deriving DecidableEq, Repr

/-- The largest block and its head. -/
def partSize : Nat := 2 ^ 17 + 3

structure Input where
  rest : Bytes
  /-- The number of bytes before the rest. -/
  offset : Nat

namespace Input

/-- Where the part ends that holds the next byte. -/
def partEnd (i : Input) : Nat := i.offset + (partSize - i.offset % partSize)

end Input

abbrev Reader := StateT Input (Except Fault)

def take (n : Nat) : Reader Bytes := fun i =>
  match Bytes.split? n i.rest with
  | some (taken, rest) => .ok (taken, ⟨rest, i.offset + n⟩)
  | none => .error .truncated

def word (width : Nat) : Reader Nat := Bytes.value <$> take width

/-- Up to `n` bytes, as many as are at hand. -/
def takePart (n : Nat) : Reader Bytes := fun i =>
  match i.rest.take (min n (i.partEnd - i.offset)) with
  | [] => .error .truncated
  | taken => .ok (taken, ⟨i.rest.drop taken.length, i.offset + taken.length⟩)

end TrieArchive.Frame
