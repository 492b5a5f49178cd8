import TrieArchive.Frame.Input

/-! Blocks of a frame: bytes stored as they are, one byte repeated, or coded content. Of coded
content only literals that are stored or repeated, and no sequences, are understood. -/
namespace TrieArchive.Frame

inductive Coding where
  | stored
  | repeated
  | coded
  deriving DecidableEq, Repr

structure BlockHead where
  last : Bool
  coding : Coding
  size : Nat

namespace BlockHead

/-- The number of bytes behind the head. -/
def length (b : BlockHead) : Nat := if b.coding = .repeated then 1 else b.size

def read : Reader BlockHead := do
  let head ← word 3
  let coding ← match head / 2 % 4 with
    | 0 => pure Coding.stored
    | 1 => pure .repeated
    | 2 => pure .coded
    | _ => throw .malformed
  return { last := head % 2 = 1, coding, size := head / 8 }

/-- The number of literals and the bytes that state it, from the front of a coded block. -/
def literalHead (s : Bytes) : Nat × Nat :=
  match Bytes.value (s.take 1) / 4 % 4 with
  | 1 => (Bytes.value (s.take 2) / 16, 2)
  | 3 => (Bytes.value (s.take 3) / 16, 3)
  | _ => (Bytes.value (s.take 1) / 8, 1)

/-- Whether the bytes behind the literals say that there are no sequences. -/
def noSequences (s : Bytes) : Bool := s == [0] || s == [0x80, 0]

/-- The content of a coded block of at most `limit` bytes. -/
def literals? (limit : Nat) (s : Bytes) : Option Bytes :=
  let (count, width) := literalHead s
  if s.length < width ∨ limit < count then none
  else
    match Bytes.value (s.take 1) % 4, s.drop width with
    | 0, rest => if count ≤ rest.length ∧ noSequences (rest.drop count) then some (rest.take count) else none
    | 1, b :: rest => if noSequences rest then some (List.replicate count b) else none
    | _, _ => none

/-- The content of a block, of at most `limit` bytes, from the bytes behind its head. -/
def content? (limit : Nat) (b : BlockHead) (s : Bytes) : Option Bytes :=
  match b.coding with
  | .stored => if b.size ≤ limit then some s else none
  | .repeated => if b.size ≤ limit then some (List.replicate b.size (s.headD 0)) else none
  | .coded => literals? limit s

end BlockHead

end TrieArchive.Frame
