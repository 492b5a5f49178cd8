import TrieArchive.Frame.Whole

/-! Decoding a frame piece by piece through a buffer. Blocks are bound to the window, and the
buffer may be too small for content that the header does not announce. A last block without bytes
ends the frame whatever its size so far. -/
namespace TrieArchive.Frame

/-- The sizes of a decoder's buffers, kept from frame to frame, and the number of frames in a row
that needed far less. -/
structure Workspace where
  input : Nat
  output : Nat
  oversized : Nat

namespace Workspace

def empty : Workspace := ⟨0, 0, 0⟩

/-- Buffers that are too small are made anew, and so are those too large for many frames in a row. -/
def fit (w : Workspace) (input output : Nat) : Workspace :=
  let oversized := if 3 * (input + output) ≤ w.input + w.output then w.oversized + 1 else 0
  if w.input < input ∨ w.output < output ∨ 128 ≤ oversized then ⟨input, output, oversized⟩
  else ⟨w.input, w.output, oversized⟩

def smallestWindow : Nat := 2 ^ 10

/-- The widest window that a decoder keeps. -/
def widestWindow : Nat := 2 ^ 27 + 1

/-- What a frame needs: room for its content, or for the window, two blocks and a margin. -/
def fitFrame (w : Workspace) (h : Header) : Workspace :=
  let room := max h.window smallestWindow + 2 * h.blockLimit + 64
  w.fit (max h.blockLimit 4) (match h.contentSize with | some size => min size room | none => room)

/-- A frame to be skipped is taken for one of stated content without blocks. -/
def fitSkipped (w : Workspace) (size : Nat) : Workspace := w.fit 4 (min size (smallestWindow + 64))

end Workspace

/-- What has been decoded of a frame. -/
structure Progress where
  /-- Where the buffer is written next. -/
  start : Nat
  size : Nat
  /-- The pieces of content, the last one first. -/
  pieces : List Bytes

namespace Progress

variable (h : Header) (capacity : Nat)

def initial : Progress := ⟨0, 0, []⟩

def content (p : Progress) : Bytes := p.pieces.reverse.flatten

/-- Where writing goes on. A buffer that cannot hold all content is filled from the front again when
the next block might not fit. -/
def wrap (next : Nat) : Nat :=
  if h.contentSize.all (capacity < ·) ∧ capacity < next + h.blockLimit then 0 else next

def add (p : Progress) (piece : Bytes) : Reader Progress :=
  if capacity - p.start < piece.length then throw .malformed
  else return ⟨wrap h capacity (p.start + piece.length), p.size + piece.length, piece :: p.pieces⟩

/-- The bytes of a stored block are written as they arrive. -/
def addStored : (bound left : Nat) → Progress → Reader Progress
  | _, 0, p => return p
  | 0, _, _ => throw .truncated
  | bound + 1, left, p => do
    let piece ← takePart left
    addStored bound (left - piece.length) (← p.add h capacity piece)

/-- The content of a block that is not empty. -/
def addBlock (head : BlockHead) (p : Progress) : Reader Progress := do
  if head.coding = .stored then p.addStored h capacity head.size head.size
  else
    let bytes ← take head.length
    match head.content? h.blockLimit bytes with
    | some piece => p.add h capacity piece
    | none => throw .malformed

/-- The blocks up to the last one. Each takes bytes, which bound their number. -/
def addBlocks : (bound : Bytes) → Progress → Reader Progress
  | [], _ => throw .truncated
  | _ :: bound, p => do
    let head ← BlockHead.read
    if h.blockLimit < head.length then throw .malformed
    if head.length = 0 then
      if head.last then return p else addBlocks bound p
    else
      let p ← p.addBlock h capacity head
      if head.last then
        if h.contentSize.any (· ≠ p.size) then throw .malformed
        return p
      else addBlocks bound p

end Progress

/-- A frame behind its header. -/
def stream (w : Workspace) (h : Header) : Reader (Bytes × Workspace) := do
  if Workspace.widestWindow < h.window then throw .malformed
  let w := w.fitFrame h
  let p ← Progress.initial.addBlocks h w.output (← get).rest
  let content := p.content
  if h.checksum then
    if (← word 4) ≠ checksumOf content then throw .malformed
  return (content, w)

end TrieArchive.Frame
