import TrieArchive.File.Compression
import TrieArchive.Frame.Stream

/-! Zstandard frames whose blocks are stored or repeat one byte. Writing stores; reading takes any
number of frames and skippable frames. -/
namespace TrieArchive.Frame

def startsLike (s : Bytes) : Bool := s.take 4 == Header.magic.take (s.take 4).length

/-- Whether the bytes start like a frame to be skipped, whose first byte is one of sixteen. -/
def startsSkippable : Bytes → Bool
  | [] => true
  | b :: rest => b.toNat / 16 == 5 && rest.take 3 == ([0x2a, 0x4d, 0x18] : Bytes).take (rest.take 3).length

/-- The frame that starts here, if it is decoded at once: its content is small, and all of it is at
hand. Answers the content and what follows. -/
def atOnce? (h : Header) (i : Input) : Option (Except Fault (Bytes × Input)) :=
  match h.contentSize with
  | none => none
  | some size =>
    if Whole.limit < size then none
    else
      match Whole.read.run i with
      | .error _ => none
      | .ok (whole, following) =>
        if i.partEnd < following.offset then none
        else some ((whole.content size).map (·, following))

/-- One frame from its magic number on. -/
def frame (w : Workspace) : Reader (Bytes × Workspace) := do
  let start ← get
  if startsLike start.rest then
    let _ ← take 4
    let header ← Header.read
    match atOnce? header start with
    | some (.ok (content, following)) =>
      set following
      return (content, w)
    | some (.error fault) => throw fault
    | none => stream w header
  else if startsSkippable start.rest then
    let _ ← take 4
    let size ← word 4
    let _ ← take size
    return ([], w.fitSkipped size)
  else throw .malformed

/-- The content of all frames up to the end. -/
def frames : (bound : Bytes) → Workspace → (before : List Bytes) → Reader Bytes
  | [], _, _ => throw .truncated
  | _ :: bound, w, before => do
    let (content, w) ← frame w
    if (← get).rest.isEmpty then return (content :: before).reverse.flatten
    else frames bound w (content :: before)

/-- The content of a sequence of frames, of which there is at least one. -/
def decode (s : Bytes) : Except Fault Bytes := Prod.fst <$> (frames s .empty []).run ⟨s, 0⟩

/-- A stored block. -/
def block (last : Bool) (content : Bytes) : Bytes :=
  Bytes.word 3 (content.length * 8 + if last then 1 else 0) ++ content

def storeBlocks : List Bytes → Bytes
  | [] => block true []
  | [content] => block true content
  | content :: rest => block false content ++ storeBlocks rest

/-- The content in one frame with a window of the size of a block. -/
def encode (content : Bytes) : Bytes :=
  Header.magic ++ [0x00, 0x38] ++ storeBlocks (Bytes.pieces Header.largestBlock content)

def Fault.toIoFault : Fault → IoFault
  | .truncated => .unexpectedEof
  | .malformed => .other

/-- Nothing is made smaller, at whatever level. -/
instance : Compression where
  compress _ := encode
  decompress s := (decode s).mapError Fault.toIoFault

end TrieArchive.Frame
