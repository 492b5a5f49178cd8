import TrieArchive.Bytes

/-! The BLAKE3 digest of a byte string: chunks of 1024 bytes are compressed block by block, and
neighbouring nodes are joined pairwise, a node without a partner moving up unchanged, until one
is left. -/
namespace TrieArchive.Blake3

abbrev Block := Vector UInt32 16
abbrev Chain := Vector UInt32 8

def start : Chain :=
  #v[0x6a09e667, 0xbb67ae85, 0x3c6ef372, 0xa54ff53a, 0x510e527f, 0x9b05688c, 0x1f83d9ab, 0x5be0cd19]

def chunkStart : UInt32 := 1
def chunkEnd : UInt32 := 2
def parent : UInt32 := 4
def root : UInt32 := 8

@[inline] def rotate (w count : UInt32) : UInt32 := (w >>> count) ||| (w <<< (32 - count))

/-- Mixes two message words into one column or diagonal of the state. -/
@[inline] def mix (v : Block) (a b c d : Fin 16) (x y : UInt32) : Block :=
  let va := v[a] + v[b] + x
  let vd := rotate (v[d] ^^^ va) 16
  let vc := v[c] + vd
  let vb := rotate (v[b] ^^^ vc) 12
  let va := va + vb + y
  let vd := rotate (vd ^^^ va) 8
  let vc := vc + vd
  let vb := rotate (vb ^^^ vc) 7
  (((v.set a va).set b vb).set c vc).set d vd

def round (v m : Block) : Block :=
  let v := mix v 0 4 8 12 m[0] m[1]
  let v := mix v 1 5 9 13 m[2] m[3]
  let v := mix v 2 6 10 14 m[4] m[5]
  let v := mix v 3 7 11 15 m[6] m[7]
  let v := mix v 0 5 10 15 m[8] m[9]
  let v := mix v 1 6 11 12 m[10] m[11]
  let v := mix v 2 7 8 13 m[12] m[13]
  mix v 3 4 9 14 m[14] m[15]

def permute (m : Block) : Block :=
  #v[m[2], m[6], m[3], m[10], m[7], m[0], m[4], m[13],
    m[1], m[11], m[12], m[5], m[9], m[14], m[15], m[8]]

def rounds : Nat → Block → Block → Block
  | 0, v, _ => v
  | n + 1, v, m => rounds n (round v m) (permute m)

/-- A node of the tree before its last compression, which depends on whether it is the root. -/
structure Output where
  chain : Chain
  block : Block
  counter : Nat
  length : Nat
  flags : UInt32

def Output.compress (o : Output) (flags : UInt32) : Chain :=
  let h := o.chain
  let v : Block := #v[h[0], h[1], h[2], h[3], h[4], h[5], h[6], h[7],
    start[0], start[1], start[2], start[3],
    UInt32.ofNat o.counter, UInt32.ofNat (o.counter >>> 32), UInt32.ofNat o.length, flags]
  let v := rounds 7 v o.block
  #v[v[0] ^^^ v[8], v[1] ^^^ v[9], v[2] ^^^ v[10], v[3] ^^^ v[11],
    v[4] ^^^ v[12], v[5] ^^^ v[13], v[6] ^^^ v[14], v[7] ^^^ v[15]]

def Output.chaining (o : Output) : Chain := o.compress o.flags

def word (s : Bytes) : UInt32 := s.foldr (fun b acc => acc <<< 8 ||| b.toUInt32) 0

def words : (count : Nat) → Bytes → List UInt32
  | 0, _ => []
  | count + 1, s => word (s.take 4) :: words count (s.drop 4)

theorem length_words (count : Nat) (s : Bytes) : (words count s).length = count := by
  induction count generalizing s with
  | zero => rfl
  | succ count ih => simp [words, ih]

/-- The words of up to 64 bytes; missing bytes are zero. -/
def load (s : Bytes) : Block := ⟨(words 16 s).toArray, by simp [length_words]⟩

/-- The node of one chunk, given its blocks of 64 bytes. -/
def chunk (counter : Nat) (chain : Chain) (flags : UInt32) : List Bytes → Output
  | [] => ⟨chain, load [], counter, 0, flags ||| chunkEnd⟩
  | [last] => ⟨chain, load last, counter, last.length, flags ||| chunkEnd⟩
  | block :: rest =>
    chunk counter (Output.chaining ⟨chain, load block, counter, 64, flags⟩) 0 rest

def join (left right : Output) : Output :=
  ⟨start, (left.chaining ++ right.chaining).cast (by decide), 0, 64, parent⟩

def joinPairs : List Output → List Output
  | left :: right :: rest => join left right :: joinPairs rest
  | rest => rest

/-- Joins neighbours until one node is left; as many steps as there are nodes are enough. -/
def reduce : (steps : Nat) → List Output → List Output
  | 0, nodes => nodes
  | _, [] => []
  | _, [node] => [node]
  | steps + 1, nodes => reduce steps (joinPairs nodes)

def leaves (s : Bytes) : List Output :=
  match Bytes.pieces 1024 s with
  | [] => [chunk 0 start chunkStart []]
  | chunks => chunks.zipIdx.map fun (c, i) => chunk i start chunkStart (Bytes.pieces 64 c)

/-- The eight words of the digest. -/
def digestWords (s : Bytes) : Chain :=
  let nodes := leaves s
  match reduce nodes.length nodes with
  | node :: _ => node.compress (node.flags ||| root)
  | [] => start

/-- The 32 bytes of the digest. -/
def digest (s : Bytes) : Bytes :=
  (digestWords s).toList.flatMap fun w => Bytes.word 4 w.toNat

theorem length_digest (s : Bytes) : (digest s).length = 32 := by
  simp [digest, List.length_flatMap, List.map_const']

end TrieArchive.Blake3
