import TrieArchive.Bytes

/-! SipHash-1-3 with an all-zero key: one round for each eight-byte word, three to finish. -/
namespace TrieArchive.Sip

structure State where
  v0 : UInt64
  v1 : UInt64
  v2 : UInt64
  v3 : UInt64

@[inline] def rotate (w count : UInt64) : UInt64 := (w <<< count) ||| (w >>> (64 - count))

def initial : State :=
  ⟨0x736f6d6570736575, 0x646f72616e646f6d, 0x6c7967656e657261, 0x7465646279746573⟩

def State.round (s : State) : State :=
  let v0 := s.v0 + s.v1
  let v1 := rotate s.v1 13 ^^^ v0
  let v0 := rotate v0 32
  let v2 := s.v2 + s.v3
  let v3 := rotate s.v3 16 ^^^ v2
  let v0 := v0 + v3
  let v3 := rotate v3 21 ^^^ v0
  let v2 := v2 + v1
  let v1 := rotate v1 17 ^^^ v2
  ⟨v0, v1, rotate v2 32, v3⟩

def State.absorb (s : State) (word : UInt64) : State :=
  let s := State.round { s with v3 := s.v3 ^^^ word }
  { s with v0 := s.v0 ^^^ word }

def word (s : Bytes) : UInt64 := s.foldr (fun b acc => acc <<< 8 ||| b.toUInt64) 0

/-- Absorbs whole words; the up to seven bytes left share a word with the length. -/
def State.absorbAll (s : State) (length : Nat) : Bytes → State
  | a :: b :: c :: d :: e :: f :: g :: h :: rest =>
    (s.absorb (word [a, b, c, d, e, f, g, h])).absorbAll length rest
  | rest => s.absorb (word rest ||| (UInt64.ofNat length <<< 56))

def State.finish (s : State) : UInt64 :=
  let s := State.round { s with v2 := s.v2 ^^^ 0xff }
  let s := s.round.round
  s.v0 ^^^ s.v1 ^^^ s.v2 ^^^ s.v3

def hash (s : Bytes) : UInt64 := (initial.absorbAll s.length s).finish

end TrieArchive.Sip
