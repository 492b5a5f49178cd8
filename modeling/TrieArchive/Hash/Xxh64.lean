import TrieArchive.Bytes

/-! XXH64 with seed zero, the checksum of compressed frames. -/
namespace TrieArchive.Xxh64

def prime1 : UInt64 := 0x9e3779b185ebca87
def prime2 : UInt64 := 0xc2b2ae3d27d4eb4f
def prime3 : UInt64 := 0x165667b19e3779f9
def prime4 : UInt64 := 0x85ebca77c2b2ae63
def prime5 : UInt64 := 0x27d4eb2f165667c5

def rotate (w count : UInt64) : UInt64 := (w <<< count) ||| (w >>> (64 - count))

def word (s : Bytes) : UInt64 := s.foldr (fun b acc => acc <<< 8 ||| b.toUInt64) 0

def round (lane input : UInt64) : UInt64 := rotate (lane + input * prime2) 31 * prime1

def mergeLane (acc lane : UInt64) : UInt64 := (acc ^^^ round 0 lane) * prime1 + prime4

structure Lanes where
  a : UInt64
  b : UInt64
  c : UInt64
  d : UInt64

def Lanes.initial : Lanes := ⟨prime1 + prime2, prime2, 0, 0 - prime1⟩

def Lanes.absorb (l : Lanes) (stripe : Bytes) : Lanes :=
  ⟨round l.a (word (stripe.take 8)), round l.b (word ((stripe.drop 8).take 8)),
    round l.c (word ((stripe.drop 16).take 8)), round l.d (word ((stripe.drop 24).take 8))⟩

def Lanes.merge (l : Lanes) : UInt64 :=
  let acc := rotate l.a 1 + rotate l.b 7 + rotate l.c 12 + rotate l.d 18
  mergeLane (mergeLane (mergeLane (mergeLane acc l.a) l.b) l.c) l.d

/-- Mixes in the up to 31 bytes behind the last whole stripe. -/
def tail (acc : UInt64) : Bytes → UInt64
  | a :: b :: c :: d :: e :: f :: g :: h :: rest =>
    tail (rotate (acc ^^^ round 0 (word [a, b, c, d, e, f, g, h])) 27 * prime1 + prime4) rest
  | a :: b :: c :: d :: rest =>
    tail (rotate (acc ^^^ word [a, b, c, d] * prime1) 23 * prime2 + prime3) rest
  | a :: rest => tail (rotate (acc ^^^ a.toUInt64 * prime5) 11 * prime1) rest
  | [] => acc

def avalanche (acc : UInt64) : UInt64 :=
  let acc := (acc ^^^ (acc >>> 33)) * prime2
  let acc := (acc ^^^ (acc >>> 29)) * prime3
  acc ^^^ (acc >>> 32)

def hash (s : Bytes) : UInt64 :=
  let stripes := (Bytes.pieces 32 s).filter (·.length == 32)
  let start := if stripes.isEmpty then prime5 else (stripes.foldl Lanes.absorb Lanes.initial).merge
  avalanche (tail (start + UInt64.ofNat s.length) (s.drop (32 * stripes.length)))

end TrieArchive.Xxh64
