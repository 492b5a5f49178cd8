import TrieArchive.File.Error

/-! How the bodies of binary files are packed. Files work with any compression. -/
namespace TrieArchive

/-- A way to compress byte strings, at a level, and to get them back. -/
class Compression where
  compress : (level : Nat) → Bytes → Bytes
  decompress : Bytes → Except IoFault Bytes

open Compression

/-- What was compressed is got back. -/
class LawfulCompression [Compression] : Prop where
  decompress_compress (level : Nat) (s : Bytes) : decompress (compress level s) = .ok s

/-- Compressed bytes from whose end something is missing are refused. -/
class StrictCompression [Compression] : Prop where
  decompress_of_front {level : Nat} {s front : Bytes} (part : front <+: compress level s)
    (cut : front ≠ compress level s) : ∃ fault, decompress front = .error fault

end TrieArchive
