import TrieArchive.File.Compression
import TrieArchive.Archive.BinaryForm
import TrieArchive.Archive.JsonForm

/-! Archive files: a header of 16 bytes (magic, format version, encoding, three bytes reserved) and
a body in that encoding. The binary body is compressed, the JSON body is plain text. -/
namespace TrieArchive

/-- How the body of a file is written. -/
inductive Encoding where
  | binary
  | json
  deriving DecidableEq, Repr

namespace Encoding

def byte : Encoding → UInt8
  | .binary => 0
  | .json => 1

def ofByte? (b : UInt8) : Option Encoding :=
  if b = 0 then some .binary else if b = 1 then some .json else none

end Encoding

namespace ArchiveFile

def magic : Bytes := Bytes.ofText "CHAMPARC"

def headerSize : Nat := 16

/-- The level at which binary bodies are compressed. -/
def compressionLevel : Nat := 3

def header (e : Encoding) : Bytes := magic ++ Bytes.word 4 formatVersion.toNat ++ [e.byte, 0, 0, 0]

variable {α : Type} [Compression] [Binary α] [JsonForm α]

def body (s : Snapshot α) : Encoding → Bytes
  | .binary => Compression.compress compressionLevel (Binary.encode s)
  | .json => JsonForm.write s

def encode (s : Snapshot α) (e : Encoding) : Bytes := header e ++ body s e

/-- A snapshot from a body, whatever its version. -/
def decodeBody (e : Encoding) (s : Bytes) : Except FileError (Snapshot α) :=
  match e with
  | .binary => do
    let payload ← (Compression.decompress s).mapError .io
    (Binary.read (Snapshot α) payload).mapError .serialization
  | .json => (JsonForm.parse (Snapshot α) s).mapError .json

/-- The snapshot in a file and the encoding of its body. -/
def decode (s : Bytes) : Except FileError (Snapshot α × Encoding) := do
  let header := s.take headerSize
  if header.length < headerSize then throw .tooShort
  if header.take 8 ≠ magic then throw .badMagic
  let version := UInt32.ofNat (Bytes.value ((header.drop 8).take 4))
  if version ≠ formatVersion then throw (.versionMismatch ⟨version⟩)
  let byte := (header.drop 12).headD 0
  match Encoding.ofByte? byte with
  | none => throw (.unknownEncoding byte)
  | some e =>
    let snapshot ← decodeBody e (s.drop headerSize)
    let _ ← snapshot.open?.mapError .versionMismatch
    return (snapshot, e)

/-- The archive in a JSON text. -/
def ofJson (s : Bytes) : Except FileError (Archive α) := do
  let snapshot ← (JsonForm.parse (Snapshot α) s).mapError .json
  snapshot.open?.mapError .versionMismatch

end ArchiveFile

end TrieArchive
