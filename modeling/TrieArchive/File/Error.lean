import TrieArchive.Archive.Snapshot
import TrieArchive.Element.Binary
import TrieArchive.Json.Reader

/-! Why an archive file could not be read or written. -/
namespace TrieArchive

inductive IoFault where
  | notFound
  | notDirectory
  | isDirectory
  | nameTooLong
  | unexpectedEof
  | other
  deriving DecidableEq, Repr

def IoFault.message : IoFault → String
  | .notFound => "No such file or directory (os error 2)"
  | .notDirectory => "Not a directory (os error 20)"
  | .isDirectory => "Is a directory (os error 21)"
  | .nameTooLong => "File name too long (os error 36)"
  | .unexpectedEof => "incomplete frame"
  | .other => "malformed frame"

inductive FileError where
  | io (fault : IoFault)
  | serialization (fault : Binary.Fault)
  | json (fault : Json.Fault)
  | tooShort
  | badMagic
  | unknownEncoding (byte : UInt8)
  | versionMismatch (e : VersionMismatch)
  deriving DecidableEq

def FileError.message : FileError → String
  | .io fault => "IO error: " ++ fault.message
  | .serialization .truncated => "Serialization error: io error: unexpected end of file"
  | .serialization .invalidUtf8 => "Serialization error: string is not valid utf8"
  | .serialization .invalidBool => "Serialization error: invalid u8 while decoding bool"
  | .serialization .invalidChar => "Serialization error: char is not valid"
  | .serialization .invalidTag => "Serialization error: tag for enum is not valid"
  | .serialization .refused => "Serialization error: value is not valid"
  | .json .malformed => "JSON error: malformed text"
  | .json .unfit => "JSON error: unexpected value"
  | .json .truncated => "JSON error: unexpected end of text"
  | .tooShort => "Invalid archive file: File shorter than header"
  | .badMagic => "Invalid archive file: Invalid magic bytes"
  | .unknownEncoding byte => "Invalid archive file: Unknown encoding: " ++ toString byte.toNat
  | .versionMismatch e => e.message

end TrieArchive
