import TrieArchive.Archive.Basic
import TrieArchive.Archive.Error

/-! An archive as it is handed to an encoder, with the version of its format. -/
namespace TrieArchive

structure Snapshot (α : Type) extends Archive α where
  version : UInt32

/-- A version other than the one that is read. -/
structure VersionMismatch where
  found : UInt32
  deriving DecidableEq, Repr

def VersionMismatch.message (e : VersionMismatch) : String :=
  "Version mismatch: expected " ++ toString formatVersion.toNat ++ ", found " ++ toString e.found.toNat

namespace Snapshot

variable {α : Type}

def ofArchive (a : Archive α) : Snapshot α := { a with version := formatVersion }

/-- The archive inside, when its version is the one that is read. -/
def open? (s : Snapshot α) : Except VersionMismatch (Archive α) :=
  if s.version = formatVersion then .ok s.toArchive else .error ⟨s.version⟩

/-- Equal versions, and equal entries under the same ids. -/
def same [BEq α] (a b : Snapshot α) : Bool :=
  let entries := a.nodes.toList
  let others := b.nodes.toList
  a.version == b.version && entries.length == others.length
    && (entries.zip others).all (fun (x, y) => x.1 == y.1 && x.2.same y.2)
    && a.roots.toList == b.roots.toList

end Snapshot

end TrieArchive
