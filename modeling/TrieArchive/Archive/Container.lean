import TrieArchive.Archive.BinaryForm
import TrieArchive.Archive.Load
import TrieArchive.Archive.Save
import TrieArchive.Container.Set
import TrieArchive.Container.Map

/-! Sets and maps in archives. -/
namespace TrieArchive

namespace TrieSet

variable {α : Type} [StableHash α] [Binary α]

def scheme : Scheme α α := { Addressing.blake3, layout with kind := .set }

def save (s : TrieSet α) (a : Archive α) : Archive α × Id := a.save Addressing.blake3 .set s.trie

def load [BEq α] (l : Loader α) (id : Id) : Except LoadError (TrieSet α) × Loader α :=
  let (result, l) := l.load scheme id
  (result.map .mk, l)

end TrieSet

namespace TrieMap

variable {κ β : Type} [StableHash κ] [Binary κ] [Binary β]

def scheme : Scheme (κ × β) κ := { Addressing.blake3, layout with kind := .map }

def save (m : TrieMap κ β) (a : Archive (κ × β)) : Archive (κ × β) × Id :=
  a.save Addressing.blake3 .map m.trie

def load [BEq κ] (l : Loader (κ × β)) (id : Id) : Except LoadError (TrieMap κ β) × Loader (κ × β) :=
  let (result, l) := l.load scheme id
  (result.map .mk, l)

end TrieMap

end TrieArchive
