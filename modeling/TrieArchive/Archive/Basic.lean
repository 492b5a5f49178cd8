import TrieArchive.Archive.Description
import TrieArchive.Element.Listing
import Std.Data.ExtTreeMap

/-! An archive holds descriptions of nodes and of saved containers under their ids. Containers may
share nodes, each of which is kept once. -/
namespace TrieArchive

structure Archive (α : Type) where
  nodes : Std.ExtTreeMap Id (Description α)
  roots : Std.ExtTreeMap Id Root

namespace Archive

variable {α : Type}

def empty : Archive α := ⟨∅, ∅⟩

instance : Inhabited (Archive α) := ⟨empty⟩

def node? (a : Archive α) (id : Id) : Option (Description α) := a.nodes.get? id

def root? (a : Archive α) (id : Id) : Option Root := a.roots.get? id

/-- The ids of the saved containers, in order. -/
def rootIds (a : Archive α) : List Id := a.roots.keys

def listing (a : Archive α) : String :=
  Listing.openRecord "SaveArchive" [("nodes", toString a.nodes.size), ("roots", toString a.roots.size)]

end Archive

end TrieArchive
