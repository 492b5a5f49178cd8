import TrieArchive.Trie.Lookup
import TrieArchive.Trie.Insert
import TrieArchive.Trie.Erase
import TrieArchive.Trie.Equality
import TrieArchive.Trie.Cursor
import TrieArchive.Element.Listing

/-! A trie is a root together with the number of values below it. The same contents always have
the same shape, up to the order inside collision nodes. -/
namespace TrieArchive

structure Trie (α : Type) where
  root : Node α
  size : Nat

namespace Trie

variable {α κ : Type}

def empty : Trie α := ⟨.empty, 0⟩

instance : Inhabited (Trie α) := ⟨empty⟩

/-- A trie over any node, counting what is below it. -/
def ofRoot (root : Node α) : Trie α := ⟨root, root.count⟩

def isEmpty (t : Trie α) : Bool := t.size == 0

def toList (t : Trie α) : List α := t.root.toList

def cursor (t : Trie α) : Cursor α := .ofRoot t.root t.size

def listing (t : Trie α) : String := Listing.openRecord "Champ" [("len", toString t.size)]

/-- Equal sizes, then equal slots. -/
def same [BEq α] (a b : Trie α) : Bool := a.size == b.size && a.root.same b.root

variable [BEq κ] (L : Layout α κ)

def find? (t : Trie α) (key : κ) : Option α := t.root.find? L key (L.hash key) 0

def contains (t : Trie α) (key : κ) : Bool := (t.find? L key).isSome

/-- Stores a value, in place of one with an equal key. Also answers whether the key is new. -/
def insert (t : Trie α) (value : α) : Trie α × Bool :=
  let (root, grown) := t.root.insert L value (L.place value) 0
  (⟨root, if grown then t.size + 1 else t.size⟩, grown)

/-- Drops a key and answers whether it was present; a trie without the key is left alone. -/
def erase (t : Trie α) (key : κ) : Trie α × Bool :=
  if t.contains L key then
    match t.root.erase? L key (L.hash key) 0 with
    | some root => (⟨root, t.size - 1⟩, true)
    | none => (t, false)
  else (t, false)

end Trie

end TrieArchive
