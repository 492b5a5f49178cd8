import TrieArchive.Trie.Basic
import TrieArchive.Element.Hashing

/-! Persistent maps: pairs of a key and a value, placed by the key. Inserting replaces the whole
pair. -/
namespace TrieArchive

structure TrieMap (κ β : Type) where
  trie : Trie (κ × β)

namespace TrieMap

variable {κ β : Type}

def empty : TrieMap κ β := ⟨.empty⟩

instance : Inhabited (TrieMap κ β) := ⟨empty⟩

def size (m : TrieMap κ β) : Nat := m.trie.size

def isEmpty (m : TrieMap κ β) : Bool := m.trie.isEmpty

def toList (m : TrieMap κ β) : List (κ × β) := m.trie.toList

def listing [Listing κ] [Listing β] (m : TrieMap κ β) : String :=
  Listing.braced (m.toList.map fun (key, value) => Listing.text key ++ ": " ++ Listing.text value)

instance [BEq κ] [BEq β] : BEq (TrieMap κ β) := ⟨fun a b => a.trie.same b.trie⟩

def layout [StableHash κ] : Layout (κ × β) κ := ⟨Prod.fst, StableHash.hash⟩

variable [BEq κ] [StableHash κ]

def get? (m : TrieMap κ β) (key : κ) : Option β := (m.trie.find? layout key).map Prod.snd

def contains (m : TrieMap κ β) (key : κ) : Bool := m.trie.contains layout key

/-- How often a key is in the map: once or not at all. -/
def count (m : TrieMap κ β) (key : κ) : Nat := (m.contains key).toNat

def insert (m : TrieMap κ β) (key : κ) (value : β) : TrieMap κ β := ⟨(m.trie.insert layout (key, value)).1⟩

def erase (m : TrieMap κ β) (key : κ) : TrieMap κ β :=
  if m.contains key then ⟨(m.trie.erase layout key).1⟩ else m

/-- Stores `f` of the current value, or of the default where there is none. -/
def update [Inhabited β] (m : TrieMap κ β) (key : κ) (f : β → β) : TrieMap κ β :=
  m.insert key (f ((m.get? key).getD default))

/-- A map under construction, edited as a batch and frozen again. -/
structure Transient (κ β : Type) where
  trie : Trie (κ × β)

namespace Transient

def listing (t : Transient κ β) : String := Listing.openRecord "MapTransient" [("len", toString t.trie.size)]

def get? (t : Transient κ β) (key : κ) : Option β := (t.trie.find? layout key).map Prod.snd

def contains (t : Transient κ β) (key : κ) : Bool := t.trie.contains layout key

/-- Also answers whether the key is new. -/
def insert (t : Transient κ β) (key : κ) (value : β) : Transient κ β × Bool :=
  let (trie, grown) := t.trie.insert layout (key, value)
  (⟨trie⟩, grown)

/-- Also answers whether the key was present. -/
def erase (t : Transient κ β) (key : κ) : Transient κ β × Bool :=
  let (trie, found) := t.trie.erase layout key
  (⟨trie⟩, found)

def extend (t : Transient κ β) (pairs : List (κ × β)) : Transient κ β :=
  pairs.foldl (fun t (key, value) => (t.insert key value).1) t

def persistent (t : Transient κ β) : TrieMap κ β := ⟨t.trie⟩

end Transient

def transient (m : TrieMap κ β) : Transient κ β := ⟨m.trie⟩

def ofList (pairs : List (κ × β)) : TrieMap κ β := (empty.transient.extend pairs).persistent

end TrieMap

end TrieArchive
