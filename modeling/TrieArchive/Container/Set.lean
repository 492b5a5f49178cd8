import TrieArchive.Trie.Basic
import TrieArchive.Element.Hashing

/-! Persistent sets: each element is its own key. An element already present is kept as it is. -/
namespace TrieArchive

structure TrieSet (α : Type) where
  trie : Trie α

namespace TrieSet

variable {α : Type}

def empty : TrieSet α := ⟨.empty⟩

instance : Inhabited (TrieSet α) := ⟨empty⟩

def size (s : TrieSet α) : Nat := s.trie.size

def isEmpty (s : TrieSet α) : Bool := s.trie.isEmpty

def toList (s : TrieSet α) : List α := s.trie.toList

def listing [Listing α] (s : TrieSet α) : String := Listing.braced (s.toList.map Listing.text)

instance [BEq α] : BEq (TrieSet α) := ⟨fun a b => a.trie.same b.trie⟩

def layout [StableHash α] : Layout α α := ⟨id, StableHash.hash⟩

variable [BEq α] [StableHash α]

def get? (s : TrieSet α) (a : α) : Option α := s.trie.find? layout a

def contains (s : TrieSet α) (a : α) : Bool := s.trie.contains layout a

/-- How often an element is in the set: once or not at all. -/
def count (s : TrieSet α) (a : α) : Nat := (s.contains a).toNat

def insert (s : TrieSet α) (a : α) : TrieSet α :=
  if s.contains a then s else ⟨(s.trie.insert layout a).1⟩

def erase (s : TrieSet α) (a : α) : TrieSet α :=
  if s.contains a then ⟨(s.trie.erase layout a).1⟩ else s

/-- A set under construction, edited as a batch and frozen again. -/
structure Transient (α : Type) where
  trie : Trie α

namespace Transient

def listing (t : Transient α) : String := Listing.openRecord "SetTransient" [("len", toString t.trie.size)]

def contains (t : Transient α) (a : α) : Bool := t.trie.contains layout a

def count (t : Transient α) (a : α) : Nat := (t.contains a).toNat

/-- Also answers whether the element is new. -/
def insert (t : Transient α) (a : α) : Transient α × Bool :=
  if t.contains a then (t, false)
  else
    let (trie, grown) := t.trie.insert layout a
    (⟨trie⟩, grown)

/-- Also answers whether the element was present. -/
def erase (t : Transient α) (a : α) : Transient α × Bool :=
  let (trie, found) := t.trie.erase layout a
  (⟨trie⟩, found)

def extend (t : Transient α) (elements : List α) : Transient α :=
  elements.foldl (fun t a => (t.insert a).1) t

def persistent (t : Transient α) : TrieSet α := ⟨t.trie⟩

end Transient

def transient (s : TrieSet α) : Transient α := ⟨s.trie⟩

def ofList (elements : List α) : TrieSet α := (empty.transient.extend elements).persistent

end TrieSet

end TrieArchive
