import TrieArchive.Container.Map
import TrieArchive.Container.Set
import TrieArchive.Proofs.Container.FiniteMap

/-! Runs of edits of sets, maps and bare tries. A container is frozen or being edited; an edit that its state
does not offer leaves it alone and answers nothing. -/
namespace TrieArchive

/-- A container that is frozen, or one that is being edited. -/
inductive Handle (σ τ : Type) where
  | frozen (container : σ)
  | editing (container : τ)

/-- What an edit does to a map: whether it is being edited, and what is stored in it. -/
structure Reference (κ α : Type) where
  editing : Bool
  stored : FiniteMap κ α

def Reference.fresh {κ α : Type} : Reference κ α := ⟨false, .empty⟩

/-- A flag is answered by containers that are being edited only. -/
def Reference.answer {κ α : Type} (r : Reference κ α) (flag : Bool) : Option Bool :=
  if r.editing then some flag else none

namespace TrieSet

variable {α : Type} [BEq α] [StableHash α]

inductive Edit (α : Type) where
  | insert (a : α)
  | erase (a : α)
  | extend (elements : List α)
  | ofList (elements : List α)
  | transient
  | persistent

def Edit.apply : Handle (TrieSet α) (Transient α) → Edit α → Handle (TrieSet α) (Transient α) × Option Bool
  | .frozen s, .insert a => (.frozen (s.insert a), none)
  | .frozen s, .erase a => (.frozen (s.erase a), none)
  | .frozen s, .transient => (.editing s.transient, none)
  | .editing t, .insert a => (.editing (t.insert a).1, some (t.insert a).2)
  | .editing t, .erase a => (.editing (t.erase a).1, some (t.erase a).2)
  | .editing t, .extend elements => (.editing (t.extend elements), none)
  | .editing t, .persistent => (.frozen t.persistent, none)
  | _, .ofList elements => (.frozen (TrieSet.ofList elements), none)
  | h, _ => (h, none)

/-- What an edit should do: an element that is stored already is kept. -/
def Edit.specify (r : Reference α α) : Edit α → Reference α α × Option Bool
  | .insert a => (⟨r.editing, r.stored.keep layout a⟩, r.answer (r.stored a).isNone)
  | .erase a => (⟨r.editing, r.stored.drop a⟩, r.answer (r.stored a).isSome)
  | .extend elements => (if r.editing then ⟨true, elements.foldl (·.keep layout ·) r.stored⟩ else r, none)
  | .ofList elements => (⟨false, elements.foldl (·.keep layout ·) .empty⟩, none)
  | .transient => (⟨true, r.stored⟩, none)
  | .persistent => (⟨false, r.stored⟩, none)

/-- All that can be seen of a set is what the map says. -/
structure Shows (s : TrieSet α) (m : FiniteMap α α) : Prop where
  get? : ∀ a, s.get? a = m a
  contains : ∀ a, s.contains a = (m a).isSome
  count : ∀ a, s.count a = if (m a).isSome then 1 else 0
  walk : s.trie.cursor.Walks layout s.size m

structure Transient.Shows (t : Transient α) (m : FiniteMap α α) : Prop where
  contains : ∀ a, t.contains a = (m a).isSome
  count : ∀ a, t.count a = if (m a).isSome then 1 else 0
  walk : t.trie.cursor.Walks layout t.trie.size m

/-- A set or an edited set that agrees with a reference. -/
inductive Agrees : Handle (TrieSet α) (Transient α) → Reference α α → Prop where
  | frozen {s : TrieSet α} {m : FiniteMap α α} (shows : s.Shows m) : Agrees (.frozen s) ⟨false, m⟩
  | editing {t : Transient α} {m : FiniteMap α α} (shows : t.Shows m) : Agrees (.editing t) ⟨true, m⟩

end TrieSet

namespace TrieMap

variable {κ β : Type} [BEq κ] [StableHash κ]

inductive Edit (κ β : Type) where
  | insert (key : κ) (value : β)
  | erase (key : κ)
  | update (key : κ) (f : β → β)
  | extend (pairs : List (κ × β))
  | ofList (pairs : List (κ × β))
  | transient
  | persistent

def Edit.apply [Inhabited β] : Handle (TrieMap κ β) (Transient κ β) → Edit κ β →
    Handle (TrieMap κ β) (Transient κ β) × Option Bool
  | .frozen m, .insert key value => (.frozen (m.insert key value), none)
  | .frozen m, .erase key => (.frozen (m.erase key), none)
  | .frozen m, .update key f => (.frozen (m.update key f), none)
  | .frozen m, .transient => (.editing m.transient, none)
  | .editing t, .insert key value => (.editing (t.insert key value).1, some (t.insert key value).2)
  | .editing t, .erase key => (.editing (t.erase key).1, some (t.erase key).2)
  | .editing t, .extend pairs => (.editing (t.extend pairs), none)
  | .editing t, .persistent => (.frozen t.persistent, none)
  | _, .ofList pairs => (.frozen (TrieMap.ofList pairs), none)
  | h, _ => (h, none)

/-- What an edit should do: a pair takes the place of one with an equal key. -/
def Edit.specify [Inhabited β] (r : Reference κ (κ × β)) : Edit κ β → Reference κ (κ × β) × Option Bool
  | .insert key value => (⟨r.editing, r.stored.put layout (key, value)⟩, r.answer (r.stored key).isNone)
  | .erase key => (⟨r.editing, r.stored.drop key⟩, r.answer (r.stored key).isSome)
  | .update key f =>
    let current := ((r.stored key).map Prod.snd).getD default
    (if r.editing then r else ⟨false, r.stored.put layout (key, f current)⟩, none)
  | .extend pairs => (if r.editing then ⟨true, pairs.foldl (·.put layout ·) r.stored⟩ else r, none)
  | .ofList pairs => (⟨false, pairs.foldl (·.put layout ·) .empty⟩, none)
  | .transient => (⟨true, r.stored⟩, none)
  | .persistent => (⟨false, r.stored⟩, none)

/-- All that can be seen of a map is what the finite map says. -/
structure Shows (m : TrieMap κ β) (stored : FiniteMap κ (κ × β)) : Prop where
  get? : ∀ key, m.get? key = (stored key).map Prod.snd
  contains : ∀ key, m.contains key = (stored key).isSome
  count : ∀ key, m.count key = if (stored key).isSome then 1 else 0
  walk : m.trie.cursor.Walks layout m.size stored

structure Transient.Shows (t : Transient κ β) (stored : FiniteMap κ (κ × β)) : Prop where
  get? : ∀ key, t.get? key = (stored key).map Prod.snd
  contains : ∀ key, t.contains key = (stored key).isSome
  walk : t.trie.cursor.Walks layout t.trie.size stored

/-- A map or an edited map that agrees with a reference. -/
inductive Agrees : Handle (TrieMap κ β) (Transient κ β) → Reference κ (κ × β) → Prop where
  | frozen {m : TrieMap κ β} {stored : FiniteMap κ (κ × β)} (shows : m.Shows stored) :
      Agrees (.frozen m) ⟨false, stored⟩
  | editing {t : Transient κ β} {stored : FiniteMap κ (κ × β)} (shows : t.Shows stored) :
      Agrees (.editing t) ⟨true, stored⟩

end TrieMap

namespace Trie

variable {α κ : Type} [BEq κ] (L : Layout α κ)

inductive Edit (α κ : Type) where
  | insert (v : α)
  | erase (key : κ)

/-- The trie that an edit leaves, in place or in a copy, and the flag that an edit in place answers. -/
def Edit.apply (t : Trie α) : Edit α κ → Trie α × Bool
  | .insert v => t.insert L v
  | .erase key => t.erase L key

def Edit.specify (m : FiniteMap κ α) : Edit α κ → FiniteMap κ α × Bool
  | .insert v => (m.put L v, (m (L.key v)).isNone)
  | .erase key => (m.drop key, (m key).isSome)

end Trie

end TrieArchive
