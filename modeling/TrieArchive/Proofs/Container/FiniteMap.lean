import TrieArchive.Proofs.Trie.Operations

/-! Finite maps from keys to stored values, as functions, and tries that stand for them. Nothing here knows
how a trie finds its values. -/
namespace TrieArchive

variable {α κ : Type} [BEq κ]

/-- What is stored under each key. -/
abbrev FiniteMap (κ α : Type) := κ → Option α

namespace FiniteMap

def empty : FiniteMap κ α := fun _ => none

/-- Stores a value under its key, in place of the one stored there. -/
def put (L : Layout α κ) (m : FiniteMap κ α) (v : α) : FiniteMap κ α :=
  fun key => if L.key v == key then some v else m key

/-- Stores a value under its key unless there is one. -/
def keep (L : Layout α κ) (m : FiniteMap κ α) (v : α) : FiniteMap κ α :=
  if (m (L.key v)).isSome then m else m.put L v

def drop (m : FiniteMap κ α) (key : κ) : FiniteMap κ α := fun other => if key == other then none else m other

end FiniteMap

/-- A walk from a cursor meets the values of a map, each once, and as many as there are keys. -/
structure Cursor.Walks (L : Layout α κ) (c : Cursor α) (size : Nat) (m : FiniteMap κ α) : Prop where
  once : L.Distinct (c.take size).1
  exactly : ∀ v, v ∈ (c.take size).1 ↔ m (L.key v) = some v
  ended : (c.take size).2.next? = none
  keys : ∃ keys : List κ, keys.Pairwise (fun a b => (a == b) = false) ∧
    (∀ key, (m key).isSome ↔ ∃ stored ∈ keys, stored == key) ∧ size = keys.length

/-- All that can be seen of a trie is what the map says. -/
structure Trie.Shows (L : Layout α κ) (t : Trie α) (m : FiniteMap κ α) : Prop where
  find? : ∀ key, t.find? L key = m key
  contains : ∀ key, t.contains L key = (m key).isSome
  walk : t.cursor.Walks L t.size m

/-- A well-formed trie that holds the values of a map. -/
structure Trie.Represents (L : Layout α κ) (t : Trie α) (m : FiniteMap κ α) : Prop where
  canonical : t.Canonical L
  lookup : ∀ key, L.lookup key t.toList = m key

namespace Trie

theorem represents_empty (L : Layout α κ) : (empty : Trie α).Represents L .empty :=
  ⟨empty_canonical L, fun _ => rfl⟩

variable {L : Layout α κ} {t : Trie α} {m : FiniteMap κ α}

namespace Represents

theorem present_eq (represents : t.Represents L m) (key : κ) : L.present key t.toList = (m key).isSome := by
  rw [← represents.lookup, Layout.lookup_isSome]

variable [EquivBEq κ]

theorem contains_eq (represents : t.Represents L m) (lawful : L.Lawful) (key : κ) :
    t.contains L key = (m key).isSome := by
  rw [represents.canonical.contains_eq lawful, represents.present_eq]

theorem find?_eq (represents : t.Represents L m) (lawful : L.Lawful) (key : κ) : t.find? L key = m key := by
  rw [represents.canonical.find?_eq lawful, represents.lookup]

/-- The values in a trie are those its map leads to. -/
theorem mem_toList_iff (represents : t.Represents L m) (lawful : L.Lawful) (v : α) :
    v ∈ t.toList ↔ m (L.key v) = some v := by
  rw [← represents.lookup, (represents.canonical.distinct lawful).lookup_eq_some_iff]
  simp

theorem walks (represents : t.Represents L m) (lawful : L.Lawful) : t.cursor.Walks L t.size m := by
  obtain ⟨all, ended⟩ := take_cursor represents.canonical.size
  have distinct := represents.canonical.distinct lawful
  refine ⟨?_, fun v => ?_, ended, t.toList.map L.key, ?_, fun key => ?_, ?_⟩
  · rwa [all]
  · rw [all, represents.mem_toList_iff lawful]
  · exact List.pairwise_map.mpr distinct
  · rw [← represents.present_eq, Layout.present_iff]
    simp
  · rw [List.length_map, represents.canonical.size_eq_length]

theorem shows (represents : t.Represents L m) (lawful : L.Lawful) : t.Shows L m :=
  ⟨represents.find?_eq lawful, represents.contains_eq lawful, represents.walks lawful⟩

theorem insert (represents : t.Represents L m) (lawful : L.Lawful) (v : α) :
    (t.insert L v).1.Represents L (m.put L v) ∧ (t.insert L v).2 = (m (L.key v)).isNone := by
  obtain ⟨canonical, values, grown⟩ := represents.canonical.insert_spec lawful v
  refine ⟨⟨canonical, fun key => ?_⟩, ?_⟩
  · rw [Layout.Distinct.lookup_perm (canonical.distinct lawful) values, Layout.lookup_put, represents.lookup]
    rfl
  · rw [grown, represents.present_eq, Option.not_isSome]

theorem erase (represents : t.Represents L m) (lawful : L.Lawful) (key : κ) :
    (t.erase L key).1.Represents L (m.drop key) ∧ (t.erase L key).2 = (m key).isSome := by
  obtain ⟨canonical, values, found⟩ := represents.canonical.erase_spec lawful key
  refine ⟨⟨canonical, fun other => ?_⟩, ?_⟩
  · rw [Layout.Distinct.lookup_perm (canonical.distinct lawful) values, Layout.lookup_drop, represents.lookup]
    rfl
  · rw [found, represents.present_eq]

end Represents

end Trie

/-- A run of edits: the state behind the last of them, and what each of them answers. -/
def run {σ ε ω : Type} (step : σ → ε → σ × ω) : σ → List ε → σ × List ω
  | s, [] => (s, [])
  | s, e :: rest => ((run step (step s e).1 rest).1, (step s e).2 :: (run step (step s e).1 rest).2)

/-- Steps that keep two states related and answer alike make runs that do so. -/
theorem run_simulates {σ τ ε ω : Type} {step : σ → ε → σ × ω} {step' : τ → ε → τ × ω} {R : σ → τ → Prop}
    (keeps : ∀ s t e, R s t → R (step s e).1 (step' t e).1 ∧ (step s e).2 = (step' t e).2)
    (edits : List ε) {s : σ} {t : τ} (related : R s t) :
    R (run step s edits).1 (run step' t edits).1 ∧ (run step s edits).2 = (run step' t edits).2 := by
  induction edits generalizing s t with
  | nil => exact ⟨related, rfl⟩
  | cons e rest ih =>
    obtain ⟨next, answer⟩ := keeps s t e related
    obtain ⟨last, answers⟩ := ih next
    refine ⟨last, ?_⟩
    rw [run, run, answer, answers]

end TrieArchive
