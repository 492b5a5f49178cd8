import TrieArchive.Proofs.Archive.Manifest
import TrieArchive.Proofs.Container.CanonicalForm

/-! Saving undoes loading: a loaded container has the id it was loaded from, and saving it writes down the very
entries that it was read from. -/
namespace TrieArchive

variable {α κ : Type} [BEq κ]

namespace Archive

/-- Archives are told apart by what is stored under some id. -/
theorem eq_of_get? {a b : Archive α} (nodes : ∀ x, a.node? x = b.node? x) (roots : ∀ x, a.root? x = b.root? x) :
    a = b := by
  cases a
  cases b
  congr 1
  · exact Std.ExtTreeMap.ext_getElem? nodes
  · exact Std.ExtTreeMap.ext_getElem? roots

/-- A node that is met from the root stored under an id. -/
def Under (a : Archive α) (id x : Id) : Prop := ∃ root, a.root? id = some root ∧ a.Reaches root.node x

/-- A way of saving that names what `a` stores under `id`, and writes down what `a` stores there. -/
structure Restores (a : Archive α) (id : Id) (save : Archive α → Archive α × Id) : Prop where
  named : ∀ b, (save b).2 = id
  unchanged : (save a).1 = a
  nodes : ∀ x d, (save empty).1.node? x = some d ↔ a.Under id x ∧ a.node? x = some d
  roots : ∀ x r, (save empty).1.root? x = some r ↔ x = id ∧ a.root? x = some r

namespace Holds

variable {S : Scheme α κ} {a : Archive α} {id : Id} {root : Root} {t : Trie α}

theorem under_iff (holds : a.Holds S id root t) {x : Id} : a.Under id x ↔ a.Reaches root.node x := by
  constructor
  · rintro ⟨other, stored, reached⟩
    obtain rfl := Option.some.inj (stored.symm.trans holds.stored)
    exact reached
  · exact fun reached => ⟨root, holds.stored, reached⟩

/-- The nodes of what an archive holds are those that it refers to. -/
theorem mem_ids_iff (holds : a.Holds S id root t) {x : Id} : x ∈ t.root.ids S.toAddressing ↔ a.Under id x := by
  have written := (holds.unfolds.manifest holds.genuine).2
  rw [Node.mem_ids, holds.under_iff]
  constructor
  · rintro ⟨d, member⟩
    exact ((written _).mp member).1
  · intro reached
    obtain ⟨d, stored, -⟩ := holds.genuine x reached
    exact ⟨d, (written (x, d)).mpr ⟨reached, stored⟩⟩

/-- The first description that saving writes under an id is the one that is stored there. -/
theorem find?_manifest (holds : a.Holds S id root t) {x : Id} {d : Description α} :
    ((t.root.manifest S.toAddressing).2.find? (·.1 = x)).map Prod.snd = some d ↔
      a.Under id x ∧ a.node? x = some d := by
  have entries := (holds.unfolds.manifest holds.genuine).2
  rw [holds.under_iff, Option.map_eq_some_iff]
  constructor
  · rintro ⟨entry, found, rfl⟩
    obtain rfl : entry.1 = x := by simpa using List.find?_some found
    exact (entries entry).mp (List.mem_of_find?_eq_some found)
  · rintro ⟨reached, stored⟩
    obtain ⟨entry, inside, rfl, found⟩ := Node.exists_find?_of_mem ((entries (x, d)).mpr ⟨reached, stored⟩)
    have there := ((entries entry).mp inside).2
    exact ⟨entry, found, Option.some.inj (there.symm.trans stored)⟩

theorem restores (holds : a.Holds S id root t) : a.Restores id (·.save S.toAddressing S.kind t) := by
  have named : (t.record S.toAddressing S.kind).identity S.digest = id := by rw [holds.record_eq, holds.identity]
  refine ⟨fun _ => named, eq_of_get? (fun x => ?_) (fun x => ?_), fun x d => ?_, fun x r => ?_⟩
  · rw [node?_save]
    cases written : ((t.root.manifest S.toAddressing).2.find? (·.1 = x)).map Prod.snd with
    | none => exact Option.or_none
    | some d => rw [(holds.find?_manifest.mp written).2, Option.some_or]
  · rw [root?_save, named, holds.record_eq]
    split
    next same => rw [← same, holds.stored, Option.some_or]
    next => exact Option.or_none
  · rw [node?_save, show (empty : Archive α).node? x = none from Std.ExtTreeMap.getElem?_empty, Option.none_or]
    exact holds.find?_manifest
  · rw [root?_save, show (empty : Archive α).root? x = none from Std.ExtTreeMap.getElem?_empty, Option.none_or,
      named, holds.record_eq]
    constructor
    · intro found
      obtain ⟨rfl, same⟩ : id = x ∧ root = r := by simpa using found
      exact ⟨rfl, same ▸ holds.stored⟩
    · rintro ⟨rfl, stored⟩
      rw [if_pos rfl, ← stored, holds.stored]

end Holds

end Archive

/-- A container that any loader has answered for an id is saved under that id into any archive. Saved into the
archive that it came from it changes nothing there, and saved into an empty archive it brings along the entries
under the id as they were, and no others. -/
theorem resaving_restores {α κ β : Type} [BEq α] [StableHash α] [Binary α] [BEq κ] [StableHash κ] [Binary κ]
    [Binary β] :
    (∀ (a : Archive α) (l : Loader α) (id : Id) (s : TrieSet α), Loader.Reached TrieSet.scheme a l →
      (TrieSet.load l id).1 = .ok s → a.Restores id s.save) ∧
    (∀ (a : Archive (κ × β)) (l : Loader (κ × β)) (id : Id) (m : TrieMap κ β),
      Loader.Reached TrieMap.scheme a l → (TrieMap.load l id).1 = .ok m → a.Restores id m.save) := by
  constructor
  · intro a l id s reached loaded
    obtain ⟨root, holds⟩ := reached.holds (TrieSet.load_eq_ok_iff.mp loaded)
    exact holds.restores
  · intro a l id m reached loaded
    obtain ⟨root, holds⟩ := reached.holds (TrieMap.load_eq_ok_iff.mp loaded)
    exact holds.restores

/-- Three keys, two of which are one level further down. -/
theorem resaving_restores_three_keys :
    let s := TrieSet.ofList [(0 : UInt32), 1, 2]
    let m := TrieMap.ofList [((0 : UInt32), 'a'), (1, 'b'), (2, 'c')]
    ((TrieSet.load (.ofArchive (s.save .empty).1) (s.save .empty).2).1 = .ok s ∧
        (s.save .empty).1.Restores (s.save .empty).2 s.save) ∧
      (TrieMap.load (.ofArchive (m.save .empty).1) (m.save .empty).2).1 = .ok m ∧
        (m.save .empty).1.Restores (m.save .empty).2 m.save := by
  intro s m
  obtain ⟨sets, maps⟩ := resaving_restores (α := UInt32) (κ := UInt32) (β := Char)
  constructor
  · have reachable : TrieSet.Reachable (.frozen s) := .edit .empty (.ofList _)
    have short : s.trie.size < 2 ^ 64 := by decide +kernel
    have ids : ((s.trie.root.manifest .blake3).2.map Prod.fst).Nodup := by decide +kernel
    clear_value s
    have holds := Archive.holds_save_new (S := TrieSet.scheme) reachable.canonical short ids
    have loaded := TrieSet.load_eq_ok_iff.mpr (Loader.load_ofArchive_eq_ok_iff.mpr ⟨_, holds⟩)
    exact ⟨loaded, sets _ _ _ s .fresh loaded⟩
  · have reachable : TrieMap.Reachable (.frozen m) := .edit .empty (.ofList _)
    have short : m.trie.size < 2 ^ 64 := by decide +kernel
    have ids : ((m.trie.root.manifest .blake3).2.map Prod.fst).Nodup := by decide +kernel
    clear_value m
    have holds := Archive.holds_save_new (S := TrieMap.scheme) reachable.canonical short ids
    have loaded := TrieMap.load_eq_ok_iff.mpr (Loader.load_ofArchive_eq_ok_iff.mpr ⟨_, holds⟩)
    exact ⟨loaded, maps _ _ _ m .fresh loaded⟩

end TrieArchive
