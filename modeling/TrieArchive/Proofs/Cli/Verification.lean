import TrieArchive.Proofs.Archive.SharedLoader
import TrieArchive.Proofs.Cli.Commands

/-! Verification loads all containers of a file with one loader and stops at the first that fails. It answers as if
each container had been loaded on its own. -/
namespace TrieArchive

variable {α : Type}

/-- A fresh loader finds a set under the id. -/
def Archive.Loadable [BEq α] [StableHash α] [Binary α] (a : Archive α) (id : Id) : Prop :=
  ∃ s, (TrieSet.load (.ofArchive a) id).1 = .ok s

instance [BEq α] [StableHash α] [Binary α] (a : Archive α) (id : Id) : Decidable (a.Loadable id) :=
  inferInstanceAs (Decidable (∃ s, (TrieSet.load (.ofArchive a) id).1 = .ok s))

/-- The first root in the order of the ids that is not as it should be. -/
theorem Archive.exists_first_root (a : Archive α) {P : Id → Prop} (fails : ¬ ∀ id ∈ a.rootIds, P id) :
    ∃ good id rest, a.rootIds = good ++ id :: rest ∧ ¬ P id ∧ (∀ other ∈ good, P other) ∧
      ∀ other ∈ a.rootIds, compare other id = .lt → other ∈ good := by
  classical
  have bad : ∃ id, a.rootIds.find? (fun id => ¬ P id) = some id := by
    obtain ⟨id, member, fails⟩ := not_forall₂.mp fails
    exact Option.isSome_iff_exists.mp (List.find?_isSome.mpr ⟨id, member, decide_eq_true fails⟩)
  obtain ⟨id, found⟩ := bad
  obtain ⟨fails, good, rest, split, before⟩ := List.find?_eq_some_iff_append.mp found
  refine ⟨good, id, rest, split, of_decide_eq_true fails, fun other member => by simpa using before other member, ?_⟩
  intro other member less
  have ordered : a.rootIds.Pairwise fun x y => compare x y = .lt := Std.ExtTreeMap.ordered_keys
  rw [split] at member ordered
  rcases List.mem_append.mp member with here | later
  · exact here
  · have above := (List.pairwise_append.mp ordered).2.1
    rcases List.mem_cons.mp later with rfl | behind
    · simp at less
    · exact absurd less (Std.OrientedCmp.not_lt_of_lt (List.rel_of_pairwise_cons above behind))

namespace Cli

theorem loadAll_cons_ok {l : Loader String} {id : Id} {s : TrieSet String} (loaded : (TrieSet.load l id).1 = .ok s)
    (rest : List Id) : loadAll (id :: rest) l = loadAll rest (TrieSet.load l id).2 := by
  rw [loadAll, loadFrom_eq, loaded]
  rfl

theorem loadAll_cons_error {l : Loader String} {id : Id} {e : LoadError}
    (failed : (TrieSet.load l id).1 = .error e) (rest : List Id) :
    loadAll (id :: rest) l = .error (id, ⟨e.message, none⟩) := by
  rw [loadAll, loadFrom_eq, failed]
  rfl

theorem loadAll_append {l : Loader String} {good : List Id}
    (answers : ∀ r ∈ (Loader.loads TrieSet.load l good).2, ∃ s, r = .ok s) (rest : List Id) :
    loadAll (good ++ rest) l = loadAll rest (Loader.loads TrieSet.load l good).1 := by
  induction good generalizing l with
  | nil => rfl
  | cons id good ih =>
    obtain ⟨s, loaded⟩ := answers _ List.mem_cons_self
    rw [List.cons_append, loadAll_cons_ok loaded]
    exact ih fun r member => answers r (.tail _ member)

variable {a : Archive String}

/-- Sets that fresh loaders find are found by the one loader too. -/
theorem loadAll_loadable {good : List Id} (loadable : ∀ id ∈ good, a.Loadable id) (rest : List Id) :
    loadAll (good ++ rest) (.ofArchive a) = loadAll rest (a.loaderAfter TrieSet.load good) := by
  have shares : a.SharesLoader TrieSet.load (fun s => s.trie.placements .blake3) good :=
    Archive.sharesLoader (S := TrieSet.scheme) (f := TrieSet.mk) (fun _ _ => rfl) (fun _ => rfl) loadable
  refine loadAll_append (fun r member => ?_) rest
  rw [shares.answers] at member
  obtain ⟨id, inside, rfl⟩ := List.mem_map.mp member
  exact loadable id inside

/-- A loader that made other loads before finds no set that a fresh one does not find. -/
theorem exists_error_of_not_loadable (good : List Id) {id : Id} (refused : ¬ a.Loadable id) :
    ∃ e, (TrieSet.load (a.loaderAfter TrieSet.load good) id).1 = .error e := by
  cases answer : (TrieSet.load (a.loaderAfter TrieSet.load good) id).1 with
  | error e => exact ⟨e, rfl⟩
  | ok s =>
    have reached : (a.loaderAfter TrieSet.load good).Reached TrieSet.scheme a :=
      Loader.Reached.fresh.loads (f := TrieSet.mk) (fun _ _ => rfl) good
    have held := reached.holds (TrieSet.load_eq_ok_iff.mp answer)
    exact absurd ⟨s, TrieSet.load_eq_ok_iff.mpr (Loader.load_ofArchive_eq_ok_iff.mpr held)⟩ refused

/-- What verification answers for an archive: the number of its roots and of the nodes that they refer to or, if fresh
loaders do not find all its sets, the first root in the order of the ids that they do not find. -/
structure Verified (i : Invocation) (a : Archive String) (outcome : Outcome) : Prop where
  passes : outcome.failure = none ↔ ∀ id ∈ a.rootIds, a.Loadable id
  counts : (∀ id ∈ a.rootIds, a.Loadable id) → ∃ reached : List Id, reached.Nodup ∧
    (∀ x, x ∈ reached ↔ ∃ id ∈ a.rootIds, a.Under id x) ∧
    outcome = printed i.format (.obj [("nodes", num reached.length), ("roots", num a.rootIds.length),
      ("status", .str "ok")])
  refuses : (¬ ∀ id ∈ a.rootIds, a.Loadable id) → ∃ id ∈ a.rootIds, ¬ a.Loadable id ∧
    (∀ other ∈ a.rootIds, compare other id = .lt → a.Loadable other) ∧ ∃ e : LoadError,
    outcome = {
      write := none
      output := render i.format (.obj [("error", .str e.message), ("id", .str id.hex), ("status", .str "error")])
      failure := some ⟨"Archive " ++ i.archive ++ " failed verification", none⟩ }

end Cli

end TrieArchive
