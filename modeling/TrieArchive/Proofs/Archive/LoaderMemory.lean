import TrieArchive.Proofs.Archive.FailedLoads
import TrieArchive.Proofs.Archive.Integrity
import TrieArchive.Proofs.Archive.Recording

/-! What a loader remembers behind any loads from any archive, also one with references that lead in a circle. Nothing is
known of the digest: that a node does not lie below itself comes from its size alone. -/
namespace TrieArchive

variable {α κ : Type} [BEq κ]

namespace Archive

variable {L : Layout α κ} {a : Archive α}

/-- The references of a node lead back to it. -/
def OnCycle (a : Archive α) (x : Id) : Prop := ∃ d child, a.node? x = some d ∧ child ∈ d.children ∧ a.Reaches child x

theorem Unfolds.exists_child {id child : Id} {node : Node α} {depth path : Nat} {d : Description α}
    (unfolds : a.Unfolds id node) (canonical : node.Canonical L depth path) (stored : a.node? id = some d)
    (member : child ∈ d.children) : ∃ node' depth' path', a.Unfolds child node' ∧
      node'.Canonical L depth' path' ∧ node'.nodes < node.nodes := by
  cases unfolds with
  | collision stored' =>
    rw [stored] at stored'
    cases stored'
    contradiction
  | branch stored' width below =>
    rw [stored] at stored'
    cases stored'
    cases canonical with
    | branch _ _ _ _ linked _ _ _ inside =>
      obtain ⟨slot, named⟩ := (Bitmap.mem_iff_kept? (width.symm.trans linked)).mp member
      obtain ⟨node', kept⟩ := Bitmap.exists_kept linked (Bitmap.used_of_kept? named)
      exact ⟨node', _, _, Bitmap.rel_of_kept below named kept, inside slot node' kept,
        Node.nodes_lt_of_mem ((Bitmap.mem_iff_kept? linked).mpr ⟨slot, kept⟩)⟩

theorem Unfolds.exists_reached {id x : Id} {node : Node α} {depth path : Nat} (unfolds : a.Unfolds id node)
    (canonical : node.Canonical L depth path) (reached : a.Reaches id x) : ∃ node' depth' path', a.Unfolds x node' ∧
      node'.Canonical L depth' path' ∧ node'.nodes ≤ node.nodes := by
  induction reached with
  | start => exact ⟨node, depth, path, unfolds, canonical, Nat.le_refl _⟩
  | step _ stored member ih =>
    obtain ⟨between, _, _, unfolds', canonical', le⟩ := ih
    obtain ⟨node', depth', path', unfolds'', canonical'', less⟩ := unfolds'.exists_child canonical' stored member
    exact ⟨node', depth', path', unfolds'', canonical'', Nat.le_trans (Nat.le_of_lt less) le⟩

/-- What unfolds to a well-formed node is not on a cycle: it would unfold to a smaller one, too. -/
theorem Unfolds.not_onCycle {x : Id} {node : Node α} {depth path : Nat} (unfolds : a.Unfolds x node)
    (canonical : node.Canonical L depth path) : ¬ a.OnCycle x := by
  rintro ⟨d, child, stored, member, back⟩
  obtain ⟨below, _, _, unfolds', canonical', less⟩ := unfolds.exists_child canonical stored member
  obtain ⟨again, _, _, unfolds'', canonical'', le⟩ := unfolds'.exists_reached canonical' back
  have same : again = node := unfolds''.unique unfolds canonical'' canonical
  rw [same] at le
  exact Nat.not_le_of_lt less le

theorem Holds.not_onCycle {S : Scheme α κ} {id x : Id} {root : Root} {t : Trie α} (holds : a.Holds S id root t)
    (reached : a.Reaches root.node x) : ¬ a.OnCycle x := by
  obtain ⟨node, _, _, unfolds, canonical, -⟩ := holds.unfolds.exists_reached holds.canonical.root reached
  exact unfolds.not_onCycle canonical

end Archive

/-- A load that records what it rebuilds. -/
def Recorded.load (S : Scheme α κ) (a : Archive α) (r : Recorded α) (id : Id) : Recorded α × Except LoadError (Trie α) :=
  ((Rebuild.container S a id : RecordedRebuild α (Trie α)).run.run r).swap

/-- Loads one after another from an archive, of which nothing is remembered at first. -/
def Archive.recordedLoads (S : Scheme α κ) (a : Archive α) (ids : List Id) :
    Recorded α × List (Except LoadError (Trie α)) := run (Recorded.load S a) .empty ids

namespace Archive

variable {S : Scheme α κ} {a : Archive α}

/-- Loads are the same with and without the record. -/
theorem loads_eq_recordedLoads (S : Scheme α κ) (a : Archive α) (ids : List Id) :
    Loader.loads (·.load S) (.ofArchive a) ids = (⟨a, (a.recordedLoads S ids).1.cache⟩, (a.recordedLoads S ids).2) ∧
      (a.recordedLoads S ids).1.InOrder S a := by
  -- a loader and a record stay together as long as the loader has the memory of the record
  have step (l : Loader α) (r : Recorded α) (id : Id) (related : l = ⟨a, r.cache⟩ ∧ r.InOrder S a) :
      ((l.load S id).swap.1 = ⟨a, (r.load S a id).1.cache⟩ ∧ (r.load S a id).1.InOrder S a) ∧
        (l.load S id).swap.2 = (r.load S a id).2 := by
    obtain ⟨rfl, inOrder⟩ := related
    have traces := Rebuild.container_traces id inOrder
    refine ⟨⟨?_, traces.inOrder⟩, ?_⟩
    all_goals
      rw [Loader.load, traces.same]
      rfl
  obtain ⟨⟨last, inOrder⟩, answers⟩ := run_simulates step ids ⟨rfl, Recorded.inOrder_empty⟩
  exact ⟨Prod.ext last answers, inOrder⟩

theorem reached_loaderAfter (S : Scheme α κ) (a : Archive α) (ids : List Id) :
    (a.loaderAfter (·.load S) ids).Reached S a :=
  Loader.Reached.fresh.loads (fun l id => Prod.ext (congrFun Except.map_id (l.load S id).1).symm rfl) ids

/-- Behind some loads, with success or not, a loader remembers a node under an id. -/
def Remembers (S : Scheme α κ) (a : Archive α) (ids : List Id) (x : Id) (p : Placed α) : Prop :=
  (a.loaderAfter (·.load S) ids).cache.get? x = some p

/-- Later loads start from what the earlier ones remember, and none of it changes. -/
theorem Remembers.append {ids : List Id} {x : Id} {p : Placed α} (known : a.Remembers S ids x p) (later : List Id) :
    a.Remembers S (ids ++ later) x p := by
  rw [Remembers, loaderAfter, Loader.loads_append]
  exact Loader.get?_loads known later

/-- What a loader remembers behind some loads. Each node is the description under its id, which belongs there, put
together from what is remembered under the ids of the children, and it is counted and placed as its values are. None is
lost or changed later or was rebuilt twice, and there are no more of them than the archive has. What leads into a circle
is not loaded. -/
structure LoaderMemory (S : Scheme α κ) (a : Archive α) (ids : List Id) : Prop where
  assembled : ∀ x p, a.Remembers S ids x p → ∃ d, a.node? x = some d ∧ d.identity S.toAddressing = x ∧
    Placed.Assembled (a.Remembers S ids) p.depth p.path d p.node
  placed : ∀ x p, a.Remembers S ids x p →
    p.count = p.node.toList.length ∧ ∀ v ∈ p.node.toList, pathOf (S.place v) p.depth = p.path
  kept : ∀ x p, a.Remembers S ids x p → ∀ later, a.Remembers S (ids ++ later) x p
  recorded : Loader.loads (·.load S) (.ofArchive a) ids =
    (⟨a, (a.recordedLoads S ids).1.cache⟩, (a.recordedLoads S ids).2)
  once : ((a.recordedLoads S ids).1.rebuilt.map Prod.fst).Nodup
  rebuilt : ∀ x p, (x, p) ∈ (a.recordedLoads S ids).1.rebuilt ↔ a.Remembers S ids x p
  few : (a.loaderAfter (·.load S) ids).cache.size ≤ a.nodes.size
  cycles : ∀ id root x, a.root? id = some root → a.Reaches root.node x → a.OnCycle x →
    ∀ t, ((a.loaderAfter (·.load S) ids).load S id).1 ≠ .ok t

/-- Whatever an archive says, with whatever digest, and whatever was loaded from it, with success or not, a loader
remembers descriptions of the archive with the remembered nodes in place of their children, each rebuilt once. -/
theorem loader_memory_in_order (S : Scheme α κ) (a : Archive α) (ids : List Id) : a.LoaderMemory S ids := by
  obtain ⟨recorded, inOrder⟩ := loads_eq_recordedLoads S a ids
  have remembered (x : Id) (p : Placed α) : a.Remembers S ids x p ↔ (x, p) ∈ (a.recordedLoads S ids).1.rebuilt := by
    rw [Remembers, loaderAfter, recorded]
    exact inOrder.remembered x p
  have assembled (x : Id) (p : Placed α) (known : a.Remembers S ids x p) :
      ∃ d, a.node? x = some d ∧ d.identity S.toAddressing = x ∧
        Placed.Assembled (a.Remembers S ids) p.depth p.path d p.node := by
    obtain ⟨d, stored, identity, assembled⟩ := inOrder.assembled x p ((remembered x p).mp known)
    exact ⟨d, stored, identity, assembled.mono fun y q => (remembered y q).mpr⟩
  obtain ⟨-, sound⟩ := (reached_loaderAfter S a ids).sound
  constructor
  case recorded => exact recorded
  case once => exact inOrder.once
  case rebuilt => exact fun x p => (remembered x p).symm
  case assembled => exact assembled
  case placed =>
    intro x p known
    obtain ⟨-, -, canonical, count⟩ := sound x p known
    exact ⟨count.trans p.node.length_toList.symm, fun v => canonical.pathOf_eq⟩
  case kept => exact fun x p known => known.append
  case few =>
    refine size_le_of_isSome fun x known => ?_
    obtain ⟨p, known⟩ := Option.isSome_iff_exists.mp known
    obtain ⟨d, stored, -⟩ := assembled x p known
    exact Option.isSome_iff_exists.mpr ⟨d, stored⟩
  case cycles =>
    intro id root x stored reaches onCycle t loaded
    obtain ⟨root', holds⟩ := (reached_loaderAfter S a ids).holds loaded
    obtain rfl : root' = root := Option.some.inj (holds.stored.symm.trans stored)
    exact holds.not_onCycle reaches onCycle

/-- A node that is its own child, under a digest that can be computed backwards, and two values, each under a root. -/
theorem loader_memory_in_order_self_reference :
    let digest (s : Bytes) : Id := ⟨UInt8.ofNat s.length :: s.getD 13 0 :: List.replicate 30 0, rfl⟩
    let S : Scheme UInt64 UInt64 := ⟨⟨fun v => Bytes.word 8 v.toNat, digest⟩, ⟨id, id⟩, .set⟩
    let leaf : Description UInt64 := .branch 3 0 [0, 1] []
    let loop : Id := ⟨54 :: 0 :: List.replicate 30 0, rfl⟩
    let circle : Description UInt64 := .branch 0 1 [] [loop]
    let good : Root := ⟨leaf.identity S.toAddressing, 2, .set⟩
    let bad : Root := ⟨loop, 2, .set⟩
    let a : Archive UInt64 :=
      ⟨((∅ : Std.ExtTreeMap Id _).insert (leaf.identity S.toAddressing) leaf).insert loop circle,
        ((∅ : Std.ExtTreeMap Id _).insert (good.identity digest) good).insert (bad.identity digest) bad⟩
    let ids := [bad.identity digest, good.identity digest, bad.identity digest]
    circle.identity S.toAddressing = loop ∧ a.LoaderMemory S ids ∧
      (∃ t, ((a.loaderAfter (·.load S) ids).load S (good.identity digest)).1 = .ok t) ∧
      ∀ t, ((a.loaderAfter (·.load S) ids).load S (bad.identity digest)).1 ≠ .ok t := by
  intro digest S leaf loop circle good bad a ids
  have memory := loader_memory_in_order S a ids
  refine ⟨by decide +kernel, memory, by decide +kernel, ?_⟩
  exact memory.cycles _ bad loop (by decide +kernel) .start
    ⟨circle, loop, Std.ExtTreeMap.getElem?_insert_self, .head _, .start⟩

end Archive

end TrieArchive
