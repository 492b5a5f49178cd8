import TrieArchive.Proofs.Archive.Sessions
import TrieArchive.Proofs.Archive.SharedLoader
import TrieArchive.Proofs.Archive.Union

/-! What holds of every archive that saves have built. No reference in it leads nowhere and nothing lies in it that no
root needs, so that loading all its roots meets each of its nodes. -/
namespace TrieArchive

variable {α γ κ σ : Type}

/-- Saving writes down each node that it refers to. -/
theorem Node.mem_ids_of_child {A : Addressing α} {entry : Id × Description α} {child : Id} (node : Node α)
    (member : entry ∈ (node.manifest A).2) (refers : child ∈ entry.2.children) : child ∈ node.ids A := by
  cases node with
  | branch datamap nodemap values children =>
    rcases mem_manifest_branch.mp member with ⟨inner, inside, below⟩ | rfl
    · obtain ⟨d, written⟩ := mem_ids.mp (mem_ids_of_child inner below refers)
      exact mem_ids.mpr ⟨d, mem_manifest_branch.mpr (.inl ⟨inner, inside, written⟩)⟩
    · obtain ⟨inner, inside, rfl⟩ := List.mem_map.mp refers
      obtain ⟨d, own⟩ := inner.exists_mem_manifest (A := A)
      exact mem_ids.mpr ⟨d, mem_manifest_branch.mpr (.inl ⟨inner, inside, own⟩)⟩
  | collision =>
    rw [mem_manifest_collision.mp member] at refers
    contradiction
termination_by node

namespace Archive

/-- Everything stands under its own id, and no reference leads nowhere. -/
structure Closed (A : Addressing α) (a : Archive α) : Prop where
  nodes : ∀ x d, a.node? x = some d → d.identity A = x
  roots : ∀ id r, a.root? id = some r → r.identity A.digest = id
  children : ∀ x d, a.node? x = some d → ∀ child ∈ d.children, (a.node? child).isSome
  tops : ∀ id r, a.root? id = some r → (a.node? r.node).isSome

/-- No node is there for nothing, and each root tells how many values it stands for. -/
structure Exact (a : Archive α) : Prop where
  used : ∀ x d, a.node? x = some d → ∃ id, a.Under id x
  sizes : ∀ id r, a.root? id = some r → (∃ node, a.Unfolds r.node node) ∧
    ∀ node, a.Unfolds r.node node → node.toList.length = r.size.toNat

/-- When one loader has loaded all roots, in any order and with repeats, it has got all of them and remembers as many
nodes as there are. -/
def LoadsWhole (a : Archive α) (load : Loader α → Id → Except LoadError γ × Loader α) : Prop :=
  ∀ ids : List Id, (∀ id, id ∈ ids ↔ (a.root? id).isSome) →
    (∀ answer ∈ (Loader.loads load (.ofArchive a) ids).2, ∃ c, answer = .ok c) ∧
      (a.loaderAfter load ids).cache.size = a.nodes.size

variable {A : Addressing α} {a : Archive α}

theorem Closed.isSome_of_reaches (closed : a.Closed A) {id x : Id} (stored : (a.node? id).isSome)
    (reached : a.Reaches id x) : (a.node? x).isSome := by
  induction reached with
  | start => exact stored
  | step _ found member => exact closed.children _ _ found _ member

theorem Closed.genuineFrom (closed : a.Closed A) {id : Id} (stored : (a.node? id).isSome) : a.GenuineFrom A id := by
  intro x reached
  obtain ⟨d, found⟩ := Option.isSome_iff_exists.mp (closed.isSome_of_reaches stored reached)
  exact ⟨d, found, closed.nodes x d found⟩

/-- Whatever stands in for the hashes of collisions, an id unfolds to the same values. -/
theorem Unfolds.toList_eq {id : Id} {node node' : Node α} (unfolds : a.Unfolds id node)
    (unfolds' : a.Unfolds id node') : node.toList = node'.toList := by
  induction unfolds generalizing node' with
  | collision stored =>
    cases unfolds' with
    | branch stored' => rw [stored] at stored'; cases stored'
    | collision stored' =>
      rw [stored] at stored'
      cases stored'
      rw [Node.toList_collision, Node.toList_collision]
  | branch stored width _ ih =>
    cases unfolds' with
    | collision stored' => rw [stored] at stored'; cases stored'
    | branch stored' width' below' =>
      rw [stored] at stored'
      cases stored'
      rw [Node.toList_branch, Node.toList_branch, List.flatMap, List.flatMap]
      refine congrArg (_ ++ List.flatten ·) (Node.map_eq_of_forall (width.trans width'.symm) fun i c c' here there => ?_)
      obtain ⟨bound, -⟩ := List.getElem?_eq_some_iff.mp here
      have found := List.getElem?_eq_getElem (width ▸ bound)
      exact ih i _ c found here (below' i _ c' found there)

/-- What unfolds from the root that a trie was saved under is the trie, up to the order inside collisions. -/
def Retains (A : Addressing α) (a : Archive α) (e : Kind × Trie α) : Prop :=
  ∃ node, e.2.root.Alike node ∧ a.Unfolds (e.2.record A e.1).node node ∧
    node.toList.length = (e.2.record A e.1).size.toNat

/-- An archive has the nodes of what was saved. -/
theorem Accounts.isSome_node?_iff {saved : List (Kind × Trie α)} (accounts : a.Accounts A saved) {x : Id} :
    (a.node? x).isSome ↔ ∃ e ∈ saved, x ∈ e.2.root.ids A := by
  constructor
  · intro stored
    obtain ⟨d, found⟩ := Option.isSome_iff_exists.mp stored
    obtain ⟨e, member, inside⟩ := accounts.nodes x d found
    exact ⟨e, member, Node.mem_ids.mpr ⟨d, inside⟩⟩
  · rintro ⟨e, member, inside⟩
    obtain ⟨d, written⟩ := Node.mem_ids.mp inside
    exact accounts.node e member _ written

theorem Accounts.isSome_root?_iff {saved : List (Kind × Trie α)} (accounts : a.Accounts A saved) {id : Id} :
    (a.root? id).isSome ↔ ∃ e ∈ saved, (e.2.record A e.1).identity A.digest = id := by
  constructor
  · intro stored
    obtain ⟨r, found⟩ := Option.isSome_iff_exists.mp stored
    obtain ⟨e, member, rfl, named⟩ := accounts.roots id r found
    exact ⟨e, member, named⟩
  · rintro ⟨e, member, rfl⟩
    exact accounts.root e member

section Saved

variable {P : Bytes → Prop} {Q : α → Prop} {saved : List (Kind × Trie α)} (accounts : a.Accounts A saved)
  (storable : ∀ e ∈ saved, e.2.Storable A P Q e.1)

include accounts storable

theorem Accounts.closed : a.Closed A where
  nodes x d found := by
    obtain ⟨e, member, inside⟩ := accounts.nodes x d found
    exact ((storable e member).entries _ inside).1
  roots id r found := by
    obtain ⟨e, -, -, named⟩ := accounts.roots id r found
    exact named
  children x d found child refers := by
    obtain ⟨e, member, inside⟩ := accounts.nodes x d found
    exact accounts.isSome_node?_iff.mpr ⟨e, member, e.2.root.mem_ids_of_child inside refers⟩
  tops id r found := by
    obtain ⟨e, member, rfl, -⟩ := accounts.roots id r found
    exact accounts.isSome_node?_iff.mpr ⟨e, member, Node.mem_ids.mpr e.2.root.exists_mem_manifest⟩

variable (unique : NoCollision A.digest P)

include unique

/-- For each node of a saved trie something alike is stored, so a tree alike unfolds. -/
theorem Accounts.retains [BEq κ] [EquivBEq κ] {L : Layout α κ} (delimits : Delimits A.encode Q) {e : Kind × Trie α}
    (member : e ∈ saved) (canonical : e.2.Canonical L) : a.Retains A e := by
  obtain ⟨node, alike, stored⟩ := exists_alike_stored canonical.root fun entry inside =>
    accounts.exists_alike unique delimits storable member inside
  have length : e.2.root.toList.length = node.toList.length := alike.toList_perm.length_eq
  have short : node.toList.length < 2 ^ 64 := length ▸ (storable e member).short
  refine ⟨node, alike, ?_, ?_⟩
  · rw [Trie.record, alike.identity_eq]
    exact (unfolds_of_stored (canonical.root.of_alike alike) stored).1
  · rw [Trie.record, canonical.size_eq_length, Trie.toList, length, UInt64.toNat_ofNat_of_lt' short]

theorem Accounts.exact (retains : ∀ e ∈ saved, a.Retains A e) : a.Exact where
  used x d found := by
    obtain ⟨e, member, inside⟩ := accounts.nodes x d found
    obtain ⟨node, alike, unfolds, -⟩ := retains e member
    have closed := accounts.closed storable
    have root := accounts.root?_eq unique storable member
    have whole := unfolds.manifest (closed.genuineFrom (closed.tops _ _ root))
    obtain ⟨d', written⟩ := Node.mem_ids.mp (alike.mem_ids (Node.mem_ids.mpr ⟨d, inside⟩))
    exact ⟨_, _, root, ((whole.2 _).mp written).1⟩
  sizes id r found := by
    obtain ⟨e, member, rfl, -⟩ := accounts.roots id r found
    obtain ⟨node, -, unfolds, size⟩ := retains e member
    exact ⟨⟨node, unfolds⟩, fun node' unfolds' => unfolds'.toList_eq unfolds ▸ size⟩

end Saved

/-- Entries are at most as many as those under the same ids and the ids of those left over. -/
theorem size_le_add_of_isSome {β γ : Type} {m : Std.ExtTreeMap Id β} {n : Std.ExtTreeMap Id γ} (others : List Id)
    (part : ∀ x, (m.get? x).isSome → (n.get? x).isSome ∨ x ∈ others) : m.size ≤ n.size + others.length := by
  rw [← Std.ExtTreeMap.length_keys, ← Std.ExtTreeMap.length_keys, ← List.length_append]
  refine (List.subperm_of_subset Std.ExtTreeMap.nodup_keys fun x member => List.mem_append.mpr ?_).length_le
  simpa using part x (by simpa using member)

theorem size_le_of_isSome {β γ : Type} {m : Std.ExtTreeMap Id β} {n : Std.ExtTreeMap Id γ}
    (part : ∀ x, (m.get? x).isSome → (n.get? x).isSome) : m.size ≤ n.size :=
  size_le_add_of_isSome [] fun x stored => .inl (part x stored)

/-- Entries under the same ids are equally many. -/
theorem size_eq_of_isSome_iff {β γ : Type} {m : Std.ExtTreeMap Id β} {n : Std.ExtTreeMap Id γ}
    (same : ∀ x, (m.get? x).isSome ↔ (n.get? x).isSome) : m.size = n.size :=
  Nat.le_antisymm (size_le_of_isSome fun x => (same x).mp) (size_le_of_isSome fun x => (same x).mpr)

/-- Where nothing is missing and nothing is left over, one loader for all roots meets every node. -/
theorem Closed.loadsWhole [BEq κ] {S : Scheme α κ} (closed : a.Closed A) (exact : a.Exact)
    {load : Loader α → Id → Except LoadError γ × Loader α} {f : Trie α → γ} {N : γ → List (Id × Placed α)}
    (wraps : ∀ l id, load l id = ((l.load S id).1.map f, (l.load S id).2))
    (views : ∀ t, N (f t) = t.placements S.toAddressing)
    (good : ∀ id, (a.root? id).isSome → ∃ c, (load (.ofArchive a) id).1 = .ok c) : a.LoadsWhole load := by
  intro ids all
  have shares := sharesLoader wraps views fun id member => good id ((all id).mp member)
  constructor
  · intro answer member
    rw [shares.answers] at member
    obtain ⟨id, inside, rfl⟩ := List.mem_map.mp member
    exact good id ((all id).mp inside)
  · refine size_eq_of_isSome_iff fun x => ?_
    refine (Option.isSome_iff_exists.trans (shares.reached x)).trans ⟨?_, fun stored => ?_⟩
    · rintro ⟨id, -, r, root, reached⟩
      exact closed.isSome_of_reaches (closed.tops id r root) reached
    · obtain ⟨d, found⟩ := Option.isSome_iff_exists.mp stored
      obtain ⟨id, r, root, reached⟩ := exact.used x d found
      exact ⟨id, (all id).mpr (Option.isSome_iff_exists.mpr ⟨r, root⟩), r, root, reached⟩

variable {P : Bytes → Prop} {Q : α → Prop} {saved : List (Kind × Trie α)} [BEq α] [ReflBEq α] [BEq κ] [EquivBEq κ]
  {S : Scheme α κ}

/-- Each root of what was saved is loaded, so where all are of one kind one loader meets every node. -/
theorem Accounts.loadsWhole (accounts : a.Accounts S.toAddressing saved) (unique : NoCollision S.digest P)
    (delimits : Delimits S.encode Q) (storable : ∀ e ∈ saved, e.2.Storable S.toAddressing P Q e.1)
    (canonical : ∀ t, (S.kind, t) ∈ saved → t.Canonical S.toLayout) (exact : a.Exact)
    (kinds : ∀ id r, a.root? id = some r → r.kind = S.kind)
    {load : Loader α → Id → Except LoadError γ × Loader α} {f : Trie α → γ} {N : γ → List (Id × Placed α)}
    (wraps : ∀ l id, load l id = ((l.load S id).1.map f, (l.load S id).2))
    (views : ∀ t, N (f t) = t.placements S.toAddressing) : a.LoadsWhole load := by
  refine (accounts.closed storable).loadsWhole exact wraps views fun id present => ?_
  obtain ⟨r, found⟩ := Option.isSome_iff_exists.mp present
  obtain ⟨⟨_, t⟩, member, rfl, rfl⟩ := accounts.roots id r found
  obtain rfl : _ = S.kind := kinds _ _ found
  obtain ⟨t', loaded, -⟩ := accounts.load unique delimits storable canonical .fresh member
  exact ⟨f t', (congrArg Prod.fst (wraps ..)).trans (congrArg (Except.map f) loaded)⟩

end Archive

end TrieArchive
