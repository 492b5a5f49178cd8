import TrieArchive.Archive.Save
import TrieArchive.Proofs.Archive.Exactness

/-! What saving writes down. A trie is held by an archive under the root that saving stores if all that saving
stores is there, and only then. -/
namespace TrieArchive

variable {α : Type}

namespace Node

variable {A : Addressing α}

/-- The id under which a node is saved. -/
def identity (A : Addressing α) (node : Node α) : Id := (node.manifest A).1

theorem manifestAll_eq (nodes : List (Node α)) :
    manifestAll A nodes = (nodes.map (identity A), nodes.flatMap fun node => (node.manifest A).2) := by
  induction nodes with
  | nil => rfl
  | cons node rest ih => rw [manifestAll, ih]; rfl

theorem manifest_branch (datamap nodemap : UInt32) (values : List α) (children : List (Node α)) :
    (branch datamap nodemap values children).manifest A =
      (let description := Description.branch datamap nodemap values (children.map (identity A))
       let id := description.identity A
       (id, (children.flatMap fun node => (node.manifest A).2) ++ [(id, description)])) := by
  rw [manifest, manifestAll_eq]

theorem identity_branch (datamap nodemap : UInt32) (values : List α) (children : List (Node α)) :
    (branch datamap nodemap values children).identity A =
      (Description.branch datamap nodemap values (children.map (identity A))).identity A := by
  rw [identity, manifest_branch]

theorem identity_collision (hash : UInt64) (values : List α) :
    (collision hash values).identity A = (Description.collision values).identity A := by
  rw [identity, manifest]

theorem mem_manifest_branch {datamap nodemap : UInt32} {values : List α} {children : List (Node α)}
    {entry : Id × Description α} : entry ∈ ((branch datamap nodemap values children).manifest A).2 ↔
      (∃ child ∈ children, entry ∈ (child.manifest A).2) ∨
        entry = ((branch datamap nodemap values children).identity A,
          .branch datamap nodemap values (children.map (identity A))) := by
  rw [identity_branch, manifest_branch, List.mem_append, List.mem_flatMap, List.mem_singleton]

theorem mem_manifest_collision {hash : UInt64} {values : List α} {entry : Id × Description α} :
    entry ∈ ((collision hash values).manifest A).2 ↔
      entry = ((collision hash values).identity A, .collision values) := by
  rw [identity_collision, manifest, List.mem_singleton]

/-- Two lists are mapped to one where they agree place by place. -/
theorem map_eq_of_forall {β γ δ : Type} {f : β → δ} {g : γ → δ} {items : List β} {others : List γ}
    (width : items.length = others.length)
    (each : ∀ (i : Nat) b c, items[i]? = some b → others[i]? = some c → f b = g c) : items.map f = others.map g := by
  refine List.ext_getElem (by simpa using width) fun i here there => ?_
  rw [List.length_map] at here there
  rw [List.getElem_map, List.getElem_map]
  exact each i _ _ (List.getElem?_eq_getElem here) (List.getElem?_eq_getElem there)

/-- The ids of a node and of those below it, one for each of them. -/
def ids (A : Addressing α) (node : Node α) : List Id := (node.manifest A).2.map Prod.fst

theorem mem_ids {node : Node α} {x : Id} : x ∈ node.ids A ↔ ∃ d, (x, d) ∈ (node.manifest A).2 := by
  simp [ids]

/-- Of the entries under an id one is the first. -/
theorem exists_find?_of_mem {β : Type} {entries : List (Id × β)} {entry : Id × β} (member : entry ∈ entries) :
    ∃ other ∈ entries, other.1 = entry.1 ∧ entries.find? (·.1 = entry.1) = some other := by
  have known : (entries.find? (·.1 = entry.1)).isSome := List.find?_isSome.mpr ⟨entry, member, by simp⟩
  obtain ⟨other, first⟩ := Option.isSome_iff_exists.mp known
  exact ⟨other, List.mem_of_find?_eq_some first, by simpa using List.find?_some first, first⟩

theorem isSome_find?_manifest {node : Node α} {x : Id} :
    ((node.manifest A).2.find? (·.1 = x)).isSome ↔ x ∈ node.ids A := by
  simp [mem_ids]

end Node

namespace Archive

variable {A : Addressing α} {a : Archive α}

/-- A tree that unfolds from genuine nodes has the id it unfolds from, and saving it stores the nodes that are
reached from there. -/
theorem Unfolds.manifest {id : Id} {node : Node α} (unfolds : a.Unfolds id node) (genuine : a.GenuineFrom A id) :
    node.identity A = id ∧
      ∀ entry, entry ∈ (node.manifest A).2 ↔ a.Reaches id entry.1 ∧ a.node? entry.1 = some entry.2 := by
  induction unfolds with
  | collision stored =>
    have own := genuine.identity stored
    refine ⟨(Node.identity_collision ..).trans own, fun entry => ?_⟩
    rw [Node.manifest, own, List.mem_singleton]
    constructor
    · rintro rfl
      exact ⟨.start, stored⟩
    · rintro ⟨reached, there⟩
      obtain rfl := reached.eq_of_no_children stored rfl
      exact Prod.ext rfl (Option.some.inj (there.symm.trans stored))
  | @branch id datamap nodemap values ids children stored width below ih =>
    have own := genuine.identity stored
    have child (i : Nat) (childId : Id) (c : Node α) (first : ids[i]? = some childId)
        (second : children[i]? = some c) :=
      ih i childId c first second (genuine.child stored (List.mem_of_getElem? first))
    have named : children.map (Node.identity A) = ids := by
      rw [Node.map_eq_of_forall width fun i c childId here there => (child i childId c there here).1, List.map_id']
    rw [Node.identity, Node.manifest_branch, named]
    dsimp only
    rw [own]
    refine ⟨rfl, fun entry => ?_⟩
    rw [List.mem_append, List.mem_flatMap, List.mem_singleton]
    constructor
    · rintro (⟨c, here, inside⟩ | rfl)
      · obtain ⟨i, h, rfl⟩ := List.mem_iff_getElem.mp here
        have first := List.getElem?_eq_getElem (show i < ids.length from width ▸ h)
        obtain ⟨reached, there⟩ := ((child i _ _ first (List.getElem?_eq_getElem h)).2 entry).mp inside
        exact ⟨(Reaches.start.step stored (List.mem_of_getElem? first)).trans reached, there⟩
      · exact ⟨.start, stored⟩
    · rintro ⟨reached, there⟩
      rcases reached.head with start | ⟨d, childId, here, member, onward⟩
      · rw [start] at there
        exact .inr (Prod.ext start (Option.some.inj (there.symm.trans stored)))
      · obtain rfl := Option.some.inj (here.symm.trans stored)
        obtain ⟨i, h, rfl⟩ := List.mem_iff_getElem.mp member
        have second := List.getElem?_eq_getElem (show i < children.length from width ▸ h)
        refine .inl ⟨_, List.mem_of_getElem? second, ?_⟩
        exact ((child i _ _ (List.getElem?_eq_getElem h) second).2 entry).mpr ⟨onward, there⟩

/-- Where all nodes of a well-formed tree are stored it unfolds from its id, and all of them are genuine. -/
theorem unfolds_of_stored {κ : Type} [BEq κ] {L : Layout α κ} {depth path : Nat} {node : Node α}
    (canonical : node.Canonical L depth path)
    (stored : ∀ entry ∈ (node.manifest A).2, a.node? entry.1 = some entry.2) :
    a.Unfolds (node.identity A) node ∧ a.GenuineFrom A (node.identity A) := by
  induction canonical with
  | collision =>
    have own := stored _ (Node.mem_manifest_collision.mpr rfl)
    exact ⟨.collision own, genuineFrom_of_children own (Node.identity_collision ..).symm fun _ member => (nomatch member)⟩
  | @branch depth path datamap nodemap values children _ _ _ _ linked _ _ _ _ ih =>
    have own := stored _ (Node.mem_manifest_branch.mpr (.inr rfl))
    have each (child : Node α) (member : child ∈ children) :
        a.Unfolds (child.identity A) child ∧ a.GenuineFrom A (child.identity A) := by
      obtain ⟨slot, kept⟩ := (Bitmap.mem_iff_kept? linked).mp member
      exact ih slot child kept fun entry inside => stored entry (Node.mem_manifest_branch.mpr (.inl ⟨child, member, inside⟩))
    refine ⟨.branch own (List.length_map ..).symm fun i childId child first second => ?_,
      genuineFrom_of_children own (Node.identity_branch ..).symm fun childId member => ?_⟩
    · rw [List.getElem?_map, second, Option.map_some, Option.some.injEq] at first
      exact first ▸ (each child (List.mem_of_getElem? second)).1
    · obtain ⟨child, inside, rfl⟩ := List.mem_map.mp member
      exact (each child inside).2

end Archive

/-- The root that is stored when a trie is saved. -/
def Trie.record (A : Addressing α) (kind : Kind) (t : Trie α) : Root :=
  ⟨t.root.identity A, UInt64.ofNat t.size, kind⟩

namespace Archive

/-- What is stored first under an id stays. -/
theorem get?_insertIfNew {β : Type} (entries : Std.ExtTreeMap Id β) (id other : Id) (b : β) :
    (entries.insertIfNew id b).get? other = (entries.get? other).or (if id = other then some b else none) := by
  have matched : compare id other = .eq ↔ id = other := Std.LawfulEqOrd.compare_eq_iff_eq
  rw [Std.ExtTreeMap.get?_eq_getElem?, Std.ExtTreeMap.get?_eq_getElem?, Std.ExtTreeMap.getElem?_insertIfNew]
  simp only [matched]
  by_cases same : id = other
  · subst same
    by_cases known : id ∈ entries
    · simp [known]
    · simp [known]
  · simp [same]

/-- Among new entries the first one counts. -/
theorem get?_foldl_insertIfNew {β : Type} (entries : Std.ExtTreeMap Id β) (new : List (Id × β)) (id : Id) :
    (new.foldl (fun entries entry => entries.insertIfNew entry.1 entry.2) entries).get? id =
      (entries.get? id).or ((new.find? (·.1 = id)).map Prod.snd) := by
  induction new generalizing entries with
  | nil => simp
  | cons entry rest ih =>
    rw [List.foldl_cons, ih, get?_insertIfNew, List.find?_cons, Option.or_assoc]
    by_cases same : entry.1 = id <;> simp [same]

theorem node?_addNodes (a : Archive α) (entries : List (Id × Description α)) (id : Id) :
    (a.addNodes entries).node? id = (a.node? id).or ((entries.find? (·.1 = id)).map Prod.snd) :=
  get?_foldl_insertIfNew a.nodes entries id

variable (A : Addressing α) (a : Archive α) (kind : Kind) (t : Trie α) (id : Id)

theorem node?_save : (a.save A kind t).1.node? id =
    (a.node? id).or (((t.root.manifest A).2.find? (·.1 = id)).map Prod.snd) :=
  node?_addNodes a _ id

theorem isSome_node?_save_iff :
    ((a.save A kind t).1.node? id).isSome ↔ (a.node? id).isSome ∨ id ∈ t.root.ids A := by
  rw [node?_save, Option.isSome_or, Bool.or_eq_true, Option.isSome_map, Node.isSome_find?_manifest]

theorem root?_save : (a.save A kind t).1.root? id =
    (a.root? id).or (if (t.record A kind).identity A.digest = id then some (t.record A kind) else none) :=
  get?_insertIfNew a.roots _ id (t.record A kind)

end Archive

/-- What an archive holds is what saving would store there. -/
theorem Archive.Holds.record_eq {κ : Type} [BEq κ] {S : Scheme α κ} {a : Archive α} {id : Id} {root : Root}
    {t : Trie α} (holds : a.Holds S id root t) : t.record S.toAddressing S.kind = root := by
  obtain ⟨node, size, kind⟩ := root
  rw [Trie.record, (holds.unfolds.manifest holds.genuine).1, holds.size, ← holds.kind]
  simp

/-- A trie is held under the id of its record where its record and all its nodes are stored. -/
theorem Archive.holds_of_stored {κ : Type} [BEq κ] {S : Scheme α κ} {a : Archive α} {id : Id} {t : Trie α}
    (canonical : t.Canonical S.toLayout) (short : t.size < 2 ^ 64)
    (nodes : ∀ entry ∈ (t.root.manifest S.toAddressing).2, a.node? entry.1 = some entry.2)
    (named : (t.record S.toAddressing S.kind).identity S.digest = id)
    (root : a.root? id = some (t.record S.toAddressing S.kind)) :
    a.Holds S id (t.record S.toAddressing S.kind) t := by
  obtain ⟨unfolds, genuine⟩ := unfolds_of_stored canonical.root nodes
  refine ⟨root, rfl, named, genuine, unfolds, canonical, ?_⟩
  rw [Trie.record, UInt64.toNat_ofNat_of_lt' short]

/-- A saved trie is held by the archive it is saved into, unless something else stands there under one of its
ids or two of its nodes share an id. -/
theorem Archive.holds_save {κ : Type} [BEq κ] {S : Scheme α κ} {a : Archive α} {t : Trie α}
    (canonical : t.Canonical S.toLayout) (short : t.size < 2 ^ 64)
    (unique : ∀ entry ∈ (t.root.manifest S.toAddressing).2, ∀ other ∈ (t.root.manifest S.toAddressing).2,
      entry.1 = other.1 → entry = other)
    (nodes : ∀ entry ∈ (t.root.manifest S.toAddressing).2, ∀ d, a.node? entry.1 = some d → d = entry.2)
    (root : ∀ r, a.root? (a.save S.toAddressing S.kind t).2 = some r → r = t.record S.toAddressing S.kind) :
    (a.save S.toAddressing S.kind t).1.Holds S (a.save S.toAddressing S.kind t).2
      (t.record S.toAddressing S.kind) t := by
  have named : (t.record S.toAddressing S.kind).identity S.digest = (a.save S.toAddressing S.kind t).2 := rfl
  refine holds_of_stored canonical short (fun entry member => ?_) named ?_
  · rw [node?_save]
    cases found : a.node? entry.1 with
    | some d => rw [nodes entry member d found, Option.some_or]
    | none =>
      obtain ⟨other, written, same, first⟩ := Node.exists_find?_of_mem member
      rw [first, unique other written entry member same]
      rfl
  · rw [root?_save]
    cases found : a.root? (a.save S.toAddressing S.kind t).2 with
    | some r => rw [root r found, Option.some_or]
    | none => rw [Option.none_or, if_pos named]

/-- A trie whose nodes have different ids is held by an archive of its own. -/
theorem Archive.holds_save_new {κ : Type} [BEq κ] {S : Scheme α κ} {t : Trie α} (canonical : t.Canonical S.toLayout)
    (short : t.size < 2 ^ 64) (ids : ((t.root.manifest S.toAddressing).2.map Prod.fst).Nodup) :
    (empty.save S.toAddressing S.kind t).1.Holds S (empty.save S.toAddressing S.kind t).2
      (t.record S.toAddressing S.kind) t := by
  refine holds_save canonical short ?_ (fun _ _ _ found => ?_) fun _ found => ?_
  · exact fun _ first _ second same => List.inj_on_of_nodup_map ids first second same
  · simp [node?, empty] at found
  · simp [root?, empty] at found

/-- A trie of one node is held by an archive of its own. -/
theorem Archive.holds_save_empty {κ : Type} [BEq κ] {S : Scheme α κ} {t : Trie α}
    (canonical : t.Canonical S.toLayout) (short : t.size < 2 ^ 64)
    (alone : (t.root.manifest S.toAddressing).2.length = 1) :
    (empty.save S.toAddressing S.kind t).1.Holds S (empty.save S.toAddressing S.kind t).2
      (t.record S.toAddressing S.kind) t := by
  obtain ⟨entry, only⟩ := List.length_eq_one_iff.mp alone
  refine holds_save_new canonical short ?_
  rw [only]
  exact List.nodup_singleton _

end TrieArchive
