import TrieArchive.Proofs.Archive.Union

/-! Archives that have lost some nodes. A container of which no node was lost is loaded as before. For any other the
loader names the first lost node that it comes to, and the node or root that refers to it. -/
namespace TrieArchive

variable {α κ : Type}

namespace Node

variable (A : Addressing α)

mutual
/-- The references followed to rebuild a node that `parent` refers to, each from where it is made to where it leads.
Those of the children come behind the node's own, in slot order. -/
def references : (parent : Id) → Node α → List (Id × Id)
  | parent, .branch datamap nodemap values children =>
    let id := (branch datamap nodemap values children).identity A
    (parent, id) :: referencesAll id children
  | parent, .collision hash values => [(parent, (collision hash values).identity A)]
def referencesAll : (parent : Id) → List (Node α) → List (Id × Id)
  | _, [] => []
  | parent, node :: rest => references parent node ++ referencesAll parent rest
end

variable {A}

theorem referencesAll_eq (parent : Id) (nodes : List (Node α)) :
    referencesAll A parent nodes = nodes.flatMap (references A parent) := by
  induction nodes with
  | nil => rfl
  | cons node rest ih => rw [referencesAll, ih, List.flatMap_cons]

theorem references_eq (parent : Id) (node : Node α) :
    node.references A parent = (parent, node.identity A) :: node.children.flatMap (references A (node.identity A)) := by
  cases node with
  | branch => rw [references, referencesAll_eq]; rfl
  | collision => rw [references]; rfl

/-- Each node is referred to once. -/
theorem map_snd_references (parent : Id) (node : Node α) :
    ((node.references A parent).map Prod.snd).Perm (node.ids A) := by
  rw [references_eq, List.map_cons, List.map_flatMap]
  cases node with
  | collision =>
    rw [identity_collision, ids, manifest]
    exact .refl _
  | branch datamap nodemap values children =>
    let id := (branch datamap nodemap values children).identity A
    have below : (children.flatMap fun child => (child.references A id).map Prod.snd).Perm (children.flatMap (ids A)) :=
      .flatMap_left children fun child _ => map_snd_references id child
    have own : (branch datamap nodemap values children).ids A = children.flatMap (ids A) ++ [id] := by
      rw [ids, manifest_branch, List.map_append, List.map_flatMap]
      exact congrArg (_ ++ [·]) (identity_branch ..).symm
    rw [own]
    exact (below.cons _).trans (List.perm_append_singleton ..).symm
termination_by node

theorem exists_reference_iff (parent : Id) {node : Node α} {x : Id} :
    (∃ p, (p, x) ∈ node.references A parent) ↔ x ∈ node.ids A := by
  rw [← (map_snd_references parent node).mem_iff]
  simp

/-- The order inside collisions does not show in references. -/
theorem Alike.references_eq {node node' : Node α} (alike : node.Alike node') (parent : Id) :
    node.references A parent = node'.references A parent := by
  induction alike generalizing parent with
  | collision same =>
    rw [Node.references_eq, Node.references_eq, (Alike.collision same).identity_eq]
    rfl
  | branch width below ih =>
    rw [Node.references_eq, Node.references_eq, (Alike.branch width below).identity_eq]
    refine congrArg (_ :: List.flatten ·) (map_eq_of_forall width fun i child child' here there => ?_)
    exact ih i child child' here there _

end Node

namespace Archive

/-- An archive without the nodes under these ids. Its roots are kept. -/
def without (a : Archive α) (removed : List Id) : Archive α := ⟨removed.foldl (·.erase ·) a.nodes, a.roots⟩

variable {a : Archive α} {removed : List Id}

theorem node?_without (a : Archive α) (removed : List Id) (x : Id) :
    (a.without removed).node? x = if x ∈ removed then none else a.node? x := by
  induction removed generalizing a with
  | nil => rfl
  | cons id rest ih =>
    have first : (a.nodes.erase id).get? x = if x = id then none else a.node? x := by
      have matched : compare id x = .eq ↔ x = id := Std.LawfulEqOrd.compare_eq_iff_eq.trans eq_comm
      rw [Std.ExtTreeMap.get?_eq_getElem?, Std.ExtTreeMap.getElem?_erase]
      simp only [matched]
      rfl
    refine (ih ⟨a.nodes.erase id, a.roots⟩).trans ?_
    rw [node?, first]
    by_cases later : x ∈ rest <;> simp [later]

/-- What is met although nodes are missing is met where they are not. -/
theorem node?_of_without {x : Id} {d : Description α} (stored : (a.without removed).node? x = some d) :
    x ∉ removed ∧ a.node? x = some d := by
  rw [node?_without] at stored
  split at stored
  next => cases stored
  next kept => exact ⟨kept, stored⟩

variable {A : Addressing α}

/-- Where all nodes that are met are still there, none that was met before is missing. -/
theorem GenuineFrom.reaches_without {id x : Id} (genuine : (a.without removed).GenuineFrom A id)
    (reached : a.Reaches id x) : (a.without removed).Reaches id x := by
  induction reached with
  | start => exact .start
  | step _ stored member ih =>
    obtain ⟨d, there, -⟩ := genuine _ ih
    obtain rfl := Option.some.inj (stored.symm.trans (node?_of_without there).2)
    exact ih.step there member

theorem GenuineFrom.not_mem_of_reaches {id x : Id} (genuine : (a.without removed).GenuineFrom A id)
    (reached : a.Reaches id x) : x ∉ removed := by
  obtain ⟨d, there, -⟩ := genuine x (genuine.reaches_without reached)
  exact (node?_of_without there).1

variable [BEq κ] {L : Layout α κ} {depth path : Nat} {node : Node α} {parent : Id}

/-- A tree none of whose nodes is missing still unfolds. -/
theorem unfolds_without (canonical : node.Canonical L depth path)
    (stored : ∀ entry ∈ (node.manifest A).2, a.node? entry.1 = some entry.2)
    (whole : (node.references A parent).find? (·.2 ∈ removed) = none) :
    (a.without removed).Unfolds (node.identity A) node ∧ (a.without removed).GenuineFrom A (node.identity A) := by
  refine unfolds_of_stored canonical fun entry written => ?_
  obtain ⟨p, refers⟩ := (Node.exists_reference_iff _).mpr (Node.mem_ids.mpr ⟨entry.2, written⟩)
  have kept : entry.1 ∉ removed := by simpa using List.find?_eq_none.mp whole _ refers
  rw [node?_without, if_neg kept, stored entry written]

/-- A tree with a missing node is not met as a whole. -/
theorem not_genuineFrom_without (canonical : node.Canonical L depth path)
    (stored : ∀ entry ∈ (node.manifest A).2, a.node? entry.1 = some entry.2) {found : Id × Id}
    (first : (node.references A parent).find? (·.2 ∈ removed) = some found) :
    ¬ (a.without removed).GenuineFrom A (node.identity A) := by
  intro genuine
  obtain ⟨unfolds, genuine'⟩ := unfolds_of_stored canonical stored
  obtain ⟨d, written⟩ := Node.mem_ids.mp ((Node.exists_reference_iff _).mp ⟨found.1, List.mem_of_find?_eq_some first⟩)
  have reached := (((unfolds.manifest genuine').2 _).mp written).1
  exact genuine.not_mem_of_reaches reached (by simpa using List.find?_some first)

end Archive

section Missing

variable [BEq κ] {S : Scheme α κ} {a b : Archive α} {removed : List Id} {depth path : Nat} {parent : Id}
  {node : Node α} {found : Id × Id}

namespace Rebuild

variable {P : Id → Prop}

/-- A node that is missing is reported where it is visited. If it is there, what is missing below is reported. -/
theorem visit_fails {build : Description α → Rebuild α (Node α × Nat)}
    (canonical : node.Canonical S.toLayout depth path)
    (stored : ∀ entry ∈ (node.manifest S.toAddressing).2, a.node? entry.1 = some entry.2)
    (first : (node.references S.toAddressing parent).find? (·.2 ∈ removed) = some found)
    (built : ∀ d, a.node? (node.identity S.toAddressing) = some d →
      (node.children.flatMap (Node.references S.toAddressing (node.identity S.toAddressing))).find? (·.2 ∈ removed) =
        some found →
      Fails (Cache.SettledAt S (a.without removed) P) (build d) (.danglingReference found.1 found.2)) :
    Fails (Cache.SettledAt S (a.without removed) P)
      (visit S (a.without removed) depth path parent (node.identity S.toAddressing) build)
      (.danglingReference found.1 found.2) := by
  obtain ⟨-, genuine⟩ := Archive.unfolds_of_stored canonical stored
  unfold visit
  refine .remembered fun cache settled => ?_
  -- what is remembered has been met as a whole
  have unknown : cache.get? (node.identity S.toAddressing) = none := Option.eq_none_iff_forall_ne_some.mpr
    fun p known => Archive.not_genuineFrom_without canonical stored first (settled _ p known).1.genuine
  rw [unknown]
  dsimp only
  cases there : (a.without removed).node? (node.identity S.toAddressing) with
  | none =>
    obtain ⟨d, own, -⟩ := genuine _ .start
    have gone : node.identity S.toAddressing ∈ removed := by
      by_contra kept
      rw [Archive.node?_without, if_neg kept, own] at there
      cases there
    rw [Node.references_eq, List.find?_cons_of_pos (by simpa using gone)] at first
    cases first
    exact .throw _
  | some d =>
    obtain ⟨kept, own⟩ := Archive.node?_of_without there
    rw [Node.references_eq, List.find?_cons_of_neg (by simpa using kept)] at first
    simp only [reject_bind]
    exact .check (not_not.mpr (genuine.identity own)) ((built d own first).bind _)

section Branch

variable {I : Cache α → Prop} {inner : (path : Nat) → Id → Rebuild α (Placed α)} {id : Id}

omit [BEq κ] in
/-- A child in a slot that can be used fails as what hangs there does. -/
theorem child_fails {slot : Nat} {childId : Id} {e : LoadError} (reached : path + slot * 2 ^ shiftAt depth < 2 ^ 64)
    (each : Fails I (inner (path + slot * 2 ^ shiftAt depth) childId) e) :
    Fails I (child inner id depth path slot childId) e := by
  rw [child_eq]
  exact .check (Nat.not_le_of_lt reached) (.bind each _)

/-- The children before the first one with a missing node are rebuilt, and that one fails. -/
theorem branch_fails {datamap nodemap : UInt32} {values : List α} {children : List (Node α)}
    (canonical : (Node.branch datamap nodemap values children).Canonical S.toLayout depth path)
    (first : (children.flatMap (Node.references S.toAddressing id)).find? (·.2 ∈ removed) = some found)
    (whole : ∀ path child, child ∈ children → child.Canonical S.toLayout (depth + 1) path → 2 ≤ child.count →
      (child.references S.toAddressing id).find? (·.2 ∈ removed) = none →
      b.Unfolds (child.identity S.toAddressing) child ∧
      Succeeds I (inner path (child.identity S.toAddressing))
        (Placed.Fits S b (depth + 1) path (child.identity S.toAddressing)))
    (missing : ∀ path child, child ∈ children → child.Canonical S.toLayout (depth + 1) path →
      (child.references S.toAddressing id).find? (·.2 ∈ removed) = some found →
      Fails I (inner path (child.identity S.toAddressing)) (.danglingReference found.1 found.2)) :
    Fails I (branch S inner id depth path datamap nodemap values (children.map (Node.identity S.toAddressing)))
      (.danglingReference found.1 found.2) := by
  rw [branch_eq canonical (List.length_map ..).symm]
  cases canonical with
  | branch _ _ _ _ linked _ reached several below =>
    rw [← Bitmap.map_snd_zip_slots linked, List.flatMap_map, List.find?_flatMap, List.findSome?_eq_some_iff] at first
    obtain ⟨before, ⟨slot, c⟩, behind, split, here, earlier⟩ := first
    have hung {other : Nat × Node α} (part : other ∈ before ++ (slot, c) :: behind) :
        other.2 ∈ children ∧ Bitmap.kept? nodemap children other.1 = some other.2 := by
      have kept := (Bitmap.mem_zip_slots linked).mp (split ▸ part)
      exact ⟨(Bitmap.mem_iff_kept? linked).mpr ⟨_, kept⟩, kept⟩
    rw [List.zip_map_right, split, List.map_append, List.map_cons]
    refine .bind (.mapM (R := ChildOf S b depth path) ?_ ?_ _) _
    · refine List.forall_mem_map.mpr fun other member => ?_
      obtain ⟨inside, kept⟩ := hung (List.mem_append_left _ member)
      have canonical := below _ _ kept
      obtain ⟨unfolds, rebuilt⟩ := whole _ _ inside canonical (several _ _ kept) (earlier other member)
      exact child_succeeds unfolds canonical (reached _ _ kept) (several _ _ kept) rebuilt
    · obtain ⟨inside, kept⟩ := hung (List.mem_append_right _ List.mem_cons_self)
      exact child_fails (reached _ _ kept) (missing _ _ inside (below _ _ kept) here)

end Branch

/-- Whatever was rebuilt before, the first reference to a missing node is reported. -/
theorem node_fails {left : Nat} (levels : depth + left = branchLevels)
    (canonical : node.Canonical S.toLayout depth path)
    (stored : ∀ entry ∈ (node.manifest S.toAddressing).2, a.node? entry.1 = some entry.2)
    (first : (node.references S.toAddressing parent).find? (·.2 ∈ removed) = some found) :
    Fails (Cache.SettledAt S (a.without removed) P)
      (Rebuild.node S (a.without removed) left depth path parent (node.identity S.toAddressing))
      (.danglingReference found.1 found.2) := by
  induction left generalizing depth path parent node with
  | zero =>
    refine visit_fails canonical stored first fun d own first => ?_
    cases node with
    | branch => cases canonical; omega
    | collision => cases first
  | succ left ih =>
    refine visit_fails canonical stored first fun d own first => ?_
    cases node with
    | collision => cases canonical; omega
    | branch datamap nodemap values children =>
      obtain rfl := Option.some.inj (own.symm.trans (stored _ (Node.mem_manifest_branch.mpr (.inr rfl))))
      have below (child : Node α) (inside : child ∈ children) (entry : Id × Description α)
          (written : entry ∈ (child.manifest S.toAddressing).2) : a.node? entry.1 = some entry.2 :=
        stored entry (Node.mem_manifest_branch.mpr (.inl ⟨child, inside, written⟩))
      refine branch_fails (b := a.without removed) canonical first (fun path child inside canonical several whole => ?_)
        fun path child inside canonical => ih (by omega) canonical (below child inside)
      obtain ⟨unfolds, genuine⟩ := Archive.unfolds_without canonical (below child inside) whole
      exact ⟨unfolds, node_succeeds _ (by omega) unfolds genuine canonical (.inl several)⟩

theorem container_fails {id : Id} {root : Root} {t : Trie α} (holds : a.Holds S id root t)
    (first : (t.root.references S.toAddressing id).find? (·.2 ∈ removed) = some found) :
    Fails (Cache.SettledAt S (a.without removed) P) (container S (a.without removed) id)
      (.danglingReference found.1 found.2) := by
  obtain ⟨named, written⟩ := holds.unfolds.manifest holds.genuine
  have stored : (a.without removed).root? id = some root := holds.stored
  unfold container rooted
  simp only [stored, reject_bind, throw_bind]
  rw [if_neg (not_not.mpr holds.kind), ← named]
  refine .check (not_not.mpr holds.identity) (.bind (node_fails (Nat.zero_add _) holds.canonical.root ?_ first) _)
  exact fun entry inside => ((written entry).mp inside).2

end Rebuild

namespace Archive

section Held

variable {id : Id} {root : Root} {t : Trie α}

theorem Holds.find?_references_eq_none_iff (holds : a.Holds S id root t) :
    (t.root.references S.toAddressing parent).find? (·.2 ∈ removed) = none ↔ ∀ x ∈ removed, ¬ a.Under id x := by
  simp only [List.find?_eq_none, decide_eq_true_eq, ← holds.mem_ids_iff, ← Node.exists_reference_iff parent]
  constructor
  · rintro whole x gone ⟨p, refers⟩
    exact whole _ refers gone
  · exact fun whole entry refers gone => whole _ gone ⟨entry.1, refers⟩

/-- A trie none of whose nodes is missing is still held. -/
theorem Holds.without (holds : a.Holds S id root t) (whole : ∀ x ∈ removed, ¬ a.Under id x) :
    (a.without removed).Holds S id root t := by
  obtain ⟨named, written⟩ := holds.unfolds.manifest holds.genuine
  have gone : (t.root.references S.toAddressing id).find? (·.2 ∈ removed) = none :=
    holds.find?_references_eq_none_iff.mpr whole
  obtain ⟨unfolds, genuine⟩ :=
    unfolds_without holds.canonical.root (fun entry inside => ((written entry).mp inside).2) gone
  rw [named] at unfolds genuine
  exact ⟨holds.stored, holds.kind, holds.identity, genuine, unfolds, holds.canonical, holds.size⟩

end Held

variable [BEq α]

/-- How the nodes of a saved trie that are missing show in the answer of a loader. If there are none, the trie is
answered. Otherwise the first of them is reported that is met from the root, with what refers to it. -/
structure ReportsMissing (A : Addressing α) (a : Archive α) (removed : List Id) (t : Trie α) (id : Id)
    (answer : Except LoadError (Trie α)) : Prop where
  reached : ∀ x, a.Under id x ↔ ∃ p, (p, x) ∈ t.root.references A id
  whole : (∀ x ∈ removed, ¬ a.Under id x) → ∃ t', answer = .ok t' ∧ t.Matches t'
  missing : (∃ x ∈ removed, a.Under id x) → ∃ parent lost,
    (t.root.references A id).find? (·.2 ∈ removed) = some (parent, lost) ∧
      answer = .error (.danglingReference parent lost)

namespace ReportsMissing

variable {A : Addressing α} {t : Trie α} {id : Id} {answer : Except LoadError (Trie α)}
  (reports : a.ReportsMissing A removed t id answer)

include reports

theorem error_of_find? (first : (t.root.references A id).find? (·.2 ∈ removed) = some found) :
    answer = .error (.danglingReference found.1 found.2) := by
  have gone : ∃ x ∈ removed, a.Under id x := ⟨found.2, by simpa using List.find?_some first,
    (reports.reached found.2).mpr ⟨found.1, List.mem_of_find?_eq_some first⟩⟩
  obtain ⟨parent, lost, first', answered⟩ := reports.missing gone
  cases first.symm.trans first'
  exact answered

theorem ok_of_find? (none : (t.root.references A id).find? (·.2 ∈ removed) = none) :
    ∃ t', answer = .ok t' ∧ t.Matches t' := by
  refine reports.whole fun x gone under => ?_
  obtain ⟨p, refers⟩ := (reports.reached x).mp under
  exact List.find?_eq_none.mp none _ refers (by simpa using gone)

end ReportsMissing

theorem Holds.reportsMissing {id : Id} {root : Root} {t t' : Trie α} (holds : a.Holds S id root t')
    (same : t.Matches t') (removed : List Id) : a.ReportsMissing S.toAddressing removed t id
      ((Loader.ofArchive (a.without removed)).load S id).1 where
  reached x := by rw [same.alike.references_eq, Node.exists_reference_iff, holds.mem_ids_iff]
  whole kept := ⟨t', Loader.load_ofArchive_eq_ok_iff.mpr ⟨root, holds.without kept⟩, same⟩
  missing gone := by
    rw [same.alike.references_eq]
    cases first : (t'.root.references S.toAddressing id).find? (·.2 ∈ removed) with
    | none =>
      obtain ⟨x, lost, under⟩ := gone
      exact absurd under (holds.find?_references_eq_none_iff.mp first x lost)
    | some found =>
      refine ⟨found.1, found.2, rfl, ?_⟩
      exact Rebuild.container_fails holds first _ (Cache.settled_iff.mp (Loader.cache_ofArchive_settled _))

variable [ReflBEq α] [EquivBEq κ] {P : Bytes → Prop} {Q : α → Prop}

/-- Each trie among those saved into a new archive is reported on. -/
theorem saves_reportMissing {σ : Type} {save : σ → Archive α → Archive α × Id} {view : σ → Kind × Trie α}
    {cs : List σ} {t : Trie α} (viewed : ∀ c a, save c a = a.save S.toAddressing (view c).1 (view c).2)
    (unique : NoCollision S.digest P) (delimits : Delimits S.encode Q)
    (storable : ∀ c ∈ cs, (view c).2.Storable S.toAddressing P Q (view c).1) (member : (S.kind, t) ∈ cs.map view)
    (canonical : t.Canonical S.toLayout) (removed : List Id) :
    (empty.saves save cs).1.ReportsMissing S.toAddressing removed t ((t.record S.toAddressing S.kind).identity S.digest)
      ((Loader.ofArchive ((empty.saves save cs).1.without removed)).load S
        ((t.record S.toAddressing S.kind).identity S.digest)).1 := by
  have accounts := accounts_empty.saves viewed empty cs
  rw [List.append_nil] at accounts
  have entries (e : Kind × Trie α) (inside : e ∈ (cs.map view).reverse) : e.2.Storable S.toAddressing P Q e.1 := by
    obtain ⟨c, here, rfl⟩ := List.mem_map.mp (List.mem_reverse.mp inside)
    exact storable c here
  obtain ⟨t', same, holds⟩ := accounts.holds unique delimits entries canonical (List.mem_reverse.mpr member)
  exact holds.reportsMissing same removed

end Archive

end Missing

section Containers

variable {β : Type} [BEq κ] [StableHash κ] [Binary κ] [Binary β] [BEq α] [StableHash α] [Binary α]

theorem TrieSet.map_trie_load (l : Loader α) (id : Id) : (TrieSet.load l id).1.map trie = (l.load scheme id).1 := by
  change ((l.load scheme id).1.map mk).map trie = _
  cases (l.load scheme id).1 <;> rfl

theorem TrieMap.map_trie_load (l : Loader (κ × β)) (id : Id) :
    (TrieMap.load l id).1.map trie = (l.load scheme id).1 := by
  change ((l.load scheme id).1.map mk).map trie = _
  cases (l.load scheme id).1 <;> rfl

/-- The trie that a loader of the container's kind answers. -/
def Container.reload [BEq β] [StableHash (κ × β)] :
    Container κ β → Loader (κ × β) → Id → Except LoadError (Trie (κ × β))
  | set _, l, id => (TrieSet.load l id).1.map TrieSet.trie
  | map _, l, id => (TrieMap.load l id).1.map TrieMap.trie

end Containers

/-- Whatever nodes an archive loses that has come of any saves, a container of which none was lost is loaded as it was
saved. For any other a fresh loader reports the first lost node that it comes to, slot by slot and to the bottom of each
slot before the next, and the node that refers to it, or the container itself where its root node is lost. -/
theorem missing_nodes_reported {α κ β : Type} [BEq α] [EquivBEq α] [StableHash α] [LawfulStableHash α] [Binary α]
    [LawfulBinary α] [BEq κ] [EquivBEq κ] [StableHash κ] [LawfulStableHash κ] [Binary κ] [LawfulBinary κ] [BEq β]
    [EquivBEq β] [Binary β] [LawfulBinary β] [Inhabited β] [StableHash (κ × β)] [LawfulStableHash (κ × β)] :
    (∀ cs : List (TrieSet α), (∀ c ∈ cs, c.Saveable) →
      NoCollision Id.blake3 (fun x => ∃ c ∈ cs, x ∈ c.trie.hashed .blake3 .set) →
      ∀ (a : Archive α) (ids : List Id), Archive.empty.saves TrieSet.save cs = (a, ids) → ∀ removed : List Id,
        List.Forall₂ (fun c id => a.ReportsMissing .blake3 removed c.trie id
          ((TrieSet.load (.ofArchive (a.without removed)) id).1.map TrieSet.trie)) cs ids) ∧
    (∀ cs : List (Container κ β), (∀ c ∈ cs, c.Saveable) →
      NoCollision Id.blake3 (fun x => ∃ c ∈ cs, x ∈ c.tagged.2.hashed .blake3 c.tagged.1) →
      ∀ (a : Archive (κ × β)) (ids : List Id), Archive.empty.saves Container.save cs = (a, ids) → ∀ removed : List Id,
        List.Forall₂ (fun c id => a.ReportsMissing .blake3 removed c.tagged.2 id
          (c.reload (.ofArchive (a.without removed)) id)) cs ids) := by
  constructor
  · intro cs saveable unique a ids built removed
    obtain ⟨rfl, rfl⟩ := Prod.ext_iff.mp built
    rw [Archive.saves_snd TrieSet.save_eq, List.forall₂_map_right_iff, List.forall₂_same]
    intro c member
    rw [TrieSet.map_trie_load]
    refine Archive.saves_reportMissing (S := TrieSet.scheme) TrieSet.save_eq unique LawfulBinary.delimits
      (fun other here => ?_) (List.mem_map_of_mem member) (saveable c member).canonical removed
    exact (saveable other here).storable fun x inside => ⟨other, here, inside⟩
  · intro cs saveable unique a ids built removed
    obtain ⟨rfl, rfl⟩ := Prod.ext_iff.mp built
    rw [Archive.saves_snd Container.save_eq, List.forall₂_map_right_iff, List.forall₂_same]
    intro c member
    have storable (other : Container κ β) (here : other ∈ cs) := (saveable other here).storable
      (P := fun x => ∃ c ∈ cs, x ∈ c.tagged.2.hashed .blake3 c.tagged.1) fun x inside => ⟨other, here, inside⟩
    cases c with
    | set s =>
      have canonical : s.trie.Canonical TrieSet.layout := TrieSet.Saveable.canonical (saveable _ member)
      rw [Container.reload, TrieSet.map_trie_load]
      exact Archive.saves_reportMissing (S := TrieSet.scheme) Container.save_eq unique LawfulBinary.delimits storable
        (List.mem_map_of_mem member) canonical removed
    | map m =>
      have canonical : m.trie.Canonical TrieMap.layout := TrieMap.Saveable.canonical (saveable _ member)
      rw [Container.reload, TrieMap.map_trie_load]
      exact Archive.saves_reportMissing (S := TrieMap.scheme) Container.save_eq unique LawfulBinary.delimits storable
        (List.mem_map_of_mem member) canonical removed

/-- Three sets, of which the first has two nodes below its root and the second has one of those. Both are lost, and of a
map beside a set of the same pairs the root node is. -/
theorem missing_nodes_reported_two_children :
    let s := TrieSet.ofList [(0 : UInt32), 1, 8, 10]
    let t := TrieSet.ofList [(0 : UInt32), 1]
    let one := TrieSet.ofList [(2 : UInt32)]
    let a := (Archive.empty.saves TrieSet.save [s, t, one]).1
    let top (c : TrieSet UInt32) := c.trie.root.identity .blake3
    let u := TrieSet.ofList [((0 : UInt32), (5 : UInt32))]
    let m := TrieMap.ofList [((0 : UInt32), (5 : UInt32))]
    let b := (Archive.empty.saves Container.save [.set u, .map m]).1.without [m.trie.root.identity .blake3]
    (∃ first second, s.trie.root.children.map (Node.identity .blake3) = [first, second] ∧
      let l := Loader.ofArchive (a.without [second, first])
      (TrieSet.load l (s.save .empty).2).1.map TrieSet.trie = .error (.danglingReference (top s) first) ∧
      (TrieSet.load l (t.save .empty).2).1.map TrieSet.trie = .error (.danglingReference (top t) second) ∧
      ∃ c, (TrieSet.load l (one.save .empty).2).1.map TrieSet.trie = .ok c ∧ one.trie.Matches c) ∧
    (∃ c, (TrieSet.load (.ofArchive b) (u.save .empty).2).1.map TrieSet.trie = .ok c ∧ u.trie.Matches c) ∧
      (TrieMap.load (κ := UInt32) (.ofArchive b) (m.save .empty).2).1.map TrieMap.trie =
        .error (.danglingReference (m.save .empty).2 (m.trie.root.identity .blake3)) := by
  intro s t one a top u m b
  obtain ⟨sets, mixed⟩ := missing_nodes_reported (α := UInt32) (κ := UInt32) (β := UInt32)
  constructor
  · let lost := s.trie.root.children.map (Node.identity .blake3)
    have digests : (([s, t, one].flatMap fun c => c.trie.hashed .blake3 .set).dedup.map Id.blake3).Nodup := by
      decide +kernel
    have few : s.size < 2 ^ 64 ∧ t.size < 2 ^ 64 ∧ one.size < 2 ^ 64 := by decide +kernel
    have two : lost.length = 2 := by decide +kernel
    have ofFirst : (s.trie.root.references .blake3 (s.save .empty).2).find? (·.2 ∈ lost.reverse) =
        lost.head?.map (top s, ·) := by decide +kernel
    have ofSecond : (t.trie.root.references .blake3 (t.save .empty).2).find? (·.2 ∈ lost.reverse) =
        lost.getLast?.map (top t, ·) := by decide +kernel
    have none : (one.trie.root.references .blake3 (one.save .empty).2).find? (·.2 ∈ lost.reverse) = none := by
      decide +kernel
    have reachable : TrieSet.Reachable (.frozen s) ∧ TrieSet.Reachable (.frozen t) ∧ TrieSet.Reachable (.frozen one) :=
      ⟨.edit .empty (.ofList _), .edit .empty (.ofList _), .edit .empty (.ofList _)⟩
    clear_value s t one
    obtain ⟨first, second, children⟩ := List.length_eq_two.mp two
    have saveable : ∀ c ∈ [s, t, one], c.Saveable := by
      rintro c (_ | ⟨_, _ | ⟨_, _ | ⟨_, ⟨⟩⟩⟩⟩)
      · exact ⟨reachable.1, few.1, fun _ _ => trivial⟩
      · exact ⟨reachable.2.1, few.2.1, fun _ _ => trivial⟩
      · exact ⟨reachable.2.2, few.2.2, fun _ _ => trivial⟩
    have ids : (Archive.empty.saves TrieSet.save [s, t, one]).2 =
        [(s.save .empty).2, (t.save .empty).2, (one.save .empty).2] := Archive.saves_snd TrieSet.save_eq .empty _
    have reports := sets [s, t, one] saveable (.of_nodup digests fun x => List.mem_flatMap.mpr) a _
      (Prod.ext rfl ids) lost.reverse
    obtain _ | ⟨ofS, _ | ⟨ofT, _ | ⟨ofOne, _⟩⟩⟩ := reports
    rw [children] at ofS ofT ofOne ofFirst ofSecond none
    exact ⟨first, second, children, ofS.error_of_find? ofFirst, ofT.error_of_find? ofSecond, ofOne.ok_of_find? none⟩
  · have digests : (([Container.set u, .map m].flatMap fun c => c.tagged.2.hashed .blake3 c.tagged.1).dedup.map
        Id.blake3).Nodup := by decide +kernel
    have few : u.size < 2 ^ 64 ∧ m.size < 2 ^ 64 := by decide +kernel
    have none : (u.trie.root.references .blake3 (u.save .empty).2).find?
        (·.2 ∈ [m.trie.root.identity .blake3]) = none := by decide +kernel
    have reachable : TrieSet.Reachable (.frozen u) := .edit .empty (.ofList _)
    have reachable' : TrieMap.Reachable (.frozen m) := .edit .empty (.ofList _)
    clear_value u m
    have own : (m.trie.root.references .blake3 (m.save .empty).2).find? (·.2 ∈ [m.trie.root.identity .blake3]) =
        some ((m.save .empty).2, m.trie.root.identity .blake3) := by
      rw [Node.references_eq, List.find?_cons_of_pos (by simp)]
    have saveable : ∀ c ∈ [Container.set u, .map m], c.Saveable := by
      refine List.forall_mem_cons.mpr ⟨?_, List.forall_mem_singleton.mpr ?_⟩
      · exact ⟨reachable, few.1, fun _ _ => ⟨trivial, trivial⟩⟩
      · exact ⟨reachable', few.2, fun _ _ => ⟨trivial, trivial⟩⟩
    have ids : (Archive.empty.saves Container.save [.set u, .map m]).2 = [(u.save .empty).2, (m.save .empty).2] :=
      Archive.saves_snd Container.save_eq .empty _
    have reports := mixed [.set u, .map m] saveable (.of_nodup digests fun x => List.mem_flatMap.mpr) _ _
      (Prod.ext rfl ids) [m.trie.root.identity .blake3]
    obtain _ | ⟨ofU, _ | ⟨ofM, _⟩⟩ := reports
    exact ⟨ofU.ok_of_find? none, ofM.error_of_find? own⟩

end TrieArchive
