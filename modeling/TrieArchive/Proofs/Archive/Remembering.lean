import TrieArchive.Proofs.Archive.Placements

/-! What a successful load does to a loader: its container's nodes are remembered where they stand, and nothing else
changes. -/
namespace TrieArchive

variable {α β γ κ : Type}

namespace Cache

/-- Remembers what is new. -/
def extend (cache : Cache α) (entries : List (Id × Placed α)) : Cache α :=
  entries.foldl (fun cache entry => cache.insertIfNew entry.1 entry.2) cache

variable {cache : Cache α} {entries : List (Id × Placed α)}

theorem get?_extend (cache : Cache α) (entries : List (Id × Placed α)) (id : Id) :
    (cache.extend entries).get? id = (cache.get? id).or ((entries.find? (·.1 = id)).map Prod.snd) :=
  Archive.get?_foldl_insertIfNew cache entries id

theorem extend_append (cache : Cache α) (first second : List (Id × Placed α)) :
    cache.extend (first ++ second) = (cache.extend first).extend second := List.foldl_append

/-- What is remembered stays. -/
theorem get?_extend_of_some {id : Id} {p : Placed α} (known : cache.get? id = some p) :
    (cache.extend entries).get? id = some p := by
  rw [get?_extend, known, Option.some_or]

theorem mem_of_get?_extend {id : Id} {p : Placed α} (found : (cache.extend entries).get? id = some p) :
    cache.get? id = some p ∨ (id, p) ∈ entries := by
  rw [get?_extend, Option.or_eq_some_iff] at found
  rcases found with known | ⟨-, new⟩
  · exact .inl known
  · obtain ⟨entry, first, rfl⟩ := Option.map_eq_some_iff.mp new
    obtain rfl : entry.1 = id := by simpa using List.find?_some first
    exact .inr (List.mem_of_find?_eq_some first)

theorem extend_eq_self (known : ∀ entry ∈ entries, cache.get? entry.1 = some entry.2) :
    cache.extend entries = cache := by
  refine Std.ExtTreeMap.ext_getElem? fun id => ?_
  have found := get?_extend cache entries id
  cases first : entries.find? (·.1 = id) with
  | none => rwa [first, Option.map_none, Option.or_none] at found
  | some entry =>
    obtain rfl : entry.1 = id := by simpa using List.find?_some first
    have here := known entry (List.mem_of_find?_eq_some first)
    exact (get?_extend_of_some here).trans here.symm

/-- Storing what is there already, or what is new, is remembering it. -/
theorem insert_eq_extend {id : Id} {p : Placed α} (known : ∀ q, cache.get? id = some q → q = p) :
    cache.insert id p = cache.extend [(id, p)] := by
  refine Std.ExtTreeMap.ext_getElem? fun other => ?_
  change (cache.insert id p).get? other = (cache.extend [(id, p)]).get? other
  rw [get?_insert, get?_extend]
  by_cases same : other = id
  · subst same
    cases found : cache.get? other with
    | none => simp
    | some q => simp [known q found]
  · simp [same, Ne.symm same]

variable [BEq κ] {S : Scheme α κ} {a : Archive α}

/-- The cache has every node that stands below one in it. -/
structure Complete (S : Scheme α κ) (a : Archive α) (cache : Cache α) : Prop where
  settled : cache.Settled S a
  below : ∀ id p, cache.get? id = some p →
    ∀ entry ∈ p.within S.toAddressing, cache.get? entry.1 = some entry.2

theorem complete_empty : Complete S a ∅ := by
  refine ⟨fun _ _ found => ?_, fun _ _ found => ?_⟩ <;> simp at found

variable {id : Id} {p : Placed α}

/-- What is there under an id may be older than what is added, but an id stands for one thing. -/
theorem Settled.get?_of_mem (settled : (cache.extend entries).Settled S a) {entry : Id × Placed α}
    (member : entry ∈ entries)
    (placed : entry.2.Sound S a entry.1 ∧ Roomy entry.2.count entry.2.depth entry.2.path) :
    (cache.extend entries).get? entry.1 = some entry.2 := by
  cases found : (cache.extend entries).get? entry.1 with
  | none =>
    rw [get?_extend, Option.or_eq_none_iff, Option.map_eq_none_iff, List.find?_eq_none] at found
    exact absurd (decide_eq_true rfl) (found.2 entry member)
  | some q =>
    obtain ⟨sound, roomy⟩ := settled _ _ found
    rw [sound.unique placed.1 roomy placed.2]

/-- A container's nodes are remembered together. -/
theorem Complete.extend (complete : cache.Complete S a) (sound : p.Sound S a id)
    (roomy : Roomy p.count p.depth p.path) :
    (cache.extend (p.within S.toAddressing)).Complete S a ∧
      ∀ entry ∈ p.within S.toAddressing,
        (cache.extend (p.within S.toAddressing)).get? entry.1 = some entry.2 := by
  have placed {entry : Id × Placed α} (member : entry ∈ p.within S.toAddressing) :=
    sound.canonical.placements_sound sound.unfolds sound.genuine (sound.count ▸ roomy) member
  have settled : (cache.extend (p.within S.toAddressing)).Settled S a := by
    intro other q found
    rcases mem_of_get?_extend found with known | member
    · exact complete.settled other q known
    · exact placed member
  have exact (entry : Id × Placed α) (member : entry ∈ p.within S.toAddressing) :=
    settled.get?_of_mem member (placed member)
  refine ⟨⟨settled, fun other q found entry inside => ?_⟩, exact⟩
  rcases mem_of_get?_extend found with known | member
  · exact get?_extend_of_some (complete.below other q known entry inside)
  · exact exact entry (sound.canonical.placements_trans member inside)

end Cache

namespace Rebuild

section Adds

variable {I : Cache α → Prop}

/-- This answers `b` and adds the entries to the cache. -/
def Adds (I : Cache α → Prop) (m : Rebuild α β) (b : β) (entries : List (Id × Placed α)) : Prop :=
  ∀ cache, I cache → m.run.run cache = (.ok b, cache.extend entries) ∧ I (cache.extend entries)

theorem Adds.pure (b : β) : Adds I (Pure.pure b) b [] := fun _ inv => ⟨rfl, inv⟩

theorem Adds.bind {m : Rebuild α β} {f : β → Rebuild α γ} {b : β} {c : γ} {first second : List (Id × Placed α)}
    (once : Adds I m b first) (twice : Adds I (f b) c second) : Adds I (m >>= f) c (first ++ second) := by
  intro cache inv
  obtain ⟨run, inv'⟩ := once cache inv
  rw [run_bind, run, Cache.extend_append]
  exact twice _ inv'

/-- The last step of a computation adds nothing. -/
theorem Adds.finish {m : Rebuild α β} {f : β → Rebuild α γ} {b : β} {c : γ} {entries : List (Id × Placed α)}
    (once : Adds I m b entries) (last : Adds I (f b) c []) : Adds I (m >>= f) c entries := by
  have both := once.bind last
  rwa [List.append_nil] at both

theorem Adds.check {c : Prop} [Decidable c] {what : Corruption} {m : Rebuild α β} {b : β}
    {entries : List (Id × Placed α)} (passed : ¬c) (rest : Adds I m b entries) :
    Adds I (if c then Rebuild.reject what else m) b entries := by
  rwa [if_neg passed]

theorem Adds.mapM {ι : Type} {f : β → Rebuild α γ} {answer : ι → γ} {adds : ι → List (Id × Placed α)} {items : List β}
    {others : List ι} (each : List.Forall₂ (fun item other => Adds I (f item) (answer other) (adds other)) items others) :
    Adds I (items.mapM f) (others.map answer) (others.flatMap adds) := by
  induction each with
  | nil => exact .pure []
  | @cons item other items others first _ ih =>
    rw [List.mapM_cons, List.map_cons, List.flatMap_cons]
    exact first.bind (ih.finish (.pure _))

end Adds

variable [BEq κ] {S : Scheme α κ} {a : Archive α}

/-- A node that an archive describes is answered as it is, and remembered with all nodes below it. -/
theorem visit_adds {depth path : Nat} (parent : Id) {id : Id} {top : Node α} (unfolds : a.Unfolds id top)
    (genuine : a.GenuineFrom S.toAddressing id) (canonical : top.Canonical S.toLayout depth path)
    (roomy : Roomy top.count depth path) {build : Description α → Rebuild α (Node α × Nat)}
    {below : List (Id × Placed α)} (within : top.placements S.toAddressing depth path =
      below ++ [(top.identity S.toAddressing, top.placedAt depth path)])
    (built : ∀ d, a.node? id = some d → Adds (Cache.Complete S a) (build d) (top, top.count) below) :
    Adds (Cache.Complete S a) (visit S a depth path parent id build) (top.placedAt depth path)
      (top.placements S.toAddressing depth path) := by
  intro cache complete
  have sound : (top.placedAt depth path).Sound S a id := ⟨unfolds, genuine, canonical, rfl⟩
  refine ⟨?_, (complete.extend sound roomy).1⟩
  obtain ⟨d, stored, identity⟩ := genuine id .start
  rw [visit, run_remembered_bind]
  cases hit : cache.get? id with
  | some q =>
    obtain ⟨sound', roomy'⟩ := complete.settled id q hit
    obtain rfl := sound'.unique sound roomy' roomy
    have known : cache.extend (top.placements S.toAddressing depth path) = cache :=
      Cache.extend_eq_self (complete.below id _ hit)
    rw [known]
    dsimp only
    rw [if_pos ⟨rfl, rfl⟩]
    rfl
  | none =>
    obtain ⟨run, complete'⟩ := built d stored cache complete
    -- nothing else can have been stored under the id on the way
    have known (q : Placed α) (found : (cache.extend below).get? id = some q) : q = top.placedAt depth path := by
      obtain ⟨sound', roomy'⟩ := complete'.settled id q found
      exact sound'.unique sound roomy' roomy
    simp only [stored, reject_bind]
    rw [if_neg (not_not.mpr identity), run_bind, run, within, (unfolds.manifest genuine).1, Cache.extend_append,
      ← Cache.insert_eq_extend known]
    rfl

section Branch

variable {I : Cache α → Prop} {id : Id} {depth path : Nat} {inner : (path : Nat) → Id → Rebuild α (Placed α)}

theorem child_adds {slot : Nat} {childId : Id} {p : Placed α} {entries : List (Id × Placed α)}
    (reached : path + slot * 2 ^ shiftAt depth < 2 ^ 64) (several : 2 ≤ p.count)
    (each : Adds I (inner (path + slot * 2 ^ shiftAt depth) childId) p entries) :
    Adds I (child inner id depth path slot childId) p entries := by
  rw [child_eq]
  exact .check (Nat.not_le_of_lt reached) (each.finish (.check (Nat.not_lt_of_le several) (.pure p)))

theorem branch_adds {datamap nodemap : UInt32} {values : List α} {children : List (Node α)} {ids : List Id}
    (canonical : (Node.branch datamap nodemap values children).Canonical S.toLayout depth path)
    (width : children.length = ids.length)
    (each : ∀ slot childId child, Bitmap.kept? nodemap ids slot = some childId →
      Bitmap.kept? nodemap children slot = some child →
      Adds I (inner (path + slot * 2 ^ shiftAt depth) childId)
        (child.placedAt (depth + 1) (path + slot * 2 ^ shiftAt depth))
        (child.placements S.toAddressing (depth + 1) (path + slot * 2 ^ shiftAt depth))) :
    Adds I (branch S inner id depth path datamap nodemap values ids)
      (.branch datamap nodemap values children, (Node.branch datamap nodemap values children).count)
      (((Bitmap.slots nodemap).zip children).flatMap fun hung =>
        hung.2.placements S.toAddressing (depth + 1) (path + hung.1 * 2 ^ shiftAt depth)) := by
  rw [branch_eq canonical width]
  cases canonical with
  | branch _ _ _ _ linked _ reached several =>
    have rebuilt : Adds I (((Bitmap.slots nodemap).zip ids).mapM fun hung => child inner id depth path hung.1 hung.2)
        (((Bitmap.slots nodemap).zip children).map fun hung =>
          hung.2.placedAt (depth + 1) (path + hung.1 * 2 ^ shiftAt depth))
        (((Bitmap.slots nodemap).zip children).flatMap fun hung =>
          hung.2.placements S.toAddressing (depth + 1) (path + hung.1 * 2 ^ shiftAt depth)) := by
      refine .mapM (Bitmap.forall₂_zip_slots (width.symm.trans linked) linked fun slot childId child named kept => ?_)
      exact child_adds (reached slot child kept) (several slot child kept) (each slot childId child named kept)
    refine rebuilt.finish ?_
    have hung : children.length ≤ (Bitmap.slots nodemap).length :=
      Nat.le_of_eq (linked.trans (Bitmap.length_slots nodemap).symm)
    have nodes : (((Bitmap.slots nodemap).zip children).map fun hung =>
        hung.2.placedAt (depth + 1) (path + hung.1 * 2 ^ shiftAt depth)).map (·.node) = children := by
      rw [List.map_map]
      exact List.map_snd_zip hung
    have counted : ∀ p ∈ ((Bitmap.slots nodemap).zip children).map fun hung =>
        hung.2.placedAt (depth + 1) (path + hung.1 * 2 ^ shiftAt depth), p.count = p.node.count := by
      intro p member
      obtain ⟨_, -, rfl⟩ := List.mem_map.mp member
      rfl
    rw [nodes, countBelow_eq counted, nodes]
    exact .pure _

end Branch

/-- By induction on the levels below: what is not remembered yet is put together from children that are then. -/
theorem node_adds {left depth path : Nat} (parent : Id) {id : Id} {top : Node α}
    (levels : depth + left = branchLevels) (unfolds : a.Unfolds id top) (genuine : a.GenuineFrom S.toAddressing id)
    (canonical : top.Canonical S.toLayout depth path) (roomy : Roomy top.count depth path) :
    Adds (Cache.Complete S a) (node S a left depth path parent id) (top.placedAt depth path)
      (top.placements S.toAddressing depth path) := by
  induction left generalizing depth path parent id top with
  | zero =>
    subst levels
    cases top with
    | branch => cases canonical; omega
    | collision hash values =>
      have within := Node.placements_collision (A := S.toAddressing) hash values branchLevels path
      refine visit_adds parent unfolds genuine canonical roomy (within.trans (List.nil_append _).symm) fun d stored => ?_
      cases unfolds with
      | collision stored' =>
        obtain rfl := Option.some.inj (stored.symm.trans stored')
        dsimp only
        rw [collision_eq canonical]
        exact .pure _
  | succ left ih =>
    cases top with
    | collision => cases canonical; omega
    | branch =>
      refine visit_adds parent unfolds genuine canonical roomy (Node.placements_branch ..) fun d stored => ?_
      cases unfolds with
      | branch stored' width below =>
        obtain rfl := Option.some.inj (stored.symm.trans stored')
        refine branch_adds canonical width fun slot childId child referred kept => ?_
        cases canonical with
        | branch _ _ _ _ linked _ _ several inside =>
          have member := (Bitmap.mem_iff_kept? (width.symm.trans linked)).mpr ⟨slot, referred⟩
          have unfolds : a.Unfolds childId child := Bitmap.rel_of_kept below referred kept
          exact ih id (by omega) unfolds (genuine.child stored member) (inside slot child kept)
            (.inl (several slot child kept))

/-- A container that an archive holds is answered, and its nodes are remembered. -/
theorem container_adds {id : Id} {root : Root} {t : Trie α} (holds : a.Holds S id root t) :
    Adds (Cache.Complete S a) (container S a id) t (t.placements S.toAddressing) := by
  have roomy : Roomy t.root.count 0 0 := .inr ⟨rfl, rfl⟩
  have top := node_adds id (Nat.zero_add _) holds.unfolds holds.genuine holds.canonical.root roomy
  have count : (t.root.placedAt 0 0).count = root.size.toNat := holds.canonical.size.symm.trans holds.size
  unfold container rooted
  simp only [holds.stored, reject_bind, throw_bind]
  rw [if_neg (not_not.mpr holds.kind)]
  refine .check (not_not.mpr holds.identity) (top.finish (.check (not_not.mpr count) ?_))
  have answer : (⟨(t.root.placedAt 0 0).node, (t.root.placedAt 0 0).count⟩ : Trie α) = t := by
    rw [count, ← holds.size]
    rfl
  rw [answer]
  exact .pure t

end Rebuild

/-- A container that the archive holds is answered, and the loader has its nodes from then on. -/
theorem Loader.load_adds [BEq κ] {S : Scheme α κ} {a : Archive α} {cache : Cache α} (complete : cache.Complete S a)
    {id : Id} {root : Root} {t : Trie α} (holds : a.Holds S id root t) :
    Loader.load S ⟨a, cache⟩ id = (.ok t, ⟨a, cache.extend (t.placements S.toAddressing)⟩) ∧
      Cache.Complete S a (cache.extend (t.placements S.toAddressing)) := by
  obtain ⟨run, complete'⟩ := Rebuild.container_adds holds cache complete
  refine ⟨?_, complete'⟩
  rw [load, run]

end TrieArchive
