import TrieArchive.Proofs.Archive.SharedLoader

/-! Loads behind other loads, which may have failed. A loader keeps the nodes that it finished before a load failed. If
one of them has fewer than two values, it stands where no container can have it, and a container that has the same node
at its top is refused from then on. Nothing else is disturbed. -/
namespace TrieArchive

variable {α κ : Type}

/-- The loader remembers the top node of a container at another place than the top. -/
def Loader.Displaces (l : Loader α) (id : Id) : Prop :=
  ∃ root p, l.archive.root? id = some root ∧ l.cache.get? root.node = some p ∧ ¬ (p.depth = 0 ∧ p.path = 0)

namespace Rebuild

variable {S : Scheme α κ} {a : Archive α} {p : Placed α}

/-- A node that is remembered is answered for the position where it is remembered only. -/
theorem visit_keeps_position {depth path : Nat} (parent id : Id)
    (build : Description α → Rebuild α (Node α × Nat)) :
    Keeps (fun cache => cache.get? id = some p) (visit S a depth path parent id build)
      fun _ => p.depth = depth ∧ p.path = path := by
  unfold visit
  refine .remembered fun cache known => ?_
  rw [known]
  dsimp only
  split
  next same => exact .pure same
  next => exact .reject _

theorem container_keeps_position [BEq κ] {id : Id} {root : Root} (stored : a.root? id = some root) :
    Keeps (fun cache => cache.get? root.node = some p) (container S a id) fun _ => p.depth = 0 ∧ p.path = 0 := by
  unfold container rooted
  simp only [stored, reject_bind, throw_bind]
  by_cases kind : root.kind = S.kind
  · rw [if_neg (not_not.mpr kind)]
    exact .check fun _ => .bind (visit_keeps_position id root.node _) fun _ top => .check fun _ => .pure top
  · rw [if_pos kind]
    exact .throw _

theorem alikeElsewhere_self (id : Id) : AlikeElsewhere a a fun cache => cache.get? id = some p := by
  refine ⟨fun _ _ _ _ => rfl, fun cache known x new cache' q known' => ?_⟩
  have other : id ≠ x := by
    rintro rfl
    rw [known] at new
    contradiction
  rw [Cache.get?_insert, if_neg other, known']

end Rebuild

namespace Loader

variable [BEq κ] {S : Scheme α κ} {a : Archive α} {l : Loader α} {id : Id} {root : Root} {t : Trie α}

/-- What a loader remembers stays as it is, whether loads succeed or fail. -/
theorem get?_load {x : Id} {p : Placed α} (known : l.cache.get? x = some p) (id : Id) :
    (l.load S id).2.cache.get? x = some p :=
  (Rebuild.container_agree (Rebuild.alikeElsewhere_self x) (fun _ => rfl) id l.cache known).2

theorem get?_loads {x : Id} {p : Placed α} (known : l.cache.get? x = some p) (ids : List Id) :
    (Loader.loads (·.load S) l ids).1.cache.get? x = some p := by
  induction ids generalizing l with
  | nil => exact known
  | cons id rest ih => exact ih (get?_load known id)

theorem Displaces.load (displaced : l.Displaces id) (x : Id) : (l.load S x).2.Displaces id := by
  obtain ⟨root, p, stored, known, elsewhere⟩ := displaced
  exact ⟨root, p, stored, get?_load known x, elsewhere⟩

/-- A loader in whatever state answers what a fresh one does, except for containers that it displaces. -/
theorem Reached.load_eq_ok_iff (reached : l.Reached S a) :
    (l.load S id).1 = .ok t ↔ (∃ root, a.Holds S id root t) ∧ ¬ l.Displaces id := by
  obtain ⟨rfl, sound⟩ := reached.sound
  constructor
  · intro loaded
    refine ⟨reached.holds loaded, ?_⟩
    rintro ⟨root, p, stored, known, elsewhere⟩
    exact elsewhere ((Rebuild.container_keeps_position stored l.cache known).2 t loaded)
  · rintro ⟨⟨root, holds⟩, free⟩
    have settled : Cache.SettledAt S l.archive (root.node = ·) l.cache := by
      refine fun x p known => ⟨sound x p known, ?_⟩
      rintro rfl
      exact .inr (not_not.mp fun elsewhere => free ⟨root, p, holds.stored, known, elsewhere⟩)
    obtain ⟨-, t', loaded, rfl⟩ := Rebuild.container_succeeds holds rfl l.cache settled
    exact loaded

/-- A node of several values cannot be remembered elsewhere. -/
theorem Reached.depth_path_of_several (reached : l.Reached S a) (holds : a.Holds S id root t) {p : Placed α}
    (known : l.cache.get? root.node = some p) (several : 2 ≤ p.count ∨ 2 ≤ t.size) : p.depth = 0 ∧ p.path = 0 := by
  obtain ⟨rfl, sound⟩ := reached.sound
  have here := sound root.node p known
  have same : p.node = t.root := here.unfolds.unique holds.unfolds here.canonical holds.canonical.root
  have count : 2 ≤ p.node.count := by
    rcases several with remembered | size
    · rwa [here.count] at remembered
    · rwa [same, ← holds.canonical.size]
  exact here.canonical.position_unique (same ▸ holds.canonical.root) count

/-- A load that succeeds leaves nothing where no container can have it. -/
theorem Reached.displaces_of_loaded (reached : l.Reached S a) {x : Id} {c : Trie α} (loaded : (l.load S x).1 = .ok c)
    (holds : a.Holds S id root t) (displaced : (l.load S x).2.Displaces id) : l.Displaces id := by
  obtain ⟨rfl, sound⟩ := reached.sound
  obtain ⟨⟨root', holds'⟩, free'⟩ := reached.load_eq_ok_iff.mp loaded
  -- whatever was in its place, or was not remembered at all, is in its place now
  let inPlace (z : Id) : Prop := ∀ p, l.cache.get? z = some p → Roomy p.count p.depth p.path
  have top : inPlace root'.node := fun p known =>
    .inr (not_not.mp fun elsewhere => free' ⟨root', p, holds'.stored, known, elsewhere⟩)
  have settled : Cache.SettledAt S l.archive inPlace l.cache :=
    fun z p known => ⟨sound z p known, fun placed => placed p known⟩
  have settled' := (Rebuild.container_succeeds holds' top l.cache settled).1
  obtain ⟨other, p, stored, known, elsewhere⟩ := displaced
  obtain rfl : other = root := Option.some.inj (stored.symm.trans holds.stored)
  by_contra free
  have placed : inPlace other.node := fun q known' =>
    .inr (not_not.mp fun elsewhere' => free ⟨other, q, stored, known', elsewhere'⟩)
  have room := (settled' other.node p known).2 placed
  exact elsewhere ((reached.load x).depth_path_of_several holds known (.inl (room.resolve_right elsewhere)))

/-- What a load for `x` does to a later one for `id`. -/
theorem Reached.load_load (reached : l.Reached S a) (x id : Id) (t : Trie α) :
    (((l.load S x).2.load S id).1 = .ok t ↔ (l.load S id).1 = .ok t ∧ ¬ (l.load S x).2.Displaces id) ∧
      ((∃ c, (l.load S x).1 = .ok c) ∨ 2 ≤ t.size →
        (((l.load S x).2.load S id).1 = .ok t ↔ (l.load S id).1 = .ok t)) := by
  have after : ((l.load S x).2.load S id).1 = .ok t ↔
      (l.load S id).1 = .ok t ∧ ¬ (l.load S x).2.Displaces id := by
    rw [(reached.load x).load_eq_ok_iff, reached.load_eq_ok_iff, and_assoc]
    exact and_congr_right' ⟨fun free => ⟨fun displaced => free (displaced.load x), free⟩, And.right⟩
  refine ⟨after, fun harmless => after.trans (and_iff_left_of_imp fun loaded => ?_)⟩
  obtain ⟨⟨root, holds⟩, free⟩ := reached.load_eq_ok_iff.mp loaded
  rcases harmless with ⟨c, before⟩ | several
  · exact fun displaced => free (reached.displaces_of_loaded before holds displaced)
  · rintro ⟨other, p, stored, known, elsewhere⟩
    have same : other = root := by
      rw [(reached.load x).sound.1, holds.stored] at stored
      exact (Option.some.inj stored).symm
    exact elsewhere ((reached.load x).depth_path_of_several holds (same ▸ known) (.inr several))

end Loader

/-- A load in any state of a loader, tried after another one, succeeds exactly if it would have succeeded without the
other and its container is not displaced, with the same container. Only a load that failed can displace a container, and
only one of fewer than two values. -/
theorem loads_after_any_load {α κ β : Type} [BEq α] [StableHash α] [Binary α] [BEq κ] [StableHash κ] [Binary κ]
    [Binary β] :
    (∀ (a : Archive α) (l : Loader α), l.Reached TrieSet.scheme a → ∀ x y s,
      ((TrieSet.load (TrieSet.load l x).2 y).1 = .ok s ↔
          (TrieSet.load l y).1 = .ok s ∧ ¬ (TrieSet.load l x).2.Displaces y) ∧
        ((∃ c, (TrieSet.load l x).1 = .ok c) ∨ 2 ≤ s.size →
          ((TrieSet.load (TrieSet.load l x).2 y).1 = .ok s ↔ (TrieSet.load l y).1 = .ok s))) ∧
    (∀ (a : Archive (κ × β)) (l : Loader (κ × β)), l.Reached TrieMap.scheme a → ∀ x y (m : TrieMap κ β),
      ((TrieMap.load (TrieMap.load (κ := κ) l x).2 y).1 = .ok m ↔
          (TrieMap.load l y).1 = .ok m ∧ ¬ (TrieMap.load (κ := κ) l x).2.Displaces y) ∧
        ((∃ c : TrieMap κ β, (TrieMap.load l x).1 = .ok c) ∨ 2 ≤ m.size →
          ((TrieMap.load (TrieMap.load (κ := κ) l x).2 y).1 = .ok m ↔ (TrieMap.load l y).1 = .ok m))) := by
  constructor
  · intro a l reached x y s
    simp only [TrieSet.load_eq_ok_iff]
    have later := reached.load_load x y s.trie
    exact ⟨later.1, fun harmless => later.2 (harmless.imp_left fun ⟨c, loaded⟩ => ⟨c.trie, loaded⟩)⟩
  · intro a l reached x y m
    simp only [TrieMap.load_eq_ok_iff]
    have later := reached.load_load x y m.trie
    exact ⟨later.1, fun harmless => later.2 (harmless.imp_left fun ⟨c, loaded⟩ => ⟨c.trie, loaded⟩)⟩

/-- Two keys under their root, and under a root of another size, which fails to load once its node is rebuilt. -/
theorem loads_after_any_load_wrong_size :
    let s := TrieSet.ofList [(0 : UInt32), 1]
    let root : Root := s.trie.record .blake3 .set
    let wrong : Root := { root with size := 4 }
    let saved := (s.save .empty).1
    let a : Archive UInt32 := { saved with roots := saved.roots.insert (wrong.identity Id.blake3) wrong }
    let l := Loader.ofArchive a
    (¬ ∃ c, (TrieSet.load l (wrong.identity Id.blake3)).1 = .ok c) ∧
      ∃ c, 2 ≤ c.size ∧ (TrieSet.load l (root.identity Id.blake3)).1 = .ok c ∧
        (TrieSet.load (TrieSet.load l (wrong.identity Id.blake3)).2 (root.identity Id.blake3)).1 = .ok c := by
  intro s root wrong saved a l
  obtain ⟨refused, c, loaded, several⟩ : (¬ ∃ c, (TrieSet.load l (wrong.identity Id.blake3)).1 = .ok c) ∧
      ∃ c, (TrieSet.load l (root.identity Id.blake3)).1 = .ok c ∧ 2 ≤ c.size := by decide +kernel
  obtain ⟨sets, -⟩ := loads_after_any_load (α := UInt32) (κ := UInt32) (β := UInt32)
  exact ⟨refused, c, several, loaded, ((sets a l .fresh _ _ c).2 (.inr several)).mpr loaded⟩

/-- A tree of no values, and a branch that has it for its child, both under roots. The child is refused below the branch,
and under its own root from then on. -/
theorem failed_load_displaces :
    let leaf : Description UInt32 := .branch 0 0 [] []
    let branch : Description UInt32 := .branch 0 1 [] [leaf.identity .blake3]
    let good : Root := ⟨leaf.identity .blake3, 0, .set⟩
    let bad : Root := ⟨branch.identity .blake3, 0, .set⟩
    let a : Archive UInt32 :=
      ⟨((∅ : Std.ExtTreeMap Id _).insert (leaf.identity .blake3) leaf).insert (branch.identity .blake3) branch,
        ((∅ : Std.ExtTreeMap Id _).insert (good.identity Id.blake3) good).insert (bad.identity Id.blake3) bad⟩
    let l := Loader.ofArchive a
    (¬ ∃ c, (TrieSet.load l (bad.identity Id.blake3)).1 = .ok c) ∧
      (∃ c, (TrieSet.load l (good.identity Id.blake3)).1 = .ok c) ∧
      ¬ ∃ c, (TrieSet.load (TrieSet.load l (bad.identity Id.blake3)).2 (good.identity Id.blake3)).1 = .ok c := by
  decide +kernel

end TrieArchive
