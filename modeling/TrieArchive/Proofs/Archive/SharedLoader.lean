import TrieArchive.Proofs.Archive.Accounts
import TrieArchive.Proofs.Archive.Remembering
import TrieArchive.Proofs.Archive.Resaving
import TrieArchive.Proofs.Container.FiniteMap

/-! One loader for many loads. Each answers as a fresh loader does, and the archive is not asked again for nodes that
the loader remembers. -/
namespace TrieArchive

variable {α β γ κ : Type}

namespace Cache

variable {cache : Cache α}

/-- The cache has something under every known id. -/
def Has (known : Id → Prop) (cache : Cache α) : Prop := ∀ id, known id → (cache.get? id).isSome

theorem Has.insert {known : Id → Prop} (has : cache.Has known) (id : Id) (p : Placed α) :
    Cache.Has known (cache.insert id p) := by
  intro other member
  rw [get?_insert]
  split
  · rfl
  · exact has other member

end Cache

namespace Rebuild

variable {S : Scheme α κ} {a : Archive α}

section Agree

variable {I : Cache α → Prop}

/-- Two computations do the same wherever `I` holds of the cache, and it still holds afterwards. -/
def Agree (I : Cache α → Prop) (m m' : Rebuild α β) : Prop :=
  ∀ cache, I cache → m.run.run cache = m'.run.run cache ∧ I (m.run.run cache).2

namespace Agree

theorem of_keeps {m : Rebuild α β} (keeps : Keeps I m fun _ => True) : Agree I m m :=
  fun cache inv => ⟨rfl, (keeps cache inv).1⟩

theorem bind {m m' : Rebuild α β} {f f' : β → Rebuild α γ} (once : Agree I m m') (rest : ∀ b, Agree I (f b) (f' b)) :
    Agree I (m >>= f) (m' >>= f') := by
  intro cache inv
  obtain ⟨same, inv'⟩ := once cache inv
  rw [run_bind, run_bind, ← same]
  rcases run : m.run.run cache with ⟨_ | b, cache'⟩
  all_goals rw [run] at inv'
  · exact ⟨rfl, inv'⟩
  · exact rest b cache' inv'

theorem remembered {id : Id} {f f' : Option (Placed α) → Rebuild α β}
    (each : ∀ cache, I cache → Agree I (f (cache.get? id)) (f' (cache.get? id))) :
    Agree I (ExceptT.lift (Memory.remembered id) >>= f) (ExceptT.lift (Memory.remembered id) >>= f') :=
  fun cache inv => each cache inv cache inv

theorem check {c : Prop} [Decidable c] {what : Corruption} {m m' : Rebuild α β} (rest : Agree I m m') :
    Agree I (if c then Rebuild.reject what else m) (if c then Rebuild.reject what else m') := by
  split
  · exact of_keeps (.reject what)
  · exact rest

theorem mapM {f f' : β → Rebuild α γ} (items : List β) (each : ∀ b ∈ items, Agree I (f b) (f' b)) :
    Agree I (items.mapM f) (items.mapM f') := by
  induction items with
  | nil => exact of_keeps (.pure trivial)
  | cons b rest ih =>
    rw [List.mapM_cons, List.mapM_cons]
    refine bind (each b List.mem_cons_self) fun c => ?_
    exact bind (ih fun b' member => each b' (List.mem_cons_of_mem _ member)) fun cs => of_keeps (.pure trivial)

end Agree

/-- While `I` holds of a cache, two archives have the same nodes under all other ids, and storing these keeps `I`. -/
structure AlikeElsewhere (a b : Archive α) (I : Cache α → Prop) : Prop where
  same : ∀ cache, I cache → ∀ x, cache.get? x = none → a.node? x = b.node? x
  kept : ∀ cache, I cache → ∀ x, cache.get? x = none → ∀ cache' p, I cache' → I (cache'.insert x p)

variable {b : Archive α}

theorem visit_agree (alike : AlikeElsewhere a b I) {depth path : Nat} (parent : Id) {id : Id}
    {build build' : Description α → Rebuild α (Node α × Nat)} (built : ∀ d, Agree I (build d) (build' d)) :
    Agree I (visit S a depth path parent id build) (visit S b depth path parent id build') := by
  unfold visit
  refine .remembered fun cache inv => ?_
  cases hit : cache.get? id with
  | some p =>
    dsimp only
    split
    · exact .of_keeps (.pure trivial)
    · exact .of_keeps (.reject _)
  | none =>
    rw [alike.same cache inv id hit]
    cases b.node? id with
    | none => exact .of_keeps (.throw _)
    | some d =>
      simp only [reject_bind]
      exact .check (.bind (built d) fun r => .of_keeps (.store (alike.kept cache inv id hit · _) trivial))

theorem branch_agree {inner inner' : (path : Nat) → Id → Rebuild α (Placed α)}
    (each : ∀ path id, Agree I (inner path id) (inner' path id)) (id : Id) (depth path : Nat)
    (datamap nodemap : UInt32) (values : List α) (ids : List Id) :
    Agree I (branch S inner id depth path datamap nodemap values ids)
      (branch S inner' id depth path datamap nodemap values ids) := by
  unfold branch
  simp only [inSlots_bind, reject_bind]
  refine .check (.check (.bind (.mapM _ fun hung _ => ?_) fun placed => .of_keeps (.pure trivial)))
  rw [child_eq, child_eq]
  exact .check (.bind (each _ _) fun p => .check (.of_keeps (.pure trivial)))

variable [BEq κ]

theorem node_agree (alike : AlikeElsewhere a b I) (left depth path : Nat) (parent id : Id) :
    Agree I (node S a left depth path parent id) (node S b left depth path parent id) := by
  induction left generalizing depth path parent id with
  | zero =>
    refine visit_agree alike parent fun d => ?_
    cases d with
    | branch => exact .of_keeps (.reject _)
    | collision =>
      unfold collision
      simp only [repeatsKey_bind, reject_bind]
      exact .check (.check (.check (.of_keeps (.pure trivial))))
  | succ left ih =>
    refine visit_agree alike parent fun d => ?_
    cases d with
    | branch => exact branch_agree (fun path child => ih (depth + 1) path id child) _ _ _ _ _ _ _
    | collision => exact .of_keeps (.reject _)

theorem container_agree (alike : AlikeElsewhere a b I) (roots : ∀ x, a.root? x = b.root? x) (id : Id) :
    Agree I (container S a id) (container S b id) := by
  unfold container rooted
  rw [roots]
  cases b.root? id with
  | none => exact .of_keeps (.throw _)
  | some root =>
    simp only [reject_bind, throw_bind]
    split
    · exact .of_keeps (.throw _)
    · exact .check (.bind (node_agree alike _ _ _ _ _) fun p => .check (.of_keeps (.pure trivial)))

end Agree

end Rebuild

/-- Loads by one loader, one after another: the loader behind the last of them, and what each of them answers. -/
def Loader.loads (load : Loader α → Id → Except LoadError γ × Loader α) (l : Loader α) (ids : List Id) :
    Loader α × List (Except LoadError γ) := run (fun l id => (load l id).swap) l ids

theorem Loader.loads_append (load : Loader α → Id → Except LoadError γ × Loader α) (l : Loader α) (ids later : List Id) :
    (Loader.loads load l (ids ++ later)).1 = (Loader.loads load (Loader.loads load l ids).1 later).1 := by
  induction ids generalizing l with
  | nil => rfl
  | cons id rest ih => exact ih _

/-- The loader that is left of a fresh one behind some loads. -/
def Archive.loaderAfter (a : Archive α) (load : Loader α → Id → Except LoadError γ × Loader α) (ids : List Id) :
    Loader α := (Loader.loads load (.ofArchive a) ids).1

/-- Loads lead from one loader to another. -/
theorem Loader.Reached.loads [BEq κ] {S : Scheme α κ} {a : Archive α}
    {load : Loader α → Id → Except LoadError γ × Loader α} {f : Trie α → γ}
    (wraps : ∀ l id, load l id = ((l.load S id).1.map f, (l.load S id).2)) {l : Loader α} (reached : l.Reached S a)
    (ids : List Id) : (Loader.loads load l ids).1.Reached S a := by
  induction ids generalizing l with
  | nil => exact reached
  | cons id rest ih =>
    have next : (load l id).2.Reached S a := by
      rw [wraps]
      exact reached.load id
    exact ih next

/-- One loader answers for several ids as fresh loaders do. It remembers the nodes of what it has answered, which are
those that can be reached from the ids, and a node that several containers have in common stands at one position in all
of them. Nothing that is remembered is asked of the archive again. -/
structure Archive.SharesLoader (a : Archive α) (load : Loader α → Id → Except LoadError γ × Loader α)
    (nodes : γ → List (Id × Placed α)) (ids : List Id) : Prop where
  answers : (Loader.loads load (.ofArchive a) ids).2 = ids.map fun id => (load (.ofArchive a) id).1
  remembered : ∀ x p, (a.loaderAfter load ids).cache.get? x = some p ↔
    ∃ id ∈ ids, ∃ c, (load (.ofArchive a) id).1 = .ok c ∧ (x, p) ∈ nodes c
  reached : ∀ x, (∃ p, (a.loaderAfter load ids).cache.get? x = some p) ↔ ∃ id ∈ ids, a.Under id x
  positions : ∀ id ∈ ids, ∀ other ∈ ids, ∀ c d, (load (.ofArchive a) id).1 = .ok c →
    (load (.ofArchive a) other).1 = .ok d → ∀ x p q, (x, p) ∈ nodes c → (x, q) ∈ nodes d → p = q
  again : ∀ id ∈ ids, load (a.loaderAfter load ids) id = ((load (.ofArchive a) id).1, a.loaderAfter load ids)
  unasked : ∀ b, (∀ x, b.root? x = a.root? x) →
    (∀ x, (a.loaderAfter load ids).cache.get? x = none → b.node? x = a.node? x) → ∀ id,
    load ⟨b, (a.loaderAfter load ids).cache⟩ id =
      ((load (a.loaderAfter load ids) id).1, ⟨b, (load (a.loaderAfter load ids) id).2.cache⟩)

/-- The nodes that a fresh loader puts together for an id. -/
def Archive.nodesOf (a : Archive α) (load : Loader α → Id → Except LoadError γ × Loader α)
    (nodes : γ → List (Id × Placed α)) (id : Id) : List (Id × Placed α) :=
  match (load (.ofArchive a) id).1 with
  | .ok c => nodes c
  | .error _ => []

theorem Archive.mem_nodesOf {a : Archive α} {load : Loader α → Id → Except LoadError γ × Loader α}
    {nodes : γ → List (Id × Placed α)} {id : Id} {entry : Id × Placed α} :
    entry ∈ a.nodesOf load nodes id ↔ ∃ c, (load (.ofArchive a) id).1 = .ok c ∧ entry ∈ nodes c := by
  rw [nodesOf]
  cases (load (.ofArchive a) id).1 with
  | ok c => simp
  | error => simp

/-- A loader does not ask the archive for what it remembers. -/
theorem Loader.load_unasked [BEq κ] (S : Scheme α κ) {a b : Archive α} {cache : Cache α}
    (roots : ∀ x, b.root? x = a.root? x) (others : ∀ x, cache.get? x = none → b.node? x = a.node? x) (id : Id) :
    load S ⟨b, cache⟩ id = ((load S ⟨a, cache⟩ id).1, ⟨b, (load S ⟨a, cache⟩ id).2.cache⟩) := by
  have alike : Rebuild.AlikeElsewhere b a (Cache.Has fun x => (cache.get? x).isSome) := by
    refine ⟨fun later has x unknown => others x ?_, fun _ _ x _ _ p has => has.insert x p⟩
    by_contra known
    have there := has x (Option.isSome_iff_ne_none.mpr known)
    rw [unknown] at there
    contradiction
  have same := (Rebuild.container_agree (S := S) alike roots id cache fun _ member => member).1
  rw [load, load, same]
  rfl

namespace Archive

variable [BEq κ] {S : Scheme α κ} {a : Archive α}

theorem Holds.exists_placement_iff {id : Id} {root : Root} {t : Trie α} (holds : a.Holds S id root t) {x : Id} :
    (∃ p, (x, p) ∈ t.placements S.toAddressing) ↔ a.Under id x := by
  rw [Trie.placements, holds.canonical.root.exists_placement_iff, ← Node.mem_ids, holds.mem_ids_iff]

-- containers are loaded as tries and wrapped by `f`
variable {load : Loader α → Id → Except LoadError γ × Loader α} {f : Trie α → γ} {nodes : γ → List (Id × Placed α)}
  {ids : List Id} (wraps : ∀ l id, load l id = ((l.load S id).1.map f, (l.load S id).2))
  (views : ∀ t, nodes (f t) = t.placements S.toAddressing) (good : ∀ id ∈ ids, ∃ c, (load (.ofArchive a) id).1 = .ok c)

include wraps

theorem exists_holds_of_load {id : Id} {c : γ} (loaded : (load (.ofArchive a) id).1 = .ok c) :
    ∃ root t, a.Holds S id root t ∧ c = f t := by
  rw [wraps, Except.map_eq_ok_iff] at loaded
  obtain ⟨t, loaded, rfl⟩ := loaded
  obtain ⟨root, holds⟩ := Loader.load_ofArchive_eq_ok_iff.mp loaded
  exact ⟨root, t, holds, rfl⟩

include views good

/-- Each load adds the nodes of its container, and answers as a fresh loader. -/
theorem loads_adds {cache : Cache α} (complete : cache.Complete S a) :
    Loader.loads load ⟨a, cache⟩ ids =
        (⟨a, cache.extend (ids.flatMap (a.nodesOf load nodes))⟩, ids.map fun id => (load (.ofArchive a) id).1) ∧
      Cache.Complete S a (cache.extend (ids.flatMap (a.nodesOf load nodes))) := by
  induction ids generalizing cache with
  | nil => exact ⟨rfl, complete⟩
  | cons id rest ih =>
    obtain ⟨c, fresh⟩ := good id List.mem_cons_self
    obtain ⟨root, t, holds, rfl⟩ := exists_holds_of_load wraps fresh
    obtain ⟨loaded, complete'⟩ := Loader.load_adds complete holds
    have own : a.nodesOf load nodes id = t.placements S.toAddressing := by
      rw [Archive.nodesOf, fresh]
      exact views t
    have step : load ⟨a, cache⟩ id = (.ok (f t), ⟨a, cache.extend (t.placements S.toAddressing)⟩) := by
      rw [wraps, loaded]
      rfl
    obtain ⟨others, complete''⟩ := ih (fun other member => good other (.tail _ member)) complete'
    rw [List.flatMap_cons, Cache.extend_append, own]
    refine ⟨?_, complete''⟩
    rw [Loader.loads, run, step, List.map_cons, fresh]
    change ((Loader.loads load _ rest).1, _ :: (Loader.loads load _ rest).2) = _
    rw [Prod.fst_swap, others]
    rfl

theorem loaderAfter_eq :
    a.loaderAfter load ids = ⟨a, Cache.extend ∅ (ids.flatMap (a.nodesOf load nodes))⟩ ∧
      Cache.Complete S a (Cache.extend ∅ (ids.flatMap (a.nodesOf load nodes))) := by
  obtain ⟨ran, complete⟩ := loads_adds wraps views good (Cache.complete_empty (S := S) (a := a))
  exact ⟨congrArg Prod.fst ran, complete⟩

/-- The loader remembers the nodes of the containers where they stand, and no others. -/
theorem get?_loaderAfter_iff {x : Id} {p : Placed α} :
    (a.loaderAfter load ids).cache.get? x = some p ↔
      ∃ id ∈ ids, ∃ c, (load (.ofArchive a) id).1 = .ok c ∧ (x, p) ∈ nodes c := by
  obtain ⟨after, complete⟩ := loaderAfter_eq wraps views good
  rw [after]
  constructor
  · intro found
    rcases Cache.mem_of_get?_extend found with before | new
    · simp at before
    · obtain ⟨id, member, inside⟩ := List.mem_flatMap.mp new
      exact ⟨id, member, Archive.mem_nodesOf.mp inside⟩
  · rintro ⟨id, member, c, fresh, inside⟩
    have new := List.mem_flatMap.mpr ⟨id, member, Archive.mem_nodesOf.mpr ⟨c, fresh, inside⟩⟩
    obtain ⟨root, t, holds, rfl⟩ := exists_holds_of_load wraps fresh
    rw [views] at inside
    exact complete.settled.get?_of_mem new
      (holds.canonical.root.placements_sound holds.unfolds holds.genuine (.inr ⟨rfl, rfl⟩) inside)

/-- The ids that the loader remembers are those that can be reached. -/
theorem exists_get?_loaderAfter_iff {x : Id} :
    (∃ p, (a.loaderAfter load ids).cache.get? x = some p) ↔ ∃ id ∈ ids, a.Under id x := by
  simp only [get?_loaderAfter_iff wraps views good]
  constructor
  · rintro ⟨p, id, member, c, fresh, inside⟩
    obtain ⟨root, t, holds, rfl⟩ := exists_holds_of_load wraps fresh
    exact ⟨id, member, holds.exists_placement_iff.mp ⟨p, views t ▸ inside⟩⟩
  · rintro ⟨id, member, under⟩
    obtain ⟨c, fresh⟩ := good id member
    obtain ⟨root, t, holds, rfl⟩ := exists_holds_of_load wraps fresh
    obtain ⟨p, inside⟩ := holds.exists_placement_iff.mpr under
    exact ⟨p, id, member, _, fresh, (views t).symm ▸ inside⟩

theorem sharesLoader : a.SharesLoader load nodes ids := by
  obtain ⟨after, complete⟩ := loaderAfter_eq wraps views good
  have known {id : Id} {c : γ} (member : id ∈ ids) (fresh : (load (.ofArchive a) id).1 = .ok c) {x : Id} {p : Placed α}
      (inside : (x, p) ∈ nodes c) : (a.loaderAfter load ids).cache.get? x = some p :=
    (get?_loaderAfter_iff wraps views good).mpr ⟨id, member, c, fresh, inside⟩
  constructor
  case answers => exact congrArg Prod.snd (loads_adds wraps views good Cache.complete_empty).1
  case remembered => exact fun x p => get?_loaderAfter_iff wraps views good
  case reached => exact fun x => exists_get?_loaderAfter_iff wraps views good
  case positions =>
    intro id member other member' c d fresh fresh' x p q here there
    exact Option.some.inj ((known member fresh here).symm.trans (known member' fresh' there))
  case again =>
    intro id member
    obtain ⟨c, fresh⟩ := good id member
    obtain ⟨root, t, holds, rfl⟩ := exists_holds_of_load wraps fresh
    have kept := Cache.extend_eq_self fun entry inside => known member fresh ((views t).symm ▸ inside)
    rw [after] at kept ⊢
    rw [wraps, (Loader.load_adds complete holds).1, fresh, kept]
    rfl
  case unasked =>
    intro b roots others id
    rw [after] at others ⊢
    rw [wraps, wraps, Loader.load_unasked S roots others]

end Archive

/-- One loader for any number of containers answers for each id, however often and in whatever order, just what a fresh
loader answers. A node that two of them have in common stands at one position in both and is taken from what the loader
remembers, and an id that was loaded before adds nothing. -/
theorem shared_loader_answers_alike {α κ β : Type} [BEq α] [StableHash α] [Binary α] [BEq κ] [StableHash κ] [Binary κ]
    [Binary β] :
    (∀ (a : Archive α) (ids : List Id), (∀ id ∈ ids, ∃ s, (TrieSet.load (.ofArchive a) id).1 = .ok s) →
      a.SharesLoader TrieSet.load (fun s => s.trie.placements .blake3) ids) ∧
    (∀ (a : Archive (κ × β)) (ids : List Id), (∀ id ∈ ids, ∃ m, (TrieMap.load (κ := κ) (.ofArchive a) id).1 = .ok m) →
      a.SharesLoader (TrieMap.load (κ := κ)) (fun m => m.trie.placements .blake3) ids) := by
  constructor
  · intro a ids good
    exact Archive.sharesLoader (S := TrieSet.scheme) (f := TrieSet.mk) (fun _ _ => rfl) (fun _ => rfl) good
  · intro a ids good
    exact Archive.sharesLoader (S := TrieMap.scheme) (f := TrieMap.mk) (fun _ _ => rfl) (fun _ => rfl) good

/-- Two sets that have a node in common, and a map, loaded in turn and again. -/
theorem shared_loader_answers_alike_common_node :
    let s := TrieSet.ofList [(0 : UInt32), 1, 2]
    let t := TrieSet.ofList [(0 : UInt32), 1, 3]
    let a := (t.save (s.save .empty).1).1
    let ids := [(s.save .empty).2, (t.save (s.save .empty).1).2, (s.save .empty).2]
    let m := TrieMap.ofList [((0 : UInt32), 'a'), (1, 'b')]
    let b := (m.save .empty).1
    (∃ e ∈ (s.trie.placements .blake3).map fun e => (e.1, e.2.depth),
        e.2 = 1 ∧ e ∈ (t.trie.placements .blake3).map fun e => (e.1, e.2.depth)) ∧
      ((∀ id ∈ ids, ∃ c, (TrieSet.load (.ofArchive a) id).1 = .ok c) ∧
        a.SharesLoader TrieSet.load (fun c => c.trie.placements .blake3) ids) ∧
      (∃ c, (TrieMap.load (κ := UInt32) (.ofArchive b) (m.save .empty).2).1 = .ok c) ∧
        b.SharesLoader (TrieMap.load (κ := UInt32)) (fun c => c.trie.placements .blake3)
          [(m.save .empty).2, (m.save .empty).2] := by
  intro s t a ids m b
  obtain ⟨sets, maps⟩ := shared_loader_answers_alike (α := UInt32) (κ := UInt32) (β := Char)
  refine ⟨by decide +kernel, ?_, ?_⟩
  · have digests : ((s.trie.hashed .blake3 .set ++ t.trie.hashed .blake3 .set).dedup.map Id.blake3).Nodup := by
      decide +kernel
    have few : s.size < 2 ^ 64 ∧ t.size < 2 ^ 64 := by decide +kernel
    have canonical : s.trie.Canonical TrieSet.layout ∧ t.trie.Canonical TrieSet.layout :=
      ⟨(TrieSet.ofList_represents _).canonical, (TrieSet.ofList_represents _).canonical⟩
    clear_value s t
    have unique : NoCollision Id.blake3 (· ∈ s.trie.hashed .blake3 .set ++ t.trie.hashed .blake3 .set) :=
      .of_nodup digests fun _ member => member
    have accounts : a.Accounts .blake3 [(.set, t.trie), (.set, s.trie)] :=
      (Archive.accounts_empty.save .set s.trie).save .set t.trie
    have storable : ∀ e ∈ [(Kind.set, t.trie), (Kind.set, s.trie)], e.2.Storable .blake3
        (· ∈ s.trie.hashed .blake3 .set ++ t.trie.hashed .blake3 .set) LawfulBinary.Fits e.1 := by
      rintro e (_ | ⟨_, _ | ⟨_, ⟨⟩⟩⟩)
      · exact canonical.2.storable TrieSet.layout_lawful few.2 (fun _ _ => trivial) fun _ => List.mem_append_right _
      · exact canonical.1.storable TrieSet.layout_lawful few.1 (fun _ _ => trivial) fun _ => List.mem_append_left _
    have wellFormed : ∀ c, (Kind.set, c) ∈ [(Kind.set, t.trie), (Kind.set, s.trie)] → c.Canonical TrieSet.layout := by
      rintro c (_ | ⟨_, _ | ⟨_, ⟨⟩⟩⟩)
      · exact canonical.2
      · exact canonical.1
    have load {c : Trie UInt32} (member : (Kind.set, c) ∈ [(Kind.set, t.trie), (Kind.set, s.trie)]) :
        ∃ c', (TrieSet.load (.ofArchive a) ((c.record .blake3 .set).identity Id.blake3)).1 = .ok c' := by
      obtain ⟨c', loaded, -⟩ := accounts.load (S := TrieSet.scheme) unique LawfulBinary.delimits storable wellFormed
        .fresh member
      exact ⟨⟨c'⟩, TrieSet.load_eq_ok_iff.mpr loaded⟩
    have good : ∀ id ∈ ids, ∃ c, (TrieSet.load (.ofArchive a) id).1 = .ok c := by
      change ∀ id ∈ [_, _, _], _
      rintro id (_ | ⟨_, _ | ⟨_, _ | ⟨_, ⟨⟩⟩⟩⟩)
      · exact load (.tail _ (.head _))
      · exact load (.head _)
      · exact load (.tail _ (.head _))
    exact ⟨good, sets a ids good⟩
  · have short : m.trie.size < 2 ^ 64 := by decide +kernel
    have distinct : ((m.trie.root.manifest .blake3).2.map Prod.fst).Nodup := by decide +kernel
    have canonical : m.trie.Canonical TrieMap.layout := (TrieMap.ofList_represents _).canonical
    clear_value m
    have holds := Archive.holds_save_new (S := TrieMap.scheme) canonical short distinct
    have loaded := TrieMap.load_eq_ok_iff.mpr (Loader.load_ofArchive_eq_ok_iff.mpr ⟨_, holds⟩)
    refine ⟨⟨m, loaded⟩, maps b _ ?_⟩
    rintro id (_ | ⟨_, _ | ⟨_, ⟨⟩⟩⟩)
    · exact ⟨m, loaded⟩
    · exact ⟨m, loaded⟩

end TrieArchive
