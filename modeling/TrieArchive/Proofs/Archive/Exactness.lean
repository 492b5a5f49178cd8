import TrieArchive.Archive.Container
import TrieArchive.Proofs.Archive.Loading
import TrieArchive.Proofs.Trie.Operations

/-! Which ids of an archive can be loaded, and what they load to. The archive may be anything at all: what
it holds is said of its entries alone, and a loader answers exactly that. -/
namespace TrieArchive

variable {α κ : Type} [BEq κ]

/-- The root stored under an id describes a well-formed trie, and all nodes on the way to its values are
stored under their own ids. -/
structure Archive.Holds (S : Scheme α κ) (a : Archive α) (id : Id) (root : Root) (t : Trie α) : Prop where
  stored : a.root? id = some root
  kind : root.kind = S.kind
  identity : root.identity S.digest = id
  genuine : a.GenuineFrom S.toAddressing root.node
  unfolds : a.Unfolds root.node t.root
  canonical : t.Canonical S.toLayout
  size : t.size = root.size.toNat

theorem Archive.Holds.unique {S : Scheme α κ} {a : Archive α} {id : Id} {root root' : Root} {t t' : Trie α}
    (holds : a.Holds S id root t) (holds' : a.Holds S id root' t') : t = t' := by
  obtain rfl : root = root' := Option.some.inj (holds.stored.symm.trans holds'.stored)
  have same := holds.unfolds.unique holds'.unfolds holds.canonical.root holds'.canonical.root
  have size := holds.size.trans holds'.size.symm
  obtain ⟨node, _⟩ := t
  obtain ⟨node', _⟩ := t'
  cases same
  cases size
  rfl

namespace Rebuild

variable {S : Scheme α κ} {a : Archive α} {id : Id}

theorem container_keeps : Keeps (Cache.Sound S a) (container S a id) fun t => ∃ root, a.Holds S id root t := by
  unfold container rooted
  cases stored : a.root? id with
  | none => exact .throw _
  | some root =>
    simp only [reject_bind, throw_bind]
    by_cases kind : root.kind = S.kind
    · rw [if_neg (not_not.mpr kind)]
      refine .check fun identity => .bind (node_keeps id root.node (Nat.zero_add _) (by decide)) fun p fits => ?_
      obtain ⟨sound, level, path⟩ := fits
      have canonical := sound.canonical
      rw [level, path] at canonical
      exact .check fun size => .pure ⟨root, stored, kind, not_not.mp identity, sound.genuine, sound.unfolds,
        ⟨canonical, sound.count⟩, not_not.mp size⟩
    · rw [if_pos kind]
      exact .throw _

theorem container_succeeds {P : Id → Prop} {root : Root} {t : Trie α} (holds : a.Holds S id root t)
    (top : P root.node) : Succeeds (Cache.SettledAt S a P) (container S a id) (· = t) := by
  have roomy : 2 ≤ t.root.count ∨ P root.node ∧ 0 = 0 ∧ 0 = 0 := .inr ⟨top, rfl, rfl⟩
  unfold container rooted
  simp only [holds.stored, reject_bind, throw_bind]
  rw [if_neg (not_not.mpr holds.kind)]
  refine .check (not_not.mpr holds.identity) (.bind
    (node_succeeds id (Nat.zero_add _) holds.unfolds holds.genuine holds.canonical.root roomy) fun p fits => ?_)
  obtain ⟨sound, -, -⟩ := fits
  have same : p.node = t.root := sound.unfolds.unique holds.unfolds sound.canonical holds.canonical.root
  have count : p.count = t.size := by rw [sound.count, same, holds.canonical.size]
  refine .check (not_not.mpr (count.trans holds.size)) (.pure ?_)
  rw [same, count]

end Rebuild

namespace Loader

variable {S : Scheme α κ}

/-- The loaders of one kind over an archive: a fresh one, and what any load leaves behind, whether it
succeeds or fails. -/
inductive Reached (S : Scheme α κ) (a : Archive α) : Loader α → Prop where
  | fresh : Reached S a (.ofArchive a)
  | load {l : Loader α} (reached : Reached S a l) (id : Id) : Reached S a (l.load S id).2

theorem cache_ofArchive_sound (a : Archive α) : Cache.Sound S a (ofArchive a).cache := by
  intro id p found
  simp [ofArchive] at found

theorem cache_ofArchive_settled (a : Archive α) : Cache.Settled S a (ofArchive a).cache := by
  intro id p found
  simp [ofArchive] at found

theorem load_sound {l : Loader α} (sound : Cache.Sound S l.archive l.cache) (id : Id) :
    Cache.Sound S l.archive (l.load S id).2.cache ∧
      ∀ t, (l.load S id).1 = .ok t → ∃ root, l.archive.Holds S id root t :=
  Rebuild.container_keeps l.cache sound

theorem Reached.sound {a : Archive α} {l : Loader α} (reached : Reached S a l) :
    l.archive = a ∧ Cache.Sound S a l.cache := by
  induction reached with
  | fresh => exact ⟨rfl, cache_ofArchive_sound a⟩
  | load _ id ih =>
    obtain ⟨rfl, sound⟩ := ih
    exact ⟨rfl, (load_sound sound id).1⟩

/-- What any loader answers is held by its archive. -/
theorem Reached.holds {a : Archive α} {l : Loader α} (reached : Reached S a l) {id : Id} {t : Trie α}
    (loaded : (l.load S id).1 = .ok t) : ∃ root, a.Holds S id root t := by
  obtain ⟨rfl, sound⟩ := reached.sound
  exact (load_sound sound id).2 t loaded

/-- A loader that only made successful loads answers what the archive holds. -/
theorem load_of_holds {l : Loader α} (settled : Cache.Settled S l.archive l.cache) {id : Id} {root : Root}
    {t : Trie α} (holds : l.archive.Holds S id root t) :
    Cache.Settled S l.archive (l.load S id).2.cache ∧ (l.load S id).1 = .ok t := by
  rw [Cache.settled_iff] at settled ⊢
  obtain ⟨settled', t', same, rfl⟩ := Rebuild.container_succeeds holds trivial l.cache settled
  exact ⟨settled', same⟩

theorem load_ofArchive_eq_ok_iff {a : Archive α} {id : Id} {t : Trie α} :
    ((ofArchive a).load S id).1 = .ok t ↔ ∃ root, a.Holds S id root t := by
  constructor
  · exact Reached.fresh.holds
  · rintro ⟨root, holds⟩
    exact (load_of_holds (cache_ofArchive_settled a) holds).2

end Loader

theorem Except.map_eq_ok_iff {ε β γ : Type} {f : β → γ} {r : Except ε β} {c : γ} :
    r.map f = .ok c ↔ ∃ b, r = .ok b ∧ f b = c := by
  cases r <;> simp [Except.map]

theorem Except.mapError_eq_ok_iff {ε ε' β : Type} {f : ε → ε'} {r : Except ε β} {b : β} :
    r.mapError f = .ok b ↔ r = .ok b := by
  cases r <;> simp [Except.mapError]

theorem Except.bind_eq_ok_iff {ε β γ : Type} {r : Except ε β} {f : β → Except ε γ} {c : γ} :
    r >>= f = .ok c ↔ ∃ b, r = .ok b ∧ f b = .ok c := by
  cases r <;> simp [bind, Except.bind]

instance Except.decidableOk {ε β : Type} (r : Except ε β) : Decidable (∃ b, r = .ok b) :=
  match r with
  | .ok b => .isTrue ⟨b, rfl⟩
  | .error _ => .isFalse fun ⟨_, same⟩ => nomatch same

instance Except.decidableOkAnd {ε β : Type} (r : Except ε β) (P : β → Prop) [DecidablePred P] :
    Decidable (∃ b, r = .ok b ∧ P b) :=
  match r with
  | .ok b => decidable_of_iff (P b) ⟨fun holds => ⟨b, rfl, holds⟩, fun ⟨_, same, holds⟩ => Except.ok.inj same ▸ holds⟩
  | .error _ => .isFalse fun ⟨_, same, _⟩ => nomatch same

theorem TrieSet.load_eq_ok_iff [BEq α] [StableHash α] [Binary α] {l : Loader α} {id : Id} {s : TrieSet α} :
    (TrieSet.load l id).1 = .ok s ↔ (l.load TrieSet.scheme id).1 = .ok s.trie := by
  rw [TrieSet.load, Except.map_eq_ok_iff]
  constructor
  · rintro ⟨t, loaded, rfl⟩
    exact loaded
  · exact fun loaded => ⟨_, loaded, rfl⟩

theorem TrieMap.load_eq_ok_iff {β : Type} [StableHash κ] [Binary κ] [Binary β] {l : Loader (κ × β)} {id : Id}
    {m : TrieMap κ β} : (TrieMap.load l id).1 = .ok m ↔ (l.load TrieMap.scheme id).1 = .ok m.trie := by
  rw [TrieMap.load, Except.map_eq_ok_iff]
  constructor
  · rintro ⟨t, loaded, rfl⟩
    exact loaded
  · exact fun loaded => ⟨_, loaded, rfl⟩

/-- A fresh loader of sets or of maps answers a container for an id exactly if the archive holds it there,
whatever else the archive says. -/
theorem fresh_load_exact :
    (∀ {α : Type} [BEq α] [StableHash α] [Binary α] (a : Archive α) (id : Id) (s : TrieSet α),
      (TrieSet.load (.ofArchive a) id).1 = .ok s ↔ ∃ root, a.Holds TrieSet.scheme id root s.trie) ∧
    (∀ {κ β : Type} [BEq κ] [StableHash κ] [Binary κ] [Binary β] (a : Archive (κ × β)) (id : Id)
      (m : TrieMap κ β),
      (TrieMap.load (.ofArchive a) id).1 = .ok m ↔ ∃ root, a.Holds TrieMap.scheme id root m.trie) := by
  constructor
  · intro α _ _ _ a id s
    rw [TrieSet.load_eq_ok_iff, Loader.load_ofArchive_eq_ok_iff]
  · intro κ β _ _ _ _ a id m
    rw [TrieMap.load_eq_ok_iff, Loader.load_ofArchive_eq_ok_iff]

end TrieArchive
