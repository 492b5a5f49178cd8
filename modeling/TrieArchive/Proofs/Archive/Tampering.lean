import TrieArchive.Proofs.Archive.Binding
import TrieArchive.Proofs.Container.CanonicalForm

/-! Loads of one id from any two archives answer the same container. So whatever is done to an archive, an id
that was answered by a save loads to what was saved, or not at all. -/
namespace TrieArchive

variable {α κ : Type} [BEq κ]

namespace Archive

/-- The byte strings that are digested to check a root and all nodes below it. -/
def Hashed (A : Addressing α) (a : Archive α) (id : Id) (s : Bytes) : Prop :=
  ∃ root, a.root? id = some root ∧ (s = root.preimage ∨
    ∃ x d, a.Reaches root.node x ∧ a.node? x = some d ∧ s ∈ d.hashed A)

end Archive

/-- The byte strings that are digested to save a trie. -/
def Trie.hashed (A : Addressing α) (kind : Kind) (t : Trie α) : List Bytes :=
  (t.record A kind).preimage :: t.root.hashed A

/-- Checking what is held digests the same byte strings as saving it. -/
theorem Archive.Holds.hashed_iff {S : Scheme α κ} {a : Archive α} {id : Id} {root : Root} {t : Trie α}
    (holds : a.Holds S id root t) {s : Bytes} :
    a.Hashed S.toAddressing id s ↔ s ∈ t.hashed S.toAddressing S.kind := by
  have entries := (holds.unfolds.manifest holds.genuine).2
  rw [Trie.hashed, holds.record_eq, List.mem_cons, Node.hashed, List.mem_flatMap]
  constructor
  · rintro ⟨other, stored, own | ⟨x, d, reached, there, inside⟩⟩
    all_goals obtain rfl := Option.some.inj (stored.symm.trans holds.stored)
    · exact .inl own
    · exact .inr ⟨(x, d), (entries (x, d)).mpr ⟨reached, there⟩, inside⟩
  · rintro (own | ⟨entry, here, inside⟩)
    · exact ⟨root, holds.stored, .inl own⟩
    · obtain ⟨reached, there⟩ := (entries entry).mp here
      exact ⟨root, holds.stored, .inr ⟨entry.1, entry.2, reached, there, inside⟩⟩

/-- Digests that all differ when a trie is saved also differ when it is checked. -/
theorem Archive.Holds.noCollision {S : Scheme α κ} {a : Archive α} {id : Id} {root : Root} {t : Trie α}
    (holds : a.Holds S id root t) (digests : ((t.hashed S.toAddressing S.kind).map S.digest).Nodup) :
    NoCollision S.digest fun s => s ∈ t.hashed S.toAddressing S.kind ∨ a.Hashed S.toAddressing id s := by
  intro x y hx hy same
  have hx : x ∈ t.hashed S.toAddressing S.kind := hx.elim (·) holds.hashed_iff.mp
  have hy : y ∈ t.hashed S.toAddressing S.kind := hy.elim (·) holds.hashed_iff.mp
  exact List.inj_on_of_nodup_map digests hx hy same

/-- The same tree up to the order inside collisions, with the same values, and equal when compared. -/
structure Trie.Matches [BEq α] (t t' : Trie α) : Prop where
  alike : t.root.Alike t'.root
  values : t.toList.Perm t'.toList
  same : t.same t'

section Schemes

variable [BEq α] [ReflBEq α] [EquivBEq κ] {P : Bytes → Prop} {Q : α → Prop} {t t' : Trie α}

omit [EquivBEq κ] in
/-- Tries that are the same up to the order inside collisions match. -/
theorem Trie.Canonical.matches_of_alike {L : Layout α κ} (canonical : t.Canonical L) (canonical' : t'.Canonical L)
    (alike : t.root.Alike t'.root) : t.Matches t' := by
  have values : t.toList.Perm t'.toList := alike.toList_perm
  refine ⟨alike, values, ?_⟩
  rw [Trie.same, canonical.size_eq_length, canonical'.size_eq_length, values.length_eq, alike.same, Bool.and_true]
  exact beq_self_eq_true _

/-- Well-formed tries that are saved under one id match. -/
theorem Trie.Canonical.matches_of_identity {L : Layout α κ} {A : Addressing α} {kind : Kind}
    (canonical : t.Canonical L) (canonical' : t'.Canonical L) (unique : NoCollision A.digest P)
    (delimits : Delimits A.encode Q) (hashed : ∀ s ∈ t.hashed A kind, P s) (hashed' : ∀ s ∈ t'.hashed A kind, P s)
    (fits : ∀ v ∈ t.toList, Q v) (fits' : ∀ v ∈ t'.toList, Q v)
    (same : (t.record A kind).identity A.digest = (t'.record A kind).identity A.digest) : t.Matches t' := by
  have roots := Root.preimage_inj (unique _ _ (hashed _ List.mem_cons_self) (hashed' _ List.mem_cons_self) same)
  exact canonical.matches_of_alike canonical' (canonical.root.alike_of_identity unique delimits canonical'.root fits
    fits' (fun s member => hashed s (List.mem_cons_of_mem _ member))
    (fun s member => hashed' s (List.mem_cons_of_mem _ member)) (congrArg Root.node roots))

variable {S : Scheme α κ} {id : Id}

/-- Tries held under one id match. -/
theorem Archive.Holds.matches {a b : Archive α} {root root' : Root} (holds : a.Holds S id root t)
    (holds' : b.Holds S id root' t') (delimits : Delimits S.encode Q)
    (unique : NoCollision S.digest fun s => a.Hashed S.toAddressing id s ∨ b.Hashed S.toAddressing id s)
    (fits : ∀ v ∈ t.toList, Q v) (fits' : ∀ v ∈ t'.toList, Q v) : t.Matches t' := by
  refine holds.canonical.matches_of_identity holds'.canonical unique delimits
    (fun s member => .inl (holds.hashed_iff.mpr member)) (fun s member => .inr (holds'.hashed_iff.mpr member))
    fits fits' ?_
  rw [holds.record_eq, holds'.record_eq, holds.identity, holds'.identity]

/-- What is held under the id of a saved trie matches it. -/
theorem Archive.Holds.matches_saved {a b : Archive α} {root : Root}
    (holds : b.Holds S (a.save S.toAddressing S.kind t).2 root t') (canonical : t.Canonical S.toLayout)
    (delimits : Delimits S.encode Q)
    (unique : NoCollision S.digest fun s =>
      s ∈ t.hashed S.toAddressing S.kind ∨ b.Hashed S.toAddressing (a.save S.toAddressing S.kind t).2 s)
    (fits : ∀ v ∈ t.toList, Q v) (fits' : ∀ v ∈ t'.toList, Q v) : t.Matches t' := by
  refine canonical.matches_of_identity holds.canonical unique delimits (fun s member => .inl member)
    (fun s member => .inr (holds.hashed_iff.mpr member)) fits fits' ?_
  rw [holds.record_eq, holds.identity]
  rfl

theorem Loader.matches_of_loads {a b : Archive α} (first : ((ofArchive a).load S id).1 = .ok t)
    (second : ((ofArchive b).load S id).1 = .ok t') (delimits : Delimits S.encode Q)
    (unique : NoCollision S.digest fun s => a.Hashed S.toAddressing id s ∨ b.Hashed S.toAddressing id s)
    (fits : ∀ v ∈ t.toList, Q v) (fits' : ∀ v ∈ t'.toList, Q v) : t.Matches t' := by
  obtain ⟨_, holds⟩ := load_ofArchive_eq_ok_iff.mp first
  obtain ⟨_, holds'⟩ := load_ofArchive_eq_ok_iff.mp second
  exact holds.matches holds' delimits unique fits fits'

theorem Loader.matches_of_save {a b : Archive α} (canonical : t.Canonical S.toLayout)
    (loaded : ((ofArchive b).load S (a.save S.toAddressing S.kind t).2).1 = .ok t')
    (delimits : Delimits S.encode Q) (unique : NoCollision S.digest fun s =>
      s ∈ t.hashed S.toAddressing S.kind ∨ b.Hashed S.toAddressing (a.save S.toAddressing S.kind t).2 s)
    (fits : ∀ v ∈ t.toList, Q v) (fits' : ∀ v ∈ t'.toList, Q v) : t.Matches t' := by
  obtain ⟨_, holds⟩ := load_ofArchive_eq_ok_iff.mp loaded
  exact holds.matches_saved canonical delimits unique fits fits'

end Schemes

/-- Two fresh loads of an id, from archives that may say anything, answer matching containers. In particular,
an id that was answered by a save loads to what was saved or to an error. -/
theorem id_binds_contents {α κ β : Type} [BEq α] [EquivBEq α] [StableHash α] [LawfulStableHash α] [Binary α]
    [LawfulBinary α] [BEq κ] [EquivBEq κ] [StableHash κ] [LawfulStableHash κ] [Binary κ] [LawfulBinary κ]
    [BEq β] [ReflBEq β] [Binary β] [LawfulBinary β] [Inhabited β] :
    (∀ (a b : Archive α) (id : Id) (s t : TrieSet α),
      (TrieSet.load (.ofArchive a) id).1 = .ok s → (TrieSet.load (.ofArchive b) id).1 = .ok t →
      NoCollision Id.blake3 (fun x => a.Hashed .blake3 id x ∨ b.Hashed .blake3 id x) →
      (∀ v ∈ s.toList, LawfulBinary.Fits v) → (∀ v ∈ t.toList, LawfulBinary.Fits v) →
      s.trie.Matches t.trie ∧ s == t) ∧
    (∀ (a b : Archive (κ × β)) (id : Id) (m n : TrieMap κ β),
      (TrieMap.load (.ofArchive a) id).1 = .ok m → (TrieMap.load (.ofArchive b) id).1 = .ok n →
      NoCollision Id.blake3 (fun x => a.Hashed .blake3 id x ∨ b.Hashed .blake3 id x) →
      (∀ v ∈ m.toList, LawfulBinary.Fits v) → (∀ v ∈ n.toList, LawfulBinary.Fits v) →
      m.trie.Matches n.trie ∧ m == n) ∧
    (∀ (a b : Archive α) (s t : TrieSet α), TrieSet.Reachable (.frozen s) →
      (TrieSet.load (.ofArchive b) (s.save a).2).1 = .ok t →
      NoCollision Id.blake3 (fun x => x ∈ s.trie.hashed .blake3 .set ∨ b.Hashed .blake3 (s.save a).2 x) →
      (∀ v ∈ s.toList, LawfulBinary.Fits v) → (∀ v ∈ t.toList, LawfulBinary.Fits v) →
      s.trie.Matches t.trie ∧ s == t) ∧
    (∀ (a b : Archive (κ × β)) (m n : TrieMap κ β), TrieMap.Reachable (.frozen m) →
      (TrieMap.load (.ofArchive b) (m.save a).2).1 = .ok n →
      NoCollision Id.blake3 (fun x => x ∈ m.trie.hashed .blake3 .map ∨ b.Hashed .blake3 (m.save a).2 x) →
      (∀ v ∈ m.toList, LawfulBinary.Fits v) → (∀ v ∈ n.toList, LawfulBinary.Fits v) →
      m.trie.Matches n.trie ∧ m == n) := by
  refine ⟨?_, ?_, ?_, ?_⟩
  · intro a b id s t first second unique fits fits'
    have found := Loader.matches_of_loads (TrieSet.load_eq_ok_iff.mp first) (TrieSet.load_eq_ok_iff.mp second)
      LawfulBinary.delimits unique fits fits'
    exact ⟨found, found.same⟩
  · intro a b id m n first second unique fits fits'
    have found := Loader.matches_of_loads (TrieMap.load_eq_ok_iff.mp first) (TrieMap.load_eq_ok_iff.mp second)
      LawfulBinary.delimits unique fits fits'
    exact ⟨found, found.same⟩
  · intro a b s t reachable loaded unique fits fits'
    have canonical : s.trie.Canonical TrieSet.scheme.toLayout := reachable.canonical
    have found := Loader.matches_of_save (a := a) canonical (TrieSet.load_eq_ok_iff.mp loaded)
      LawfulBinary.delimits unique fits fits'
    exact ⟨found, found.same⟩
  · intro a b m n reachable loaded unique fits fits'
    have canonical : m.trie.Canonical TrieMap.scheme.toLayout := reachable.canonical
    have found := Loader.matches_of_save (a := a) canonical (TrieMap.load_eq_ok_iff.mp loaded)
      LawfulBinary.delimits unique fits fits'
    exact ⟨found, found.same⟩

/-- Two keys and two pairs, saved in archives of their own. -/
theorem id_binds_contents_two_keys :
    let s := TrieSet.ofList [(⟨1, 7⟩ : ChosenHash), ⟨2, 8⟩]
    let m := TrieMap.ofList [((⟨1, 7⟩ : ChosenHash), (3 : UInt32)), (⟨2, 8⟩, 4)]
    ((TrieSet.load (.ofArchive (s.save .empty).1) (s.save .empty).2).1 = .ok s ∧ s.trie.Matches s.trie ∧ s == s) ∧
      (TrieMap.load (.ofArchive (m.save .empty).1) (m.save .empty).2).1 = .ok m ∧ m.trie.Matches m.trie ∧
        m == m := by
  intro s m
  obtain ⟨sets, maps, savedSets, savedMaps⟩ := id_binds_contents (α := ChosenHash) (κ := ChosenHash) (β := UInt32)
  constructor
  · have reachable : TrieSet.Reachable (.frozen s) := .edit .empty (.ofList _)
    have short : s.trie.size < 2 ^ 64 := by decide +kernel
    have alone : (s.trie.root.manifest .blake3).2.length = 1 := by decide +kernel
    have digests : ((s.trie.hashed .blake3 .set).map Id.blake3).Nodup := by decide +kernel
    clear_value s
    have holds := Archive.holds_save_empty (S := TrieSet.scheme) reachable.canonical short alone
    have loaded := TrieSet.load_eq_ok_iff.mpr (Loader.load_ofArchive_eq_ok_iff.mpr ⟨_, holds⟩)
    have unique := holds.noCollision digests
    have fits (v : ChosenHash) (_ : v ∈ s.toList) : LawfulBinary.Fits v := trivial
    have twice := sets _ _ _ s s loaded loaded
      (fun x y hx hy => unique x y (.inr (hx.elim id id)) (.inr (hy.elim id id))) fits fits
    exact ⟨loaded, (savedSets .empty _ s s reachable loaded unique fits fits).1, twice.2⟩
  · have reachable : TrieMap.Reachable (.frozen m) := .edit .empty (.ofList _)
    have short : m.trie.size < 2 ^ 64 := by decide +kernel
    have alone : (m.trie.root.manifest .blake3).2.length = 1 := by decide +kernel
    have digests : ((m.trie.hashed .blake3 .map).map Id.blake3).Nodup := by decide +kernel
    clear_value m
    have holds := Archive.holds_save_empty (S := TrieMap.scheme) reachable.canonical short alone
    have loaded := TrieMap.load_eq_ok_iff.mpr (Loader.load_ofArchive_eq_ok_iff.mpr ⟨_, holds⟩)
    have unique := holds.noCollision digests
    have fits (v : ChosenHash × UInt32) (_ : v ∈ m.toList) : LawfulBinary.Fits v := ⟨trivial, trivial⟩
    have twice := maps _ _ _ m m loaded loaded
      (fun x y hx hy => unique x y (.inr (hx.elim id id)) (.inr (hy.elim id id))) fits fits
    exact ⟨loaded, (savedMaps .empty _ m m reachable loaded unique fits fits).1, twice.2⟩

end TrieArchive
