import TrieArchive.Proofs.Archive.Tampering

/-! Ids name contents: containers with the same values have one id, wherever they are saved and however they came
about, and only they do. -/
namespace TrieArchive

variable {α κ : Type}

section Naming

variable {A : Addressing α}

/-- The order inside a collision does not show in the bytes that name it. -/
theorem Description.preimage_collision_of_perm {values values' : List α} (same : values.Perm values') :
    (collision values).preimage A = (collision values').preimage A := by
  rw [preimage, preimage, Id.sort_eq_of_perm (same.map fun v => A.digest (A.encode v))]

theorem Node.Alike.identity_eq {a b : Node α} (alike : a.Alike b) : a.identity A = b.identity A := by
  induction alike with
  | branch width below ih => rw [Node.identity_branch, Node.identity_branch, Node.map_eq_of_forall width ih]
  | collision same =>
    rw [Node.identity_collision, Node.identity_collision, Description.identity, Description.identity,
      Description.preimage_collision_of_perm same]

/-- Nodes that are the same up to the order inside collisions are named with the same digests. -/
theorem Node.Alike.mem_hashed {a b : Node α} (alike : a.Alike b) {s : Bytes} (member : s ∈ a.hashed A) :
    s ∈ b.hashed A := by
  induction alike with
  | branch width below ih =>
    rw [mem_hashed_branch] at member ⊢
    rcases member with ⟨child, here, inside⟩ | rfl
    · obtain ⟨i, bound, rfl⟩ := List.mem_iff_getElem.mp here
      have there := List.getElem?_eq_getElem (width ▸ bound)
      exact .inl ⟨_, List.mem_of_getElem? there, ih i _ _ (List.getElem?_eq_getElem bound) there inside⟩
    · rw [Node.map_eq_of_forall width fun i child child' here there => (below i child child' here there).identity_eq]
      exact .inr rfl
  | collision same =>
    rw [hashed_collision] at member ⊢
    rw [← Description.preimage_collision_of_perm same]
    exact ((same.map A.encode).cons _).mem_iff.mp member

/-- Tries that are the same up to the order inside collisions are saved under one record. -/
theorem Trie.record_eq_of_alike {t t' : Trie α} (alike : t.root.Alike t'.root) (size : t.size = t'.size)
    (kind : Kind) : t.record A kind = t'.record A kind := by
  rw [Trie.record, Trie.record, alike.identity_eq, size]

variable [BEq κ] [EquivBEq κ] {L : Layout α κ} {Q : α → Prop} {t t' : Trie α}

/-- Well-formed tries whose values have the same encodings have one record. -/
theorem Trie.Canonical.record_eq_of_encodings (canonical : t.Canonical L) (canonical' : t'.Canonical L)
    (lawful : L.Lawful) (delimits : Delimits A.encode Q) (fits : ∀ v ∈ t.toList, Q v) (fits' : ∀ v ∈ t'.toList, Q v)
    (same : (t.toList.map A.encode).Perm (t'.toList.map A.encode)) (kind : Kind) :
    t.record A kind = t'.record A kind := by
  have values := mem_iff_of_perm_map (fun v here w there => delimits.inj (fits v here) (fits' w there)) same
  refine record_eq_of_alike (canonical.alike canonical' lawful values) ?_ kind
  rw [canonical.size_eq_length, canonical'.size_eq_length]
  simpa using same.length_eq

end Naming

/-- Two containers of one kind, however they came about and wherever they are saved, get one id if their values
have the same encodings. Where no two of the byte strings digested have the same digest, only those do. -/
theorem ids_name_contents {α κ β : Type} [BEq α] [EquivBEq α] [StableHash α] [LawfulStableHash α] [Binary α]
    [LawfulBinary α] [BEq κ] [EquivBEq κ] [StableHash κ] [LawfulStableHash κ] [Binary κ] [LawfulBinary κ]
    [BEq β] [ReflBEq β] [Binary β] [LawfulBinary β] [Inhabited β] :
    (∀ (s t : TrieSet α) (a b : Archive α), TrieSet.Reachable (.frozen s) → TrieSet.Reachable (.frozen t) →
      (∀ v ∈ s.toList, LawfulBinary.Fits v) → (∀ v ∈ t.toList, LawfulBinary.Fits v) →
      ((s.toList.map Binary.encode).Perm (t.toList.map Binary.encode) → (s.save a).2 = (t.save b).2) ∧
      (NoCollision Id.blake3 (fun x => x ∈ s.trie.hashed .blake3 .set ∨ x ∈ t.trie.hashed .blake3 .set) →
        (s.save a).2 = (t.save b).2 → (s.toList.map Binary.encode).Perm (t.toList.map Binary.encode))) ∧
    (∀ (m n : TrieMap κ β) (a b : Archive (κ × β)), TrieMap.Reachable (.frozen m) → TrieMap.Reachable (.frozen n) →
      (∀ v ∈ m.toList, LawfulBinary.Fits v) → (∀ v ∈ n.toList, LawfulBinary.Fits v) →
      ((m.toList.map Binary.encode).Perm (n.toList.map Binary.encode) → (m.save a).2 = (n.save b).2) ∧
      (NoCollision Id.blake3 (fun x => x ∈ m.trie.hashed .blake3 .map ∨ x ∈ n.trie.hashed .blake3 .map) →
        (m.save a).2 = (n.save b).2 → (m.toList.map Binary.encode).Perm (n.toList.map Binary.encode))) := by
  constructor
  · intro s t a b reachable reachable' fits fits'
    have canonical : s.trie.Canonical TrieSet.layout := reachable.canonical
    have canonical' : t.trie.Canonical TrieSet.layout := reachable'.canonical
    refine ⟨fun same => ?_, fun unique same => ?_⟩
    · have records := canonical.record_eq_of_encodings (A := .blake3) canonical' TrieSet.layout_lawful
        LawfulBinary.delimits fits fits' same .set
      exact congrArg (Root.identity Id.blake3) records
    · have found := canonical.matches_of_identity canonical' (A := .blake3) unique LawfulBinary.delimits
        (fun _ member => .inl member) (fun _ member => .inr member) fits fits' same
      exact found.values.map Binary.encode
  · intro m n a b reachable reachable' fits fits'
    have canonical : m.trie.Canonical TrieMap.layout := reachable.canonical
    have canonical' : n.trie.Canonical TrieMap.layout := reachable'.canonical
    refine ⟨fun same => ?_, fun unique same => ?_⟩
    · have records := canonical.record_eq_of_encodings (A := .blake3) canonical' TrieMap.layout_lawful
        LawfulBinary.delimits fits fits' same .map
      exact congrArg (Root.identity Id.blake3) records
    · have found := canonical.matches_of_identity canonical' (A := .blake3) unique LawfulBinary.delimits
        (fun _ member => .inl member) (fun _ member => .inr member) fits fits' same
      exact found.values.map Binary.encode

/-- Two keys of different hashes in either order and into different archives, and two keys of one hash. -/
theorem ids_name_contents_two_keys :
    let s := TrieSet.ofList [(⟨1, 7⟩ : ChosenHash), ⟨2, 8⟩]
    let t := TrieSet.ofList [(⟨2, 8⟩ : ChosenHash), ⟨1, 7⟩]
    let m := TrieMap.ofList [((⟨1, 7⟩ : ChosenHash), (3 : UInt32)), (⟨2, 8⟩, 4)]
    let n := TrieMap.ofList [((⟨2, 8⟩ : ChosenHash), (4 : UInt32)), (⟨1, 7⟩, 3)]
    ((s.save .empty).2 = (t.save (TrieSet.empty.save .empty).1).2 ∧
        (s.toList.map Binary.encode).Perm (t.toList.map Binary.encode)) ∧
      ((m.save .empty).2 = (n.save (TrieMap.empty.save .empty).1).2 ∧
        (m.toList.map Binary.encode).Perm (n.toList.map Binary.encode)) ∧
      ((TrieSet.ofList [(⟨1, 0⟩ : ChosenHash), ⟨2, 0⟩]).save .empty).2 =
        ((TrieSet.ofList [(⟨2, 0⟩ : ChosenHash), ⟨1, 0⟩]).save .empty).2 := by
  intro s t m n
  obtain ⟨sets, maps⟩ := ids_name_contents (α := ChosenHash) (κ := ChosenHash) (β := UInt32)
  refine ⟨?_, ?_, ?_⟩
  · have bytes : (s.toList.map Binary.encode).Perm (t.toList.map Binary.encode) := by decide +kernel
    have digests : ((s.trie.hashed .blake3 .set ++ t.trie.hashed .blake3 .set).dedup.map Id.blake3).Nodup := by
      decide +kernel
    have both := sets s t .empty (TrieSet.empty.save .empty).1 (.edit .empty (.ofList _)) (.edit .empty (.ofList _))
      (fun _ _ => trivial) fun _ _ => trivial
    exact ⟨both.1 bytes, both.2 (.of_nodup digests fun _ member => List.mem_append.mpr member) (both.1 bytes)⟩
  · have bytes : (m.toList.map Binary.encode).Perm (n.toList.map Binary.encode) := by decide +kernel
    have digests : ((m.trie.hashed .blake3 .map ++ n.trie.hashed .blake3 .map).dedup.map Id.blake3).Nodup := by
      decide +kernel
    have both := maps m n .empty (TrieMap.empty.save .empty).1 (.edit .empty (.ofList _)) (.edit .empty (.ofList _))
      (fun _ _ => ⟨trivial, trivial⟩) fun _ _ => ⟨trivial, trivial⟩
    exact ⟨both.1 bytes, both.2 (.of_nodup digests fun _ member => List.mem_append.mpr member) (both.1 bytes)⟩
  · exact (sets _ _ _ _ (.edit .empty (.ofList _)) (.edit .empty (.ofList _)) (fun _ _ => trivial)
      fun _ _ => trivial).1 (by decide +kernel)

end TrieArchive
