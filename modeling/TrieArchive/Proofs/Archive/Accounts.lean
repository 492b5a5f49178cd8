import TrieArchive.Proofs.Archive.Codec
import TrieArchive.Proofs.Archive.Dedup

/-! Archives that hold nothing but what saves have stored. For each trie that was saved something alike is there, and any
loader of its kind answers it. -/
namespace TrieArchive

variable {α κ : Type}

/-- A trie that saving writes down in full: its size and its values fit in their places, and only the byte strings
in `P` are digested for it. -/
structure Trie.Storable (A : Addressing α) (P : Bytes → Prop) (Q : α → Prop) (kind : Kind) (t : Trie α) : Prop where
  entries : ∀ entry ∈ (t.root.manifest A).2, entry.2.identity A = entry.1 ∧
    entry.2.values.Sublist t.toList ∧ entry.2.children.length ≤ 32
  nodup : t.toList.Nodup
  short : t.toList.length < 2 ^ 64
  fits : ∀ v ∈ t.toList, Q v
  hashed : ∀ s ∈ t.hashed A kind, P s

theorem Trie.Canonical.storable [BEq κ] [EquivBEq κ] {L : Layout α κ} {A : Addressing α} {P : Bytes → Prop}
    {Q : α → Prop} {kind : Kind} {t : Trie α} (canonical : t.Canonical L) (lawful : L.Lawful)
    (short : t.size < 2 ^ 64) (fits : ∀ v ∈ t.toList, Q v) (hashed : ∀ s ∈ t.hashed A kind, P s) :
    t.Storable A P Q kind where
  entries _ member := canonical.root.of_mem_manifest member
  nodup := (canonical.root.distinct lawful).nodup
  short := canonical.size_eq_length ▸ short
  fits := fits
  hashed := hashed

/-- What saving writes down fits in eight-byte lengths. -/
theorem Trie.Storable.description_fits [Binary α] [LawfulBinary α] {A : Addressing α} {P : Bytes → Prop} {kind : Kind}
    {t : Trie α} (storable : t.Storable A P LawfulBinary.Fits kind) {entry : Id × Description α}
    (inside : entry ∈ (t.root.manifest A).2) : LawfulBinary.Fits entry.2 := by
  obtain ⟨-, values, width⟩ := storable.entries entry inside
  refine ⟨⟨Nat.lt_of_le_of_lt values.length_le storable.short, fun v own => ?_⟩, ?_⟩
  · exact storable.fits v (values.subset own)
  · exact Nat.lt_of_le_of_lt width (by decide)

/-- What is stored under an id that saving uses, and has it for its own, is alike to what saving writes. -/
theorem Trie.Storable.alike {A : Addressing α} {P : Bytes → Prop} {Q : α → Prop} {kind : Kind} {t : Trie α}
    (storable : t.Storable A P Q kind) (unique : NoCollision A.digest P) (delimits : Delimits A.encode Q)
    {entry : Id × Description α} (inside : entry ∈ (t.root.manifest A).2) {d : Description α}
    (identity : d.identity A = entry.1) (hashed : ∀ s ∈ d.hashed A, P s) (fits : ∀ v ∈ d.values, Q v)
    (short : d.values.length < 2 ^ 64) : entry.2.Alike d := by
  obtain ⟨own, values, -⟩ := storable.entries entry inside
  have hashed' (s : Bytes) (member : s ∈ entry.2.hashed A) : P s :=
    storable.hashed s (List.mem_cons_of_mem _ (List.mem_flatMap.mpr ⟨entry, inside, member⟩))
  exact Description.alike_of_identity unique delimits hashed' hashed
    (fun v member => storable.fits v (values.subset member)) fits (values.nodup storable.nodup)
    (Nat.lt_of_le_of_lt values.length_le storable.short) short (own.trans identity.symm)

namespace Archive

/-- All that an archive stores comes from these saves, and nothing of what they wrote down is missing. -/
structure Accounts (A : Addressing α) (saved : List (Kind × Trie α)) (a : Archive α) : Prop where
  nodes : ∀ id d, a.node? id = some d → ∃ e ∈ saved, (id, d) ∈ (e.2.root.manifest A).2
  roots : ∀ id r, a.root? id = some r → ∃ e ∈ saved, r = e.2.record A e.1 ∧ r.identity A.digest = id
  node : ∀ e ∈ saved, ∀ entry ∈ (e.2.root.manifest A).2, (a.node? entry.1).isSome
  root : ∀ e ∈ saved, (a.root? ((e.2.record A e.1).identity A.digest)).isSome

section Saving

variable {A : Addressing α} {saved : List (Kind × Trie α)} {a : Archive α}

theorem accounts_empty : Accounts A [] (empty : Archive α) where
  nodes _ _ found := by simp [node?, empty] at found
  roots _ _ found := by simp [root?, empty] at found
  node _ member := nomatch member
  root _ member := nomatch member

theorem Accounts.save (accounts : a.Accounts A saved) (kind : Kind) (t : Trie α) :
    (a.save A kind t).1.Accounts A ((kind, t) :: saved) where
  nodes id d found := by
    rw [node?_save, Option.or_eq_some_iff] at found
    rcases found with there | ⟨-, new⟩
    · obtain ⟨e, member, inside⟩ := accounts.nodes id d there
      exact ⟨e, List.mem_cons_of_mem _ member, inside⟩
    · obtain ⟨entry, first, rfl⟩ := Option.map_eq_some_iff.mp new
      have same : entry.1 = id := by simpa using List.find?_some first
      exact ⟨_, List.mem_cons_self, same ▸ List.mem_of_find?_eq_some first⟩
  roots id r found := by
    rw [root?_save, Option.or_eq_some_iff] at found
    rcases found with there | ⟨-, new⟩
    · obtain ⟨e, member, inside⟩ := accounts.roots id r there
      exact ⟨e, List.mem_cons_of_mem _ member, inside⟩
    · obtain ⟨same, own⟩ := Option.ite_some_none_eq_some.mp new
      exact ⟨_, List.mem_cons_self, own.symm, own ▸ same⟩
  node e member entry inside := by
    refine (isSome_node?_save_iff ..).mpr ?_
    rcases List.mem_cons.mp member with rfl | before
    · exact .inr (Node.mem_ids.mpr ⟨entry.2, inside⟩)
    · exact .inl (accounts.node e before entry inside)
  root e member := by
    rw [root?_save, Option.isSome_or, Bool.or_eq_true]
    rcases List.mem_cons.mp member with rfl | before
    · exact .inr (by simp)
    · exact .inl (accounts.root e before)

end Saving

section Lookup

variable {A : Addressing α} {P : Bytes → Prop} {Q : α → Prop} {saved : List (Kind × Trie α)} {a : Archive α}

/-- For each node of a saved trie something alike is stored. -/
theorem Accounts.exists_alike (accounts : a.Accounts A saved) (unique : NoCollision A.digest P)
    (delimits : Delimits A.encode Q) (storable : ∀ e ∈ saved, e.2.Storable A P Q e.1) {e : Kind × Trie α}
    (member : e ∈ saved) {entry : Id × Description α} (inside : entry ∈ (e.2.root.manifest A).2) :
    ∃ d, a.node? entry.1 = some d ∧ entry.2.Alike d := by
  obtain ⟨d, stored⟩ := Option.isSome_iff_exists.mp (accounts.node e member entry inside)
  obtain ⟨e', member', inside'⟩ := accounts.nodes _ d stored
  have there := storable e' member'
  obtain ⟨identity, values, -⟩ := there.entries _ inside'
  refine ⟨d, stored, (storable e member).alike unique delimits inside identity (fun s own => ?_)
    (fun v own => there.fits v (values.subset own)) (Nat.lt_of_le_of_lt values.length_le there.short)⟩
  exact there.hashed s (List.mem_cons_of_mem _ (List.mem_flatMap.mpr ⟨_, inside', own⟩))

/-- The root of a saved trie is stored as it was saved. -/
theorem Accounts.root?_eq (accounts : a.Accounts A saved) (unique : NoCollision A.digest P)
    (storable : ∀ e ∈ saved, e.2.Storable A P Q e.1) {e : Kind × Trie α} (member : e ∈ saved) :
    a.root? ((e.2.record A e.1).identity A.digest) = some (e.2.record A e.1) := by
  obtain ⟨r, stored⟩ := Option.isSome_iff_exists.mp (accounts.root e member)
  obtain ⟨e', member', rfl, same⟩ := accounts.roots _ r stored
  have bytes := unique _ _ ((storable e' member').hashed _ List.mem_cons_self)
    ((storable e member).hashed _ List.mem_cons_self) same
  rw [stored, Root.preimage_inj bytes]

variable [BEq α] [ReflBEq α] [BEq κ] [EquivBEq κ] {S : Scheme α κ} {t : Trie α}

/-- A saved trie is held up to the order inside collisions. -/
theorem Accounts.holds (accounts : a.Accounts S.toAddressing saved) (unique : NoCollision S.digest P)
    (delimits : Delimits S.encode Q) (storable : ∀ e ∈ saved, e.2.Storable S.toAddressing P Q e.1)
    (canonical : t.Canonical S.toLayout) (member : (S.kind, t) ∈ saved) :
    ∃ t', t.Matches t' ∧ a.Holds S ((t.record S.toAddressing S.kind).identity S.digest)
      (t.record S.toAddressing S.kind) t' := by
  have short : t.size < 2 ^ 64 := canonical.size_eq_length.symm ▸ (storable _ member).short
  have each (entry : Id × Description α) (inside : entry ∈ (t.root.manifest S.toAddressing).2) :
      ∃ d, a.node? entry.1 = some d ∧ entry.2.Alike d := accounts.exists_alike unique delimits storable member inside
  have root := accounts.root?_eq unique storable member
  obtain ⟨t', alike, holds⟩ := holds_of_alike_stored canonical short each root
  exact ⟨t', canonical.matches_of_alike holds.canonical alike, holds⟩

end Lookup

end Archive

/-- Where every root of one kind is in order, no load leaves anything behind that is not. -/
theorem Loader.Reached.settled [BEq κ] {S : Scheme α κ} {a : Archive α} {l : Loader α} (reached : Reached S a l)
    (answers : ∀ id r, a.root? id = some r → r.kind = S.kind → ∃ root t, a.Holds S id root t) :
    l.archive = a ∧ Cache.Settled S a l.cache := by
  induction reached with
  | fresh => exact ⟨rfl, cache_ofArchive_settled a⟩
  | @load l _ id ih =>
    obtain ⟨rfl, settled⟩ := ih
    refine ⟨rfl, ?_⟩
    by_cases held : ∃ root t, l.archive.Holds S id root t
    · obtain ⟨root, t, holds⟩ := held
      exact (load_of_holds settled holds).1
    · have untouched : ((Rebuild.container S l.archive id : Rebuild α (Trie α)).run.run l.cache).2 = l.cache := by
        unfold Rebuild.container Rebuild.rooted
        cases stored : l.archive.root? id with
        | none => rfl
        | some root =>
          have kind : root.kind ≠ S.kind := fun same => held (answers id root stored same)
          simp only [Rebuild.throw_bind]
          rw [if_pos kind]
          rfl
      change Cache.Settled S l.archive ((Rebuild.container S l.archive id : Rebuild α (Trie α)).run.run l.cache).2
      rwa [untouched]

namespace Archive

variable {A : Addressing α} {P : Bytes → Prop} {Q : α → Prop} {saved : List (Kind × Trie α)} {a : Archive α}
  [BEq α] [ReflBEq α] [BEq κ] [EquivBEq κ] {S : Scheme α κ} {t : Trie α}

/-- Any loader of its kind answers a saved trie. -/
theorem Accounts.load (accounts : a.Accounts S.toAddressing saved) (unique : NoCollision S.digest P)
    (delimits : Delimits S.encode Q) (storable : ∀ e ∈ saved, e.2.Storable S.toAddressing P Q e.1)
    (canonical : ∀ t, (S.kind, t) ∈ saved → t.Canonical S.toLayout) {l : Loader α} (reached : Loader.Reached S a l)
    (member : (S.kind, t) ∈ saved) :
    ∃ t', (l.load S ((t.record S.toAddressing S.kind).identity S.digest)).1 = .ok t' ∧ t.Matches t' := by
  obtain ⟨rfl, settled⟩ := reached.settled fun id r stored kind => by
    obtain ⟨⟨_, other⟩, inside, rfl, rfl⟩ := accounts.roots id r stored
    obtain rfl : S.kind = _ := kind.symm
    obtain ⟨t', -, holds⟩ := accounts.holds unique delimits storable (canonical other inside) inside
    exact ⟨_, t', holds⟩
  obtain ⟨t', same, holds⟩ := accounts.holds unique delimits storable (canonical t member) member
  exact ⟨t', (Loader.load_of_holds settled holds).2, same⟩

end Archive

/-- What saving stores can be written in eight-byte lengths. -/
theorem Archive.Accounts.description_fits [Binary α] [LawfulBinary α] {A : Addressing α} {P : Bytes → Prop}
    {saved : List (Kind × Trie α)} {a : Archive α} (accounts : a.Accounts A saved)
    (storable : ∀ e ∈ saved, e.2.Storable A P LawfulBinary.Fits e.1) {x : Id} {d : Description α}
    (stored : a.node? x = some d) : LawfulBinary.Fits d := by
  obtain ⟨e, saved, inside⟩ := accounts.nodes x d stored
  exact (storable e saved).description_fits inside

/-- What saving stores is read from its text as the values saved are from theirs. -/
theorem Archive.Accounts.readsAs [JsonForm α] {A : Addressing α} {P : Bytes → Prop} {Q : α → Prop}
    {saved : List (Kind × Trie α)} {a : Archive α} (accounts : a.Accounts A saved)
    (storable : ∀ e ∈ saved, e.2.Storable A P Q e.1) {f : α → α}
    (each : ∀ e ∈ saved, ∀ v ∈ e.2.toList, JsonForm.ReadsAs v (f v)) : a.ReadsAs f := by
  intro x d stored v own
  obtain ⟨e, member, inside⟩ := accounts.nodes x d stored
  obtain ⟨-, values, -⟩ := (storable e member).entries _ inside
  exact each e member v (values.subset own)

end TrieArchive
