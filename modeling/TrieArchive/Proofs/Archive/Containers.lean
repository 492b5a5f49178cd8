import TrieArchive.Proofs.Archive.Accounts

/-! Containers as archives take them: sets on their own, and sets and maps over the same stored values side by side. -/
namespace TrieArchive

section Collected

variable {α κ : Type}

/-- What steps that store their own value have stored was there before or is among the values. -/
theorem FiniteMap.mem_of_foldl {step : FiniteMap κ α → α → FiniteMap κ α}
    (each : ∀ m v key stored, step m v key = some stored → m key = some stored ∨ stored = v) {l : List α}
    {m : FiniteMap κ α} {key : κ} {stored : α} (found : l.foldl step m key = some stored) :
    m key = some stored ∨ stored ∈ l := by
  induction l generalizing m with
  | nil => exact .inl found
  | cons v l ih =>
    rcases ih found with before | later
    · rcases each m v key stored before with before | rfl
      · exact .inl before
      · exact .inr List.mem_cons_self
    · exact .inr (List.mem_cons_of_mem _ later)

variable [BEq κ]

theorem FiniteMap.eq_of_put {L : Layout α κ} {m : FiniteMap κ α} {v stored : α} {key : κ}
    (found : m.put L v key = some stored) : m key = some stored ∨ stored = v := by
  rw [put] at found
  split at found
  · exact .inr (Option.some.inj found).symm
  · exact .inl found

theorem FiniteMap.eq_of_keep {L : Layout α κ} {m : FiniteMap κ α} {v stored : α} {key : κ}
    (found : m.keep L v key = some stored) : m key = some stored ∨ stored = v := by
  rw [keep] at found
  split at found
  · exact .inl found
  · exact eq_of_put found

/-- A trie that stands for values collected one after the other has no others, and at most as many. -/
theorem Trie.Represents.collected [EquivBEq κ] {L : Layout α κ} (lawful : L.Lawful)
    {step : FiniteMap κ α → α → FiniteMap κ α}
    (each : ∀ m v key stored, step m v key = some stored → m key = some stored ∨ stored = v) {l : List α} {t : Trie α}
    (represents : t.Represents L (l.foldl step .empty)) : (∀ v ∈ t.toList, v ∈ l) ∧ t.size ≤ l.length := by
  have part (v : α) (member : v ∈ t.toList) : v ∈ l :=
    (FiniteMap.mem_of_foldl each ((represents.mem_toList_iff lawful v).mp member)).resolve_left nofun
  have nodup : t.toList.Nodup := (represents.canonical.root.distinct lawful).nodup
  exact ⟨part, represents.canonical.size_eq_length ▸ (List.subperm_of_subset nodup part).length_le⟩

end Collected

/-- A set's trie and the kind that it is saved as. -/
def TrieSet.tagged {α : Type} (s : TrieSet α) : Kind × Trie α := (.set, s.trie)

/-- A map's trie and the kind that it is saved as. -/
def TrieMap.tagged {κ β : Type} (m : TrieMap κ β) : Kind × Trie (κ × β) := (.map, m.trie)

/-- A set that a program can come by, with lengths that fit in a word. -/
structure TrieSet.Saveable {α : Type} [BEq α] [StableHash α] [Binary α] [LawfulBinary α] (s : TrieSet α) : Prop where
  reachable : Reachable (.frozen s)
  short : s.size < 2 ^ 64
  fits : ∀ v ∈ s.toList, LawfulBinary.Fits v

/-- A map that a program can come by, with lengths that fit in a word. -/
structure TrieMap.Saveable {κ β : Type} [BEq κ] [StableHash κ] [Binary κ] [LawfulBinary κ] [Binary β] [LawfulBinary β]
    [Inhabited β] (m : TrieMap κ β) : Prop where
  reachable : Reachable (.frozen m)
  short : m.size < 2 ^ 64
  fits : ∀ v ∈ m.toList, LawfulBinary.Fits v

/-- A set or a map over the same stored values. -/
inductive Container (κ β : Type) where
  | set (s : TrieSet (κ × β))
  | map (m : TrieMap κ β)

section Sets

variable {α : Type} [Binary α]

theorem TrieSet.save_eq (s : TrieSet α) (a : Archive α) : s.save a = a.save .blake3 s.tagged.1 s.tagged.2 := rfl

variable [BEq α] [EquivBEq α] [StableHash α] [LawfulStableHash α] [LawfulBinary α] {P : Bytes → Prop} {s : TrieSet α}

theorem TrieSet.Saveable.canonical (saveable : s.Saveable) : s.trie.Canonical layout := saveable.reachable.canonical

theorem TrieSet.Saveable.storable (saveable : s.Saveable) (hashed : ∀ x ∈ s.tagged.2.hashed .blake3 s.tagged.1, P x) :
    s.tagged.2.Storable .blake3 P LawfulBinary.Fits s.tagged.1 :=
  saveable.canonical.storable layout_lawful saveable.short saveable.fits hashed

/-- The set of some values can be saved if they fit. -/
theorem TrieSet.saveable_ofList {l : List α} (short : l.length < 2 ^ 64) (fits : ∀ v ∈ l, LawfulBinary.Fits v) :
    (TrieSet.ofList l).Saveable := by
  obtain ⟨part, few⟩ := (ofList_represents l).collected layout_lawful fun _ _ _ _ => FiniteMap.eq_of_keep
  exact ⟨.edit .empty (.ofList l), Nat.lt_of_le_of_lt few short, fun v member => fits v (part v member)⟩

variable {saved : List (TrieSet α × Id)} (saveable : ∀ c ∈ saved, c.1.Saveable)

include saveable

theorem TrieSet.storable_of_saved (e : Kind × Trie α) (member : e ∈ saved.map (·.1.tagged)) :
    e.2.Storable .blake3 (fun x => ∃ c ∈ saved, x ∈ c.1.trie.hashed .blake3 .set) LawfulBinary.Fits e.1 := by
  obtain ⟨c, here, rfl⟩ := List.mem_map.mp member
  exact (saveable c here).storable fun x inside => ⟨c, here, inside⟩

theorem TrieSet.canonical_of_saved {e : Kind × Trie α} (member : e ∈ saved.map (·.1.tagged)) :
    e.2.Canonical TrieSet.layout := by
  obtain ⟨c, here, rfl⟩ := List.mem_map.mp member
  exact (saveable c here).canonical

end Sets

section Maps

variable {κ β : Type} [BEq κ] [EquivBEq κ] [StableHash κ] [LawfulStableHash κ] [Binary κ] [LawfulBinary κ] [Binary β]
  [LawfulBinary β] [Inhabited β] {P : Bytes → Prop} {m : TrieMap κ β}

theorem TrieMap.Saveable.canonical (saveable : m.Saveable) : m.trie.Canonical layout := saveable.reachable.canonical

theorem TrieMap.Saveable.storable (saveable : m.Saveable) (hashed : ∀ x ∈ m.tagged.2.hashed .blake3 m.tagged.1, P x) :
    m.tagged.2.Storable .blake3 P LawfulBinary.Fits m.tagged.1 :=
  saveable.canonical.storable layout_lawful saveable.short saveable.fits hashed

/-- The map of some pairs can be saved if they fit. -/
theorem TrieMap.saveable_ofList {l : List (κ × β)} (short : l.length < 2 ^ 64) (fits : ∀ v ∈ l, LawfulBinary.Fits v) :
    (TrieMap.ofList l).Saveable := by
  obtain ⟨part, few⟩ := (ofList_represents l).collected layout_lawful fun _ _ _ _ => FiniteMap.eq_of_put
  exact ⟨.edit .empty (.ofList l), Nat.lt_of_le_of_lt few short, fun v member => fits v (part v member)⟩

end Maps

namespace Container

variable {κ β : Type}

/-- A container's trie and the kind that it is saved as. -/
def tagged : Container κ β → Kind × Trie (κ × β)
  | set s => s.tagged
  | map m => m.tagged

section Saving

variable [Binary κ] [Binary β]

def save : Container κ β → Archive (κ × β) → Archive (κ × β) × Id
  | set s => s.save
  | map m => m.save

theorem save_eq (c : Container κ β) (a : Archive (κ × β)) : c.save a = a.save .blake3 c.tagged.1 c.tagged.2 := by
  cases c <;> rfl

end Saving

variable [BEq κ] [StableHash κ] [Binary κ] [LawfulBinary κ] [BEq β] [Binary β] [LawfulBinary β] [Inhabited β]
  [StableHash (κ × β)]

def Saveable : Container κ β → Prop
  | set s => s.Saveable
  | map m => m.Saveable

variable [EquivBEq κ] [LawfulStableHash κ] [EquivBEq β] [LawfulStableHash (κ × β)] {P : Bytes → Prop}

theorem Saveable.storable {c : Container κ β} (saveable : c.Saveable)
    (hashed : ∀ x ∈ c.tagged.2.hashed .blake3 c.tagged.1, P x) :
    c.tagged.2.Storable .blake3 P LawfulBinary.Fits c.tagged.1 := by
  cases c with
  | set s => exact TrieSet.Saveable.storable saveable hashed
  | map m => exact TrieMap.Saveable.storable saveable hashed

/-- The byte strings that are digested when containers are saved. -/
def Hashed (saved : List (Container κ β × Id)) (x : Bytes) : Prop :=
  ∃ c ∈ saved, x ∈ c.1.tagged.2.hashed .blake3 c.1.tagged.1

variable {saved : List (Container κ β × Id)} {t : Trie (κ × β)} (saveable : ∀ c ∈ saved, c.1.Saveable)

include saveable

theorem storable_of_saved (e : Kind × Trie (κ × β)) (member : e ∈ saved.map (·.1.tagged)) :
    e.2.Storable .blake3 (Hashed saved) LawfulBinary.Fits e.1 := by
  obtain ⟨c, here, rfl⟩ := List.mem_map.mp member
  exact (saveable c here).storable fun x inside => ⟨c, here, inside⟩

omit [LawfulStableHash κ] in
theorem canonical_of_saved_set (member : (Kind.set, t) ∈ saved.map (·.1.tagged)) : t.Canonical TrieSet.layout := by
  obtain ⟨⟨s | m, id⟩, here, same⟩ := List.mem_map.mp member
  · cases same
    exact TrieSet.Saveable.canonical (saveable _ here)
  · cases same

omit [EquivBEq β] [LawfulStableHash (κ × β)] in
theorem canonical_of_saved_map (member : (Kind.map, t) ∈ saved.map (·.1.tagged)) :
    t.Canonical (TrieMap.layout (κ := κ)) := by
  obtain ⟨⟨s | m, id⟩, here, same⟩ := List.mem_map.mp member
  · cases same
  · cases same
    exact TrieMap.Saveable.canonical (saveable _ here)

end Container

end TrieArchive
