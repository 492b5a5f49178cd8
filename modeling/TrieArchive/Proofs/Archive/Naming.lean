import TrieArchive.Proofs.Archive.Dedup

/-! What the bytes that name content tell of it. The bytes of a branch tell its bitmaps, its values and its children
whether or not they go together, those of a collision tell the digests of its values up to their order, and those of a
root all that is in it. Bytes of one sort are never bytes of another. -/
namespace TrieArchive

namespace Description

variable {α : Type} {A : Addressing α}

/-- Values count by their encodings. -/
theorem preimage_branch_of_encodings {datamap nodemap : UInt32} {values values' : List α} {ids : List Id}
    (same : values.map A.encode = values'.map A.encode) :
    (branch datamap nodemap values ids).preimage A = (branch datamap nodemap values' ids).preimage A := by
  have length : values.length = values'.length := by
    have lengths := congrArg List.length same
    rwa [List.length_map, List.length_map] at lengths
  have payload : values.flatMap A.encode = values'.flatMap A.encode := by
    rw [List.flatMap_def, List.flatMap_def, same]
  rw [preimage, preimage, length, payload]

theorem preimage_branch_eq_iff {P : α → Prop} (delimits : Delimits A.encode P)
    {datamap nodemap datamap' nodemap' : UInt32} {values values' : List α} {ids ids' : List Id}
    (short : values.length < 2 ^ 64) (short' : values'.length < 2 ^ 64) (fits : ∀ v ∈ values, P v)
    (fits' : ∀ v ∈ values', P v) :
    (branch datamap nodemap values ids).preimage A = (branch datamap' nodemap' values' ids').preimage A ↔
      datamap = datamap' ∧ nodemap = nodemap' ∧ values.map A.encode = values'.map A.encode ∧ ids = ids' := by
  constructor
  · intro same
    obtain ⟨data, node, values, ids⟩ := preimage_branch_inj delimits short short' fits fits' same
    exact ⟨data, node, congrArg (·.map A.encode) values, ids⟩
  · rintro ⟨rfl, rfl, values, rfl⟩
    exact preimage_branch_of_encodings values

/-- Sorting the digests forgets their order and nothing else. -/
theorem preimage_collision_eq_iff {values values' : List α} :
    (collision values).preimage A = (collision values').preimage A ↔
      (values.map fun v => A.digest (A.encode v)).Perm (values'.map fun v => A.digest (A.encode v)) := by
  refine ⟨preimage_collision_inj, fun same => ?_⟩
  rw [preimage, preimage, Id.sort_eq_of_perm same]

/-- A description is told from a root by its first byte. -/
theorem preimage_ne_root (d : Description α) (r : Root) : d.preimage A ≠ r.preimage := by
  intro same
  have first := congrArg List.head? same
  cases d with
  | branch =>
    simp only [preimage, Root.preimage, List.append_assoc] at first
    change some 0x62 = some 0x72 at first
    exact absurd first (by decide)
  | collision =>
    simp only [preimage, Root.preimage, List.append_assoc] at first
    change some 0x63 = some 0x72 at first
    exact absurd first (by decide)

end Description

theorem Root.preimage_eq_iff {r r' : Root} :
    r.preimage = r'.preimage ↔ r.kind = r'.kind ∧ r.size = r'.size ∧ r.node = r'.node := by
  constructor
  · intro same
    obtain rfl := preimage_inj same
    exact ⟨rfl, rfl, rfl⟩
  · rintro ⟨kind, size, node⟩
    rw [preimage, preimage, kind, size, node]

open Description in
/-- Names tell contents, whatever digest is made of the bytes: branches with the same bytes agree in their bitmaps, the
encodings of their values and their children, collisions in the digests of their values up to order, roots in kind, size
and node, and the three are never taken for one another. -/
theorem names_tell_contents {α : Type} [Binary α] [LawfulBinary α] (digest : Bytes → Id) :
    (∀ (datamap nodemap datamap' nodemap' : UInt32) (values values' : List α) (ids ids' : List Id),
      LawfulBinary.Fits values → LawfulBinary.Fits values' →
      ((branch datamap nodemap values ids).preimage ⟨Binary.encode, digest⟩ =
          (branch datamap' nodemap' values' ids').preimage ⟨Binary.encode, digest⟩ ↔
        datamap = datamap' ∧ nodemap = nodemap' ∧ values.map Binary.encode = values'.map Binary.encode ∧
          ids = ids')) ∧
    (∀ values values' : List α,
      (collision values).preimage ⟨Binary.encode, digest⟩ = (collision values').preimage ⟨Binary.encode, digest⟩ ↔
        (values.map fun v => digest (Binary.encode v)).Perm (values'.map fun v => digest (Binary.encode v))) ∧
    (∀ r r' : Root, r.preimage = r'.preimage ↔ r.kind = r'.kind ∧ r.size = r'.size ∧ r.node = r'.node) ∧
    (∀ (datamap nodemap : UInt32) (values values' : List α) (ids : List Id),
      (branch datamap nodemap values ids).preimage ⟨Binary.encode, digest⟩ ≠
        (collision values').preimage ⟨Binary.encode, digest⟩) ∧
    (∀ (d : Description α) (r : Root), d.preimage ⟨Binary.encode, digest⟩ ≠ r.preimage) := by
  refine ⟨?_, fun _ _ => preimage_collision_eq_iff, fun _ _ => Root.preimage_eq_iff,
    fun _ _ _ _ _ => preimage_branch_ne_collision, preimage_ne_root⟩
  intro datamap nodemap datamap' nodemap' values values' ids ids' fits fits'
  exact preimage_branch_eq_iff (A := ⟨Binary.encode, digest⟩) LawfulBinary.delimits fits.1 fits'.1 fits.2 fits'.2

/-- Branches whose values and children do not go with their bitmaps. What one has as a value is not taken for what the
other has as a child, although both have the same bitmaps. -/
theorem names_tell_contents_unsound_branches :
    let one : List (List UInt8 × Option Char) := [([0, 0], some 'é'), ([], none)]
    let other : List (List UInt8 × Option Char) := [([0, 0], some 'é')]
    LawfulBinary.Fits one ∧ LawfulBinary.Fits other ∧
      (Description.branch 4 1 one []).preimage .blake3 ≠
        (Description.branch 4 1 other [Id.blake3 []]).preimage .blake3 := by
  intro one other
  have short : ∀ v ∈ one, LawfulBinary.Fits v :=
    List.forall_mem_cons.mpr ⟨⟨⟨by decide, fun _ _ => trivial⟩, fun _ _ => trivial⟩,
      List.forall_mem_singleton.mpr ⟨⟨by decide, fun _ _ => trivial⟩, nofun⟩⟩
  have fits : LawfulBinary.Fits one := ⟨by decide, short⟩
  have fits' : LawfulBinary.Fits other := ⟨by decide, List.forall_mem_singleton.mpr (short _ List.mem_cons_self)⟩
  obtain ⟨branches, -⟩ := names_tell_contents (α := List UInt8 × Option Char) Id.blake3
  refine ⟨fits, fits', fun same => ?_⟩
  obtain ⟨-, -, values, -⟩ := (branches 4 1 4 1 one other [] [Id.blake3 []] fits fits').mp same
  exact absurd (congrArg List.length values) (by decide)

end TrieArchive
