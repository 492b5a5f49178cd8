import Mathlib.Data.List.Sort
import TrieArchive.Archive.Description
import TrieArchive.Proofs.Element.RoundTrip

/-! The bytes that name descriptions and roots tell all that is in them, up to the order inside collisions. -/
namespace TrieArchive

namespace Id

/-- Ids are sorted by insertion. -/
theorem sort_eq_insertionSort (ids : List Id) : sort ids = ids.insertionSort fun a b => (compare a b).isLE := by
  have insert (id : Id) (l : List Id) : insertSorted id l = l.orderedInsert (fun a b => (compare a b).isLE) id := by
    induction l with
    | nil => rfl
    | cons other rest ih => rw [insertSorted, List.orderedInsert_cons, ih]
  exact congrArg (List.foldr · [] ids) (funext₂ insert)

theorem sort_perm (ids : List Id) : (sort ids).Perm ids := sort_eq_insertionSort ids ▸ List.perm_insertionSort _ ids

@[simp] theorem length_sort (ids : List Id) : (sort ids).length = ids.length := (sort_perm ids).length_eq

/-- Sorting forgets the order. -/
theorem sort_eq_of_perm {ids ids' : List Id} (same : ids.Perm ids') : sort ids = sort ids' := by
  have total : Std.Total fun a b : Id => (compare a b).isLE = true := ⟨fun a b => by
    rw [← Std.OrientedCmp.isGE_iff_isLE (a := a) (b := b)]
    cases compare a b <;> decide⟩
  have trans : IsTrans Id fun a b => (compare a b).isLE = true := ⟨fun _ _ _ => Std.TransCmp.isLE_trans⟩
  have sorted (ids : List Id) : (sort ids).Pairwise fun a b => (compare a b).isLE := by
    rw [sort_eq_insertionSort]
    exact List.pairwise_insertionSort _ ids
  refine List.Perm.eq_of_pairwise (fun a b _ _ le ge => ?_) (sorted ids) (sorted ids')
    ((sort_perm ids).trans (same.trans (sort_perm ids').symm))
  exact Std.LawfulEqOrd.compare_eq_iff_eq.mp (Std.OrientedCmp.isLE_antisymm le ge)

end Id

/-- Encodings of some values that show where they end. -/
def Delimits {α : Type} (encode : α → Bytes) (P : α → Prop) : Prop :=
  ∀ a b rest rest', P a → P b → encode a ++ rest = encode b ++ rest' → a = b ∧ rest = rest'

/-- What is read back shows where it ends. -/
theorem LawfulBinary.delimits {α : Type} [Binary α] [LawfulBinary α] :
    Delimits (Binary.encode : α → Bytes) LawfulBinary.Fits := by
  intro a b rest rest' fits fits' same
  have first := LawfulBinary.run_decode a fits rest
  rw [same, LawfulBinary.run_decode b fits' rest'] at first
  cases first
  exact ⟨rfl, rfl⟩

theorem Id.delimits : Delimits Id.bytes fun _ => True := by
  intro a b rest rest' _ _ same
  obtain ⟨bytes, rest⟩ := List.append_inj same (a.length_bytes.trans b.length_bytes.symm)
  exact ⟨Id.ext bytes, rest⟩

/-- Equally many encodings in a row show where each of them ends. -/
theorem Delimits.flatMap {α : Type} {encode : α → Bytes} {P : α → Prop} (delimits : Delimits encode P)
    {values values' : List α} (length : values.length = values'.length) (fits : ∀ v ∈ values, P v)
    (fits' : ∀ v ∈ values', P v) {rest rest' : Bytes}
    (same : values.flatMap encode ++ rest = values'.flatMap encode ++ rest') :
    values = values' ∧ rest = rest' := by
  induction values generalizing values' with
  | nil =>
    obtain rfl : values' = [] := List.eq_nil_of_length_eq_zero length.symm
    exact ⟨rfl, same⟩
  | cons v later ih =>
    rcases values' with _ | ⟨w, later'⟩
    · contradiction
    · rw [List.flatMap_cons, List.flatMap_cons, List.append_assoc, List.append_assoc] at same
      obtain ⟨rfl, others⟩ := delimits v w _ _ (fits v List.mem_cons_self) (fits' w List.mem_cons_self) same
      obtain ⟨rfl, ends⟩ := ih (Nat.succ.inj length) (fun x member => fits x (List.mem_cons_of_mem v member))
        (fun x member => fits' x (List.mem_cons_of_mem v member)) others
      exact ⟨rfl, ends⟩

theorem Bytes.word_inj {width a b : Nat} (ha : a < 256 ^ width) (hb : b < 256 ^ width) {rest rest' : Bytes}
    (same : word width a ++ rest = word width b ++ rest') : a = b ∧ rest = rest' := by
  obtain ⟨words, rest⟩ := List.append_inj same (by simp)
  have values := congrArg value words
  rw [value_word, value_word, Nat.mod_eq_of_lt ha, Nat.mod_eq_of_lt hb] at values
  exact ⟨values, rest⟩

theorem Id.length_flatMap_bytes (ids : List Id) : (ids.flatMap Id.bytes).length = 32 * ids.length := by
  induction ids with
  | nil => rfl
  | cons id rest ih =>
    rw [List.flatMap_cons, List.length_append, ih, id.length_bytes, List.length_cons]
    omega

/-- Ids in a row can be cut apart. -/
theorem Id.flatMap_bytes_inj {ids ids' : List Id} (same : ids.flatMap Id.bytes = ids'.flatMap Id.bytes) :
    ids = ids' := by
  have length := congrArg List.length same
  rw [Id.length_flatMap_bytes, Id.length_flatMap_bytes] at length
  have closed : ids.flatMap Id.bytes ++ [] = ids'.flatMap Id.bytes ++ [] := by rw [same]
  exact (Id.delimits.flatMap (by omega) (fun _ _ => trivial) (fun _ _ => trivial) closed).1

namespace Description

variable {α : Type} {A : Addressing α} {P : α → Prop}

/-- The bytes that name a branch tell its bitmaps, its values and its children. -/
theorem preimage_branch_inj (delimits : Delimits A.encode P) {datamap nodemap datamap' nodemap' : UInt32}
    {values values' : List α} {ids ids' : List Id}
    (short : values.length < 2 ^ 64) (short' : values'.length < 2 ^ 64)
    (fits : ∀ v ∈ values, P v) (fits' : ∀ v ∈ values', P v)
    (same : (branch datamap nodemap values ids).preimage A = (branch datamap' nodemap' values' ids').preimage A) :
    datamap = datamap' ∧ nodemap = nodemap' ∧ values = values' ∧ ids = ids' := by
  simp only [preimage, List.append_assoc, List.append_cancel_left_eq] at same
  obtain ⟨data, same⟩ := Bytes.word_inj datamap.toNat_lt datamap'.toNat_lt same
  obtain ⟨node, same⟩ := Bytes.word_inj nodemap.toNat_lt nodemap'.toNat_lt same
  obtain ⟨length, same⟩ := Bytes.word_inj short short' same
  obtain ⟨values, same⟩ := delimits.flatMap length fits fits' same
  exact ⟨UInt32.toNat_inj.mp data, UInt32.toNat_inj.mp node, values, Id.flatMap_bytes_inj same⟩

/-- The bytes that name a collision tell the digests of its values. -/
theorem preimage_collision_inj {values values' : List α}
    (same : (collision values).preimage A = (collision values').preimage A) :
    (values.map fun v => A.digest (A.encode v)).Perm (values'.map fun v => A.digest (A.encode v)) := by
  simp only [preimage, List.append_assoc, List.append_cancel_left_eq] at same
  obtain ⟨-, same⟩ := List.append_inj same (by simp)
  have sorted := Id.flatMap_bytes_inj same
  exact (Id.sort_perm _).symm.trans (sorted ▸ Id.sort_perm _)

end Description

/-- The bytes that name a root tell what is in it. -/
theorem Root.preimage_inj {r r' : Root} (same : r.preimage = r'.preimage) : r = r' := by
  simp only [preimage, List.append_assoc, List.append_cancel_left_eq] at same
  obtain ⟨kind, same⟩ := List.append_inj same rfl
  obtain ⟨size, node⟩ := Bytes.word_inj r.size.toNat_lt r'.size.toNat_lt same
  have kinds : r.kind = r'.kind := by cases first : r.kind <;> cases second : r'.kind <;> simp_all [Kind.byte]
  cases r
  cases r'
  cases kinds
  cases Id.ext node
  cases UInt64.toNat_inj.mp size
  rfl

end TrieArchive
