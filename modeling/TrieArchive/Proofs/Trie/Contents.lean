import Mathlib.Data.List.Perm.Basic
import Mathlib.Data.List.Nodup
import Mathlib.Data.List.Pairwise
import TrieArchive.Trie.Node

/-! Finite maps from keys to stored values, as lists in which no key occurs twice. Keys count as the
same when `==` says so. -/
namespace TrieArchive.Layout

variable {α κ : Type} [BEq κ] (L : Layout α κ)

/-- Equal keys have equal hashes. -/
def Lawful : Prop := ∀ a b : κ, a == b → L.hash a = L.hash b

/-- No key occurs twice. -/
def Distinct (values : List α) : Prop := values.Pairwise fun v w => (L.key v == L.key w) = false

/-- The value stored under a key. -/
def lookup (key : κ) (values : List α) : Option α := values.find? (L.key · == key)

/-- Whether a key is present. -/
def present (key : κ) (values : List α) : Bool := values.any (L.key · == key)

/-- The values with other keys. -/
def drop (key : κ) (values : List α) : List α := values.filter fun v => !(L.key v == key)

/-- Stores a value, in place of one with an equal key. -/
def put (v : α) (values : List α) : List α := v :: L.drop (L.key v) values

variable {L} {values : List α} {key : κ} {v : α}

theorem mem_drop : v ∈ L.drop key values ↔ v ∈ values ∧ (L.key v == key) = false := by simp [drop]

theorem mem_put {w : α} : w ∈ L.put v values ↔ w = v ∨ w ∈ values ∧ (L.key w == L.key v) = false := by
  rw [put, List.mem_cons, mem_drop]

theorem present_eq_false_iff : L.present key values = false ↔ ∀ v ∈ values, (L.key v == key) = false := by
  simp [present]

theorem present_iff : L.present key values ↔ ∃ v ∈ values, L.key v == key := by simp [present]

theorem drop_of_absent (absent : ∀ v ∈ values, (L.key v == key) = false) : L.drop key values = values := by
  rw [drop, List.filter_eq_self]
  intro w member
  rw [absent w member]
  rfl

theorem Distinct.drop (distinct : L.Distinct values) (key : κ) : L.Distinct (L.drop key values) :=
  distinct.filter _

theorem lookup_isSome : (L.lookup key values).isSome = L.present key values := by
  rw [Bool.eq_iff_iff, lookup, List.find?_isSome, present_iff]

section Equivalence

variable [EquivBEq κ]

theorem key_beq_false_symm {a b : κ} (h : (a == b) = false) : (b == a) = false := by
  rwa [BEq.comm]

instance : Std.Symm fun v w : α => (L.key v == L.key w) = false := ⟨fun _ _ => key_beq_false_symm⟩

theorem Distinct.nodup (distinct : L.Distinct values) : values.Nodup := by
  refine distinct.imp ?_
  rintro v w apart rfl
  simp at apart

theorem Distinct.perm {others : List α} (distinct : L.Distinct values) (same : values.Perm others) :
    L.Distinct others :=
  (same.pairwise_iff key_beq_false_symm).mp distinct

theorem Distinct.put (distinct : L.Distinct values) (v : α) : L.Distinct (L.put v values) := by
  refine List.pairwise_cons.mpr ⟨fun w member => ?_, distinct.drop _⟩
  exact key_beq_false_symm (mem_drop.mp member).2

/-- Of the values with a key there is one. -/
theorem Distinct.eq_of_key (distinct : L.Distinct values) {w : α} (hv : v ∈ values) (hw : w ∈ values)
    (same : L.key v == L.key w) : v = w := by
  by_contra apart
  have other := List.Pairwise.forall distinct hv hw apart
  simp [same] at other

/-- Lists of distinct keys with the same members hold the same values. -/
theorem Distinct.perm_of_mem {others : List α} (distinct : L.Distinct values) (distinct' : L.Distinct others)
    (same : ∀ v, v ∈ values ↔ v ∈ others) : values.Perm others :=
  (List.perm_ext_iff_of_nodup distinct.nodup distinct'.nodup).mpr same

/-- Putting the value of a key back undoes dropping the key. -/
theorem Distinct.perm_cons_drop (distinct : L.Distinct values) (member : v ∈ values) (matched : L.key v == key) :
    values.Perm (v :: L.drop key values) := by
  have distinct' : L.Distinct (v :: L.drop key values) := by
    refine List.pairwise_cons.mpr ⟨fun w member => ?_, distinct.drop _⟩
    have other := (mem_drop.mp member).2
    rwa [← BEq.congr_right matched, BEq.comm] at other
  refine distinct.perm_of_mem distinct' fun w => ?_
  rw [List.mem_cons, mem_drop]
  constructor
  · intro here
    by_cases same : L.key w == key
    · exact .inl (distinct.eq_of_key here member (PartialEquivBEq.trans same (PartialEquivBEq.symm matched)))
    · exact .inr ⟨here, by simpa using same⟩
  · rintro (rfl | ⟨here, -⟩)
    · exact member
    · exact here

/-- Taking out the value of a key drops the key. -/
theorem Distinct.eraseIdx_perm (distinct : L.Distinct values) {i : Nat} (found : values[i]? = some v)
    (matched : L.key v == key) : (values.eraseIdx i).Perm (L.drop key values) := by
  obtain ⟨bound, rfl⟩ := List.getElem?_eq_some_iff.mp found
  have split := (List.getElem_cons_eraseIdx_perm bound).trans
    (distinct.perm_cons_drop (List.getElem_mem bound) matched)
  exact split.cons_inv

/-- Overwriting the value of a key stores the new value. -/
theorem Distinct.set_perm (distinct : L.Distinct values) {i : Nat} {w : α} (found : values[i]? = some v)
    (matched : L.key v == L.key w) : (values.set i w).Perm (L.put w values) := by
  obtain ⟨bound, -⟩ := List.getElem?_eq_some_iff.mp found
  exact (List.set_perm_cons_eraseIdx bound w).trans ((distinct.eraseIdx_perm found matched).cons w)

theorem Distinct.length_drop (distinct : L.Distinct values) (found : L.present key values) :
    (L.drop key values).length + 1 = values.length := by
  obtain ⟨v, member, matched⟩ := present_iff.mp found
  have same := (distinct.perm_cons_drop member matched).length_eq
  rw [List.length_cons] at same
  exact same.symm

theorem Distinct.length_put (distinct : L.Distinct values) (v : α) :
    (L.put v values).length = if L.present (L.key v) values then values.length else values.length + 1 := by
  rw [Layout.put, List.length_cons]
  split
  next found => exact distinct.length_drop found
  next absent => rw [drop_of_absent (present_eq_false_iff.mp (by simpa using absent))]

theorem Distinct.lookup_eq_some_iff (distinct : L.Distinct values) :
    L.lookup key values = some v ↔ v ∈ values ∧ L.key v == key := by
  constructor
  · intro found
    exact ⟨List.mem_of_find?_eq_some found, List.find?_some (p := (L.key · == key)) found⟩
  · rintro ⟨member, matched⟩
    have found : (L.lookup key values).isSome := by
      rw [lookup, List.find?_isSome]
      exact ⟨v, member, matched⟩
    obtain ⟨w, first⟩ := Option.isSome_iff_exists.mp found
    have same : L.key w == key := List.find?_some (p := (L.key · == key)) first
    rw [first, distinct.eq_of_key (List.mem_of_find?_eq_some first) member
      (PartialEquivBEq.trans same (PartialEquivBEq.symm matched))]

theorem Distinct.lookup_perm {others : List α} (distinct : L.Distinct values) (same : values.Perm others) :
    L.lookup key values = L.lookup key others := by
  refine Option.ext fun v => ?_
  rw [distinct.lookup_eq_some_iff, (distinct.perm same).lookup_eq_some_iff, same.mem_iff]

/-- After storing a value its key leads to it, and other keys to what they led to before. -/
theorem lookup_put : L.lookup key (L.put v values) =
    if L.key v == key then some v else L.lookup key values := by
  rw [lookup, put, List.find?_cons]
  split
  next h => simp [h]
  next h =>
    rw [h, if_neg (by decide), Layout.drop, List.find?_filter]
    congr 1
    funext w
    by_cases same : L.key w == key
    · rw [BEq.congr_left same, BEq.comm, h, same]
      rfl
    · simp [same]

/-- After dropping a key it leads to nothing, and other keys to what they led to before. -/
theorem lookup_drop {other : κ} : L.lookup other (L.drop key values) =
    if key == other then none else L.lookup other values := by
  rw [lookup, Layout.drop, List.find?_filter]
  split
  next h =>
    rw [List.find?_eq_none]
    intro w _
    rw [BEq.congr_right h]
    simp
  next h =>
    rw [lookup]
    congr 1
    funext w
    by_cases same : L.key w == other
    · have apart : (L.key w == key) = false := by
        rw [BEq.congr_left same, BEq.comm]
        simpa using h
      simp [same, apart]
    · simp [same]

end Equivalence

end TrieArchive.Layout
