import Mathlib.Data.List.Forall2
import Mathlib.Tactic.Common
import TrieArchive.Trie.Bitmap

/-! Lists that keep one entry for each slot of a bitmap, in slot order. An entry is found through its
slot, so edits of the bitmap and the list are described slot by slot, without positions. -/
namespace TrieArchive.Bitmap

variable {β : Type}

/-- The entry kept for a slot. -/
def kept? (m : UInt32) (entries : List β) (slot : Nat) : Option β :=
  if has m slot then entries[rank m slot]? else none

theorem slot_lt {m : UInt32} {slot : Nat} (used : has m slot) : slot < 32 := by
  by_contra high
  have bound : m.toNat < 2 ^ slot := Nat.lt_of_lt_of_le m.toNat_lt
    (Nat.pow_le_pow_right (by decide) (Nat.le_of_not_lt high))
  rw [has, Nat.testBit_lt_two_pow bound] at used
  contradiction

/-- Words with the same slots are the same. -/
theorem ext_has {a b : UInt32} (same : ∀ slot, has a slot = has b slot) : a = b :=
  UInt32.toNat_inj.mp (Nat.eq_of_testBit_eq same)

@[simp] theorem has_zero (slot : Nat) : has 0 slot = false := by simp [has]

theorem has_mask {slot : Nat} (h : slot < 32) (other : Nat) : has (mask slot) other = decide (other = slot) := by
  rw [has, toNat_mask h, Nat.testBit_two_pow]
  simp [eq_comm]

theorem has_insert {slot : Nat} (h : slot < 32) (m : UInt32) (other : Nat) :
    has (insert m slot) other = (has m other || decide (other = slot)) := by
  rw [← has_mask h]
  simp [has, insert]

theorem has_erase {slot : Nat} (h : slot < 32) (m : UInt32) (other : Nat) :
    has (erase m slot) other = (has m other && !decide (other = slot)) := by
  by_cases used : has m other
  · have bound := slot_lt used
    have off : (~~~mask slot).toNat.testBit other = !(has (mask slot) other) := by
      have size : UInt32.size - 1 - (mask slot).toNat = 2 ^ 32 - ((mask slot).toNat + 1) := by
        rw [UInt32.size]; omega
      rw [UInt32.toNat_not, size, Nat.testBit_two_pow_sub_succ (mask slot).toNat_lt]
      simp [has, bound]
    rw [erase, has_and, used, has, off, has_mask h]
  · simp [erase, has_and, used]

theorem disjoint_iff {a b : UInt32} : a &&& b = 0 ↔ ∀ slot, has a slot → has b slot = false := by
  constructor
  · intro disjoint slot used
    have both := has_and a b slot
    simpa [disjoint, used] using both.symm
  · intro apart
    apply ext_has
    intro slot
    rw [has_and, has_zero]
    cases used : has a slot with
    | false => rfl
    | true => simp [apart slot used]

theorem rank_succ (m : UInt32) (slot : Nat) :
    rank m (slot + 1) = rank m slot + if has m slot then 1 else 0 := by
  simp [rank, List.range_succ, List.countP_append, List.countP_cons]

theorem count_eq_rank (m : UInt32) : count m = rank m 32 := rfl

theorem rank_mono (m : UInt32) {a b : Nat} (h : a ≤ b) : rank m a ≤ rank m b := by
  induction h with
  | refl => exact Nat.le_refl _
  | step _ ih => rw [rank_succ]; omega

theorem rank_lt_rank {m : UInt32} {a b : Nat} (used : has m a) (h : a < b) : rank m a < rank m b := by
  have next := rank_mono m (Nat.succ_le_of_lt h)
  rw [rank_succ, if_pos used] at next
  omega

theorem rank_lt_count {m : UInt32} {slot : Nat} (used : has m slot) : rank m slot < count m :=
  rank_lt_rank used (slot_lt used)

theorem rank_le_count {slot : Nat} (m : UInt32) (h : slot ≤ 32) : rank m slot ≤ count m := rank_mono m h

theorem count_le (m : UInt32) : count m ≤ 32 := by
  have bound := List.countP_le_length (p := has m) (l := List.range 32)
  rwa [List.length_range] at bound

theorem rank_injective {m : UInt32} {a b : Nat} (ha : has m a) (hb : has m b)
    (same : rank m a = rank m b) : a = b := by
  rcases Nat.lt_trichotomy a b with lt | eq | gt
  · have := rank_lt_rank ha lt; omega
  · exact eq
  · have := rank_lt_rank hb gt; omega

/-- Each position below the count belongs to a slot in use. -/
theorem exists_slot {m : UInt32} {i bound : Nat} (h : i < rank m bound) :
    ∃ slot, has m slot ∧ rank m slot = i := by
  induction bound with
  | zero => simp [rank] at h
  | succ bound ih =>
    rw [rank_succ] at h
    by_cases below : i < rank m bound
    · exact ih below
    · by_cases used : has m bound
      · exact ⟨bound, used, by simp only [used, if_true] at h; omega⟩
      · simp only [used] at h; simp at h; omega

theorem rank_insert {slot : Nat} (h : slot < 32) {m : UInt32} (free : has m slot = false) (other : Nat) :
    rank (insert m slot) other = rank m other + if slot < other then 1 else 0 := by
  induction other with
  | zero => simp [rank]
  | succ other ih =>
    rw [rank_succ, rank_succ, ih, has_insert h]
    rcases Nat.lt_trichotomy slot other with lt | rfl | gt
    · simp [lt, Nat.lt_succ_of_lt lt, Nat.ne_of_gt lt]; omega
    · simp [free]
    · have : ¬ slot < other := by omega
      have : ¬ slot < other + 1 := by omega
      have : other ≠ slot := by omega
      simp [*]

theorem rank_erase {slot : Nat} {m : UInt32} (used : has m slot) (other : Nat) :
    rank m other = rank (erase m slot) other + if slot < other then 1 else 0 := by
  have free : has (erase m slot) slot = false := by simp [has_erase (slot_lt used)]
  have restored : insert (erase m slot) slot = m := by
    apply ext_has
    intro i
    rw [has_insert (slot_lt used), has_erase (slot_lt used)]
    by_cases same : i = slot
    · subst same; simp [used]
    · simp [same]
  rw [← rank_insert (slot_lt used) free, restored]

theorem count_insert {slot : Nat} (h : slot < 32) {m : UInt32} (free : has m slot = false) :
    count (insert m slot) = count m + 1 := by
  rw [count_eq_rank, rank_insert h free, if_pos h, count_eq_rank]

theorem count_erase {slot : Nat} {m : UInt32} (used : has m slot) : count (erase m slot) = count m - 1 := by
  have := rank_erase used 32
  rw [if_pos (slot_lt used)] at this
  rw [count_eq_rank, count_eq_rank]
  omega

section Entries

variable {m : UInt32} {entries : List β} {slot : Nat}

theorem used_of_kept? {b : β} (found : kept? m entries slot = some b) : has m slot := by
  by_contra free
  simp [kept?, free] at found

theorem kept?_of_free (entries : List β) (free : has m slot = false) : kept? m entries slot = none := by
  simp [kept?, free]

theorem kept?_eq_getElem? (used : has m slot) : kept? m entries slot = entries[rank m slot]? := if_pos used

/-- What holds of the entries at each index of two lists holds of the entries in each slot. -/
theorem rel_of_kept {γ : Type} {others : List γ} {R : β → γ → Prop}
    (each : ∀ (i : Nat) b c, entries[i]? = some b → others[i]? = some c → R b c) {slot : Nat} {b : β} {c : γ}
    (kept : kept? m entries slot = some b) (kept' : kept? m others slot = some c) : R b c := by
  have used := used_of_kept? kept
  rw [kept?_eq_getElem? used] at kept kept'
  exact each _ b c kept kept'

theorem kept?_eraseIdx (used : has m slot) (other : Nat) :
    kept? (erase m slot) (entries.eraseIdx (rank m slot)) other =
      if other = slot then none else kept? m entries other := by
  have shifted := rank_erase used other
  rw [kept?, has_erase (slot_lt used), List.getElem?_eraseIdx]
  rcases Nat.lt_trichotomy other slot with lt | rfl | gt
  · by_cases there : has m other
    · have := rank_lt_rank there lt
      rw [if_neg (Nat.not_lt_of_gt lt)] at shifted
      have below : rank (erase m slot) other < rank m slot := by omega
      simp [there, Nat.ne_of_lt lt, below, kept?, shifted]
    · simp [there, Nat.ne_of_lt lt, kept?]
  · simp
  · have := rank_lt_rank used gt
    rw [if_pos gt] at shifted
    have above : ¬ rank (erase m slot) other < rank m slot := by omega
    by_cases there : has m other <;> simp [there, Nat.ne_of_gt gt, above, kept?, shifted]

variable (full : entries.length = count m)
include full

theorem exists_kept (used : has m slot) : ∃ b, kept? m entries slot = some b := by
  rw [kept?_eq_getElem? used]
  exact ⟨_, List.getElem?_eq_getElem (full ▸ rank_lt_count used)⟩

theorem isSome_kept? (slot : Nat) : (kept? m entries slot).isSome = has m slot := by
  cases used : has m slot with
  | false => rw [kept?_of_free entries used, Option.isSome_none]
  | true =>
    obtain ⟨b, found⟩ := exists_kept full used
    rw [found, Option.isSome_some]

/-- An entry's position is that of its slot. -/
theorem getElem?_eq_some_iff {i : Nat} {b : β} :
    entries[i]? = some b ↔ ∃ slot, rank m slot = i ∧ kept? m entries slot = some b := by
  constructor
  · intro found
    obtain ⟨bound, -⟩ := List.getElem?_eq_some_iff.mp found
    rw [full, count_eq_rank] at bound
    obtain ⟨slot, used, rfl⟩ := exists_slot bound
    exact ⟨slot, rfl, (kept?_eq_getElem? used).trans found⟩
  · rintro ⟨slot, rfl, found⟩
    rwa [kept?_eq_getElem? (used_of_kept? found)] at found

/-- Entries at one position of two lists over a bitmap are kept for one slot. -/
theorem exists_common_slot {γ : Type} {others : List γ} (full' : others.length = count m) {i : Nat} {b : β} {c : γ}
    (here : entries[i]? = some b) (there : others[i]? = some c) :
    ∃ slot, kept? m entries slot = some b ∧ kept? m others slot = some c := by
  obtain ⟨slot, rfl, found⟩ := (getElem?_eq_some_iff full).mp here
  obtain ⟨slot', rank, found'⟩ := (getElem?_eq_some_iff full').mp there
  obtain rfl := rank_injective (used_of_kept? found') (used_of_kept? found) rank
  exact ⟨slot', found, found'⟩

theorem mem_iff_kept? {b : β} : b ∈ entries ↔ ∃ slot, kept? m entries slot = some b := by
  rw [List.mem_iff_getElem?]
  constructor
  · rintro ⟨i, found⟩
    obtain ⟨slot, -, found⟩ := (getElem?_eq_some_iff full).mp found
    exact ⟨slot, found⟩
  · rintro ⟨slot, found⟩
    exact ⟨_, (getElem?_eq_some_iff full).mpr ⟨slot, rfl, found⟩⟩

theorem pairwise_of_kept {R : β → β → Prop}
    (ordered : ∀ a b x y, a < b → kept? m entries a = some x → kept? m entries b = some y → R x y) :
    entries.Pairwise R := by
  rw [List.pairwise_iff_getElem]
  intro i j hi hj before
  obtain ⟨a, ha, first⟩ := (getElem?_eq_some_iff full).mp (List.getElem?_eq_getElem hi)
  obtain ⟨b, hb, second⟩ := (getElem?_eq_some_iff full).mp (List.getElem?_eq_getElem hj)
  refine ordered a b _ _ ?_ first second
  by_contra other
  have := rank_mono m (show b ≤ a by omega)
  omega

/-- Bitmap and entries are known from what each slot keeps. -/
theorem ext_kept? {m' : UInt32} {entries' : List β} (full' : entries'.length = count m')
    (same : ∀ slot, kept? m entries slot = kept? m' entries' slot) : m = m' ∧ entries = entries' := by
  obtain rfl : m = m' := ext_has fun slot => by rw [← isSome_kept? full, ← isSome_kept? full', same]
  refine ⟨rfl, List.ext_getElem? fun i => Option.ext fun b => ?_⟩
  rw [getElem?_eq_some_iff full, getElem?_eq_some_iff full']
  simp only [same]

theorem kept?_set (used : has m slot) (b : β) (other : Nat) :
    kept? m (entries.set (rank m slot) b) other = if other = slot then some b else kept? m entries other := by
  by_cases there : has m other
  · rw [kept?_eq_getElem? there, List.getElem?_set]
    by_cases same : other = slot
    · subst same
      simp [full ▸ rank_lt_count used]
    · have apart : rank m slot ≠ rank m other := fun eq => same (rank_injective used there eq).symm
      rw [if_neg apart, if_neg same, kept?_eq_getElem? there]
  · have apart : other ≠ slot := by rintro rfl; exact there used
    simp [kept?, there, apart]

theorem kept?_insertIdx (h : slot < 32) (free : has m slot = false) (b : β) (other : Nat) :
    kept? (insert m slot) (entries.insertIdx (rank m slot) b) other =
      if other = slot then some b else kept? m entries other := by
  have fits : rank m slot ≤ entries.length := full ▸ rank_le_count m (Nat.le_of_lt h)
  rw [kept?, has_insert h, rank_insert h free, List.getElem?_insertIdx]
  rcases Nat.lt_trichotomy other slot with lt | rfl | gt
  · by_cases there : has m other
    · simp [there, Nat.not_lt_of_gt lt, Nat.ne_of_lt lt, rank_lt_rank there lt, kept?]
    · simp [there, Nat.ne_of_lt lt, kept?]
  · simp [fits]
  · have := rank_mono m (Nat.le_of_lt gt)
    have above : ¬ rank m other + 1 < rank m slot := by omega
    have apart : rank m other + 1 ≠ rank m slot := by omega
    by_cases there : has m other <;>
      simp [there, gt, Nat.ne_of_gt gt, above, apart, kept?]

end Entries

theorem length_insertIdx_rank {m : UInt32} {entries : List β} {slot : Nat} (b : β)
    (full : entries.length = count m) (h : slot < 32) (free : has m slot = false) :
    (entries.insertIdx (rank m slot) b).length = count (insert m slot) := by
  rw [count_insert h free, List.length_insertIdx, if_pos (full ▸ rank_le_count m (Nat.le_of_lt h)), full]

theorem length_eraseIdx_rank {m : UInt32} {entries : List β} {slot : Nat}
    (full : entries.length = count m) (used : has m slot) :
    (entries.eraseIdx (rank m slot)).length = count (erase m slot) := by
  rw [count_erase used, List.length_eraseIdx, if_pos (full ▸ rank_lt_count used), full]

/-- The slots in use, each at the position of its entry. -/
theorem getElem?_slots {m : UInt32} {slot : Nat} (used : has m slot) : (slots m)[rank m slot]? = some slot := by
  have bound := slot_lt used
  have split : List.range 32 = List.range slot ++ slot :: (List.range (31 - slot)).map (slot + 1 + ·) := by
    have := @List.range_add (slot + 1) (31 - slot)
    rw [List.range_succ] at this
    simpa [show slot + 1 + (31 - slot) = 32 by omega] using this
  rw [slots, split, List.filter_append, rank, List.countP_eq_length_filter]
  simp [used]

theorem insert_zero (slot : Nat) : insert 0 slot = mask slot := UInt32.zero_or

theorem rank_zero (slot : Nat) : rank 0 slot = 0 := by simp [rank, List.countP_eq_zero]

theorem rank_mask {slot : Nat} (h : slot < 32) (other : Nat) :
    rank (mask slot) other = if slot < other then 1 else 0 := by
  rw [← insert_zero, rank_insert h (has_zero slot), rank_zero, Nat.zero_add]

theorem count_mask {slot : Nat} (h : slot < 32) : count (mask slot) = 1 := by
  rw [count_eq_rank, rank_mask h, if_pos h]

theorem kept?_zero (entries : List β) (slot : Nat) : kept? 0 entries slot = none :=
  kept?_of_free entries (has_zero slot)

theorem kept?_mask {slot : Nat} (h : slot < 32) (b : β) (other : Nat) :
    kept? (mask slot) [b] other = if other = slot then some b else none := by
  have single := @kept?_insertIdx _ 0 [] slot rfl h (has_zero slot) b other
  rwa [insert_zero, rank_zero, kept?_zero] at single

/-- Two slots in use, with their entries in slot order. -/
theorem kept?_pair {a b : Nat} (ha : a < 32) (hb : b < 32) (apart : a ≠ b) (x y : β) (slot : Nat) :
    kept? (mask a ||| mask b) (if a < b then [x, y] else [y, x]) slot =
      if slot = b then some y else if slot = a then some x else none := by
  have free : has (mask a) b = false := by rw [has_mask ha]; simpa using Ne.symm apart
  have pair := @kept?_insertIdx _ (mask a) [x] b (count_mask ha).symm hb free y slot
  rw [rank_mask ha, kept?_mask ha] at pair
  rw [← pair]
  split <;> rfl

theorem count_pair {a b : Nat} (ha : a < 32) (hb : b < 32) (apart : a ≠ b) : count (mask a ||| mask b) = 2 := by
  have free : has (mask a) b = false := by rw [has_mask ha]; simpa using Ne.symm apart
  exact (count_insert hb free).trans (congrArg (· + 1) (count_mask ha))

theorem has_of_mem_slots {m : UInt32} {slot : Nat} (member : slot ∈ slots m) : has m slot :=
  (List.mem_filter.mp member).2

/-- Pairing slots and entries pairs each slot with its entry. -/
theorem mem_zip_slots {m : UInt32} {entries : List β} (full : entries.length = count m) {slot : Nat} {b : β} :
    (slot, b) ∈ (slots m).zip entries ↔ kept? m entries slot = some b := by
  rw [List.mem_iff_getElem?]
  constructor
  · rintro ⟨i, found⟩
    rw [List.getElem?_zip_eq_some] at found
    obtain ⟨here, there⟩ := found
    obtain ⟨other, rfl, found⟩ := (getElem?_eq_some_iff full).mp there
    rw [getElem?_slots (used_of_kept? found), Option.some.injEq] at here
    subst here
    exact found
  · intro found
    have used := used_of_kept? found
    refine ⟨rank m slot, ?_⟩
    rw [List.getElem?_zip_eq_some]
    exact ⟨getElem?_slots used, (kept?_eq_getElem? used).symm.trans found⟩

theorem map_snd_zip_slots {m : UInt32} {entries : List β} (full : entries.length = count m) :
    ((slots m).zip entries).map Prod.snd = entries :=
  List.map_snd_zip (Nat.le_of_eq (full.trans (length_slots m).symm))

/-- No slot is paired twice. -/
theorem pairwise_zip_slots {m : UInt32} {entries : List β} (full : entries.length = count m) :
    ((slots m).zip entries).Pairwise fun one other => one.1 ≠ other.1 := by
  have paired : ((slots m).zip entries).map Prod.fst = slots m :=
    List.map_fst_zip (Nat.le_of_eq ((length_slots m).trans full.symm))
  have once : (slots m).Nodup := List.nodup_range.filter _
  rw [← paired] at once
  exact List.pairwise_map.mp once

/-- Entries of the same slots are paired by slot. -/
theorem forall₂_zip_slots {γ : Type} {m : UInt32} {entries : List β} {others : List γ}
    (full : entries.length = count m) (full' : others.length = count m) {R : Nat × β → Nat × γ → Prop}
    (each : ∀ slot b c, kept? m entries slot = some b → kept? m others slot = some c → R (slot, b) (slot, c)) :
    List.Forall₂ R ((slots m).zip entries) ((slots m).zip others) := by
  refine List.forall₂_iff_get.mpr ⟨by simp [full, full'], fun i h h' => ?_⟩
  have first := List.getElem_mem h
  have second := List.getElem_mem h'
  simp only [List.get_eq_getElem, List.getElem_zip] at first second ⊢
  exact each _ _ _ ((mem_zip_slots full).mp first) ((mem_zip_slots full').mp second)

end TrieArchive.Bitmap
