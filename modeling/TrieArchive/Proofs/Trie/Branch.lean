import TrieArchive.Proofs.Trie.Lookup

/-! Edits of one slot of a branch. What the other slots keep stays as it is, so it is enough to look at the
slot a hash selects: whether the branch stays well-formed, and how its values change. -/
namespace TrieArchive.Node

variable {α κ : Type} [BEq κ] {L : Layout α κ} {depth path : Nat}

/-- The values a node holds in a slot, inline or below. A collision node has no slots. -/
def slotValues : Node α → Nat → List α
  | .branch datamap nodemap values children, slot =>
    (Bitmap.kept? datamap values slot).toList ++ (Bitmap.kept? nodemap children slot).elim [] toList
  | .collision _ values, _ => values

section SlotValues

variable {datamap nodemap : UInt32} {values : List α} {children : List (Node α)} {slot : Nat}

theorem slotValues_of_inline (children : List (Node α)) {v : α}
    (found : Bitmap.kept? datamap values slot = some v) (free : Bitmap.has nodemap slot = false) :
    slotValues (.branch datamap nodemap values children) slot = [v] := by
  simp [slotValues, found, Bitmap.kept?_of_free children free]

theorem slotValues_of_child (values : List α) {c : Node α} (found : Bitmap.kept? nodemap children slot = some c)
    (free : Bitmap.has datamap slot = false) :
    slotValues (.branch datamap nodemap values children) slot = c.toList := by
  simp [slotValues, found, Bitmap.kept?_of_free values free]

theorem slotValues_of_free (values : List α) (children : List (Node α))
    (free : Bitmap.has datamap slot = false) (free' : Bitmap.has nodemap slot = false) :
    slotValues (.branch datamap nodemap values children) slot = [] := by
  simp [slotValues, Bitmap.kept?_of_free values free, Bitmap.kept?_of_free children free']

end SlotValues

/-- What a slot of a branch may keep: nothing, one value whose hash leads there, or a child that belongs
there. -/
structure Fitting (L : Layout α κ) (depth path slot : Nat) (inline : Option α) (child : Option (Node α)) :
    Prop where
  either : inline = none ∨ child = none
  placed : ∀ v, inline = some v → pathOf (L.place v) depth = path ∧ slotAt (L.place v) depth = slot
  several : ∀ c, child = some c → 2 ≤ c.count
  below : ∀ c, child = some c → Canonical L (depth + 1) (path + slot * 2 ^ shiftAt depth) c

theorem Fitting.empty (slot : Nat) : Fitting L depth path slot none none :=
  ⟨.inl rfl, fun _ h => (nomatch h), fun _ h => (nomatch h), fun _ h => (nomatch h)⟩

theorem Fitting.value {v : α} (here : pathOf (L.place v) depth = path) :
    Fitting L depth path (slotAt (L.place v) depth) (some v) none := by
  refine ⟨.inr rfl, ?_, fun _ h => (nomatch h), fun _ h => (nomatch h)⟩
  rintro w ⟨⟩
  exact ⟨here, rfl⟩

theorem Fitting.child {slot : Nat} {c : Node α} (several : 2 ≤ c.count)
    (canonical : Canonical L (depth + 1) (path + slot * 2 ^ shiftAt depth) c) :
    Fitting L depth path slot none (some c) := by
  refine ⟨.inl rfl, fun _ h => (nomatch h), ?_, ?_⟩
  all_goals rintro _ ⟨⟩
  · exact several
  · exact canonical

namespace Canonical

/-- The path of a node that holds values is part of a hash. -/
theorem path_lt_of_mem {node : Node α} (canonical : Canonical L depth path node) {v : α}
    (member : v ∈ node.toList) : path < 2 ^ 64 := by
  rw [← canonical.pathOf_eq member]
  exact Nat.lt_of_le_of_lt (Nat.mod_le _ _) (UInt64.toNat_lt _)

variable {datamap nodemap : UInt32} {values : List α} {children : List (Node α)}

/-- A branch is well-formed if each of its slots is. -/
theorem of_fitting (level : depth < branchLevels) (bounded : path < 2 ^ shiftAt depth)
    (filled : values.length = Bitmap.count datamap) (linked : children.length = Bitmap.count nodemap)
    (fitting : ∀ slot, Fitting L depth path slot (Bitmap.kept? datamap values slot)
      (Bitmap.kept? nodemap children slot)) :
    Canonical L depth path (.branch datamap nodemap values children) := by
  refine .branch level bounded ?_ filled linked (fun slot => (fitting slot).placed) ?_
    (fun slot => (fitting slot).several) (fun slot => (fitting slot).below)
  · refine Bitmap.disjoint_iff.mpr fun slot inline => ?_
    by_contra child
    obtain ⟨v, found⟩ := Bitmap.exists_kept filled inline
    obtain ⟨c, kept⟩ := Bitmap.exists_kept linked (by simpa using child)
    rcases (fitting slot).either with none | none
    · rw [found] at none; contradiction
    · rw [kept] at none; contradiction
  · intro slot c kept
    have several := (fitting slot).several c kept
    obtain ⟨v, member⟩ := exists_mem_of_count (show 0 < c.count by omega)
    exact ((fitting slot).below c kept).path_lt_of_mem member

theorem fitting (canonical : Canonical L depth path (.branch datamap nodemap values children)) (slot : Nat) :
    Fitting L depth path slot (Bitmap.kept? datamap values slot) (Bitmap.kept? nodemap children slot) := by
  cases canonical with
  | branch _ _ disjoint _ _ placed _ several below =>
    refine ⟨?_, placed slot, several slot, below slot⟩
    by_cases inline : Bitmap.has datamap slot
    · exact .inr (Bitmap.kept?_of_free _ (Bitmap.disjoint_iff.mp disjoint slot inline))
    · exact .inl (Bitmap.kept?_of_free _ (by simpa using inline))

end Canonical

section Slots

variable {node : Node α}

theorem Canonical.mem_iff_slotValues (canonical : Canonical L depth path node) {v : α} :
    v ∈ node.toList ↔ v ∈ node.slotValues (slotAt (L.place v) depth) := by
  cases node with
  | collision hash values => rw [toList_collision, slotValues]
  | branch datamap nodemap values children =>
    rw [canonical.mem_branch, slotValues, List.mem_append, Option.mem_toList]
    refine or_congr Iff.rfl ?_
    cases Bitmap.kept? nodemap children (slotAt (L.place v) depth) <;> simp

/-- Whether a key is present shows in its slot. -/
theorem Canonical.present_slot (canonical : Canonical L depth path node) (lawful : L.Lawful) (key : κ) :
    L.present key node.toList = L.present key (node.slotValues (slotAt (L.hash key) depth)) := by
  rw [Bool.eq_iff_iff, Layout.present_iff, Layout.present_iff]
  refine exists_congr fun v => and_congr_left fun matched => ?_
  rw [canonical.mem_iff_slotValues, hash_eq_of_key lawful matched]

/-- The second branch keeps `inline` and `child` in a slot, and in the others what the first keeps. -/
inductive Edited (slot : Nat) (inline : Option α) (child : Option (Node α)) : Node α → Node α → Prop where
  | branch {datamap nodemap datamap' nodemap' : UInt32} {values values' : List α}
      {children children' : List (Node α)}
      (filled : values'.length = Bitmap.count datamap') (linked : children'.length = Bitmap.count nodemap')
      (inlines : ∀ other, Bitmap.kept? datamap' values' other =
        if other = slot then inline else Bitmap.kept? datamap values other)
      (nodes : ∀ other, Bitmap.kept? nodemap' children' other =
        if other = slot then child else Bitmap.kept? nodemap children other) :
      Edited slot inline child (.branch datamap nodemap values children)
        (.branch datamap' nodemap' values' children')

variable {slot : Nat} {inline : Option α} {child : Option (Node α)} {after : Node α}

omit [BEq κ] in
theorem Edited.slotValues_eq (edited : Edited slot inline child node after) :
    after.slotValues slot = inline.toList ++ child.elim [] toList := by
  cases edited with
  | branch _ _ inlines nodes => rw [slotValues, inlines, nodes, if_pos rfl, if_pos rfl]

theorem Edited.slotValues_other (edited : Edited slot inline child node after) {other : Nat}
    (apart : other ≠ slot) : after.slotValues other = node.slotValues other := by
  cases edited with
  | branch _ _ inlines nodes => rw [slotValues, slotValues, inlines, nodes, if_neg apart, if_neg apart]

theorem Edited.canonical (edited : Edited slot inline child node after) (canonical : Canonical L depth path node)
    (fits : Fitting L depth path slot inline child) : Canonical L depth path after := by
  cases edited with
  | branch filled linked inlines nodes =>
    have level : depth < branchLevels := by cases canonical; assumption
    refine .of_fitting level canonical.bounded filled linked fun other => ?_
    rw [inlines, nodes]
    split
    next same => exact same ▸ fits
    next => exact canonical.fitting other

variable [EquivBEq κ]

/-- Storing a value in its slot stores it in the node. -/
theorem Edited.put {v : α} (edited : Edited (slotAt (L.place v) depth) inline child node after)
    (canonical : Canonical L depth path node) (canonical' : Canonical L depth path after) (lawful : L.Lawful)
    (here : (inline.toList ++ child.elim [] toList).Perm (L.put v (node.slotValues (slotAt (L.place v) depth)))) :
    after.toList.Perm (L.put v node.toList) := by
  refine (canonical'.distinct lawful).perm_of_mem ((canonical.distinct lawful).put v) fun w => ?_
  rw [Layout.mem_put, canonical'.mem_iff_slotValues, canonical.mem_iff_slotValues]
  by_cases same : slotAt (L.place w) depth = slotAt (L.place v) depth
  · rw [same, edited.slotValues_eq, here.mem_iff, Layout.mem_put]
  · have other : w ≠ v := by rintro rfl; exact same rfl
    have apart : (L.key w == L.key v) = false := by
      by_contra matched
      exact same (congrArg (slotAt · depth) (hash_eq_of_key lawful (by simpa using matched)))
    simp [edited.slotValues_other same, other, apart]

/-- Dropping a key in its slot drops it from the node. -/
theorem Edited.drop {key : κ} (edited : Edited (slotAt (L.hash key) depth) inline child node after)
    (canonical : Canonical L depth path node) (canonical' : Canonical L depth path after) (lawful : L.Lawful)
    (here : (inline.toList ++ child.elim [] toList).Perm
      (L.drop key (node.slotValues (slotAt (L.hash key) depth)))) :
    after.toList.Perm (L.drop key node.toList) := by
  refine (canonical'.distinct lawful).perm_of_mem ((canonical.distinct lawful).drop key) fun w => ?_
  rw [Layout.mem_drop, canonical'.mem_iff_slotValues, canonical.mem_iff_slotValues]
  by_cases same : slotAt (L.place w) depth = slotAt (L.hash key) depth
  · rw [same, edited.slotValues_eq, here.mem_iff, Layout.mem_drop]
  · have apart : (L.key w == key) = false := by
      by_contra matched
      exact same (congrArg (slotAt · depth) (hash_eq_of_key lawful (by simpa using matched)))
    simp [edited.slotValues_other same, apart]

end Slots

section Edits

/-- What is left alone in all slots is left alone in the slot of an edit. -/
theorem apply_eq_ite {γ : Type} (f : Nat → γ) (slot other : Nat) :
    f other = if other = slot then f slot else f other := by
  split
  next same => rw [same]
  next => rfl

variable {slot : Nat} {datamap nodemap : UInt32} {values : List α} {children : List (Node α)}
  (filled : values.length = Bitmap.count datamap) (linked : children.length = Bitmap.count nodemap)
include filled linked

/-- Overwriting an inline value. -/
theorem Edited.setValue (inline : Bitmap.has datamap slot) (v : α) :
    Edited slot (some v) (Bitmap.kept? nodemap children slot) (.branch datamap nodemap values children)
      (.branch datamap nodemap (values.set (Bitmap.rank datamap slot) v) children) :=
  .branch ((List.length_set ..).trans filled) linked (Bitmap.kept?_set filled inline v) (apply_eq_ite _ slot)

/-- Filling a free slot with a value. -/
theorem Edited.addValue (h : slot < 32) (free : Bitmap.has datamap slot = false) (v : α) :
    Edited slot (some v) (Bitmap.kept? nodemap children slot) (.branch datamap nodemap values children)
      (.branch (Bitmap.insert datamap slot) nodemap (values.insertIdx (Bitmap.rank datamap slot) v) children) :=
  .branch (Bitmap.length_insertIdx_rank v filled h free) linked (Bitmap.kept?_insertIdx filled h free v)
    (apply_eq_ite _ slot)

/-- Taking an inline value out. -/
theorem Edited.removeValue (inline : Bitmap.has datamap slot) :
    Edited slot none (Bitmap.kept? nodemap children slot) (.branch datamap nodemap values children)
      (.branch (Bitmap.erase datamap slot) nodemap (values.eraseIdx (Bitmap.rank datamap slot)) children) :=
  .branch (Bitmap.length_eraseIdx_rank filled inline) linked (Bitmap.kept?_eraseIdx inline)
    (apply_eq_ite _ slot)

/-- Exchanging a child. -/
theorem Edited.setChild (below : Bitmap.has nodemap slot) (c : Node α) :
    Edited slot (Bitmap.kept? datamap values slot) (some c) (.branch datamap nodemap values children)
      (.branch datamap nodemap values (children.set (Bitmap.rank nodemap slot) c)) :=
  .branch filled ((List.length_set ..).trans linked) (apply_eq_ite _ slot) (Bitmap.kept?_set linked below c)

/-- Putting a child in the place of an inline value. -/
theorem Edited.pushDown (inline : Bitmap.has datamap slot) (free : Bitmap.has nodemap slot = false) (c : Node α) :
    Edited slot none (some c) (.branch datamap nodemap values children)
      (.branch (Bitmap.erase datamap slot) (Bitmap.insert nodemap slot)
        (values.eraseIdx (Bitmap.rank datamap slot)) (children.insertIdx (Bitmap.rank nodemap slot) c)) :=
  .branch (Bitmap.length_eraseIdx_rank filled inline)
    (Bitmap.length_insertIdx_rank c linked (Bitmap.slot_lt inline) free) (Bitmap.kept?_eraseIdx inline)
    (Bitmap.kept?_insertIdx linked (Bitmap.slot_lt inline) free c)

/-- Putting an inline value in the place of a child. -/
theorem Edited.pullUp (below : Bitmap.has nodemap slot) (free : Bitmap.has datamap slot = false) (v : α) :
    Edited slot (some v) none (.branch datamap nodemap values children)
      (.branch (Bitmap.insert datamap slot) (Bitmap.erase nodemap slot)
        (values.insertIdx (Bitmap.rank datamap slot) v) (children.eraseIdx (Bitmap.rank nodemap slot))) :=
  .branch (Bitmap.length_insertIdx_rank v filled (Bitmap.slot_lt below) free)
    (Bitmap.length_eraseIdx_rank linked below) (Bitmap.kept?_insertIdx filled (Bitmap.slot_lt below) free v)
    (Bitmap.kept?_eraseIdx below)

end Edits

end TrieArchive.Node
