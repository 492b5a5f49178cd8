import TrieArchive.Trie.Equality
import TrieArchive.Proofs.Trie.Branch

/-! The shape of a well-formed node is fixed by its values. What remains free is the order inside collisions,
which comparing does not look at. -/
namespace TrieArchive.Node

/-- The same tree up to the order of values inside collisions. -/
inductive Alike {α : Type} : Node α → Node α → Prop where
  | branch {datamap nodemap : UInt32} {values : List α} {children children' : List (Node α)}
      (width : children.length = children'.length)
      (below : ∀ (i : Nat) child child', children[i]? = some child → children'[i]? = some child' →
        Alike child child') :
      Alike (.branch datamap nodemap values children) (.branch datamap nodemap values children')
  | collision {hash : UInt64} {values values' : List α} (same : values.Perm values') :
      Alike (.collision hash values) (.collision hash values')

section Comparing

variable {α : Type} {a b : Node α}

theorem flatMap_perm_of_forall {children children' : List (Node α)} (width : children.length = children'.length)
    (below : ∀ (i : Nat) child child', children[i]? = some child → children'[i]? = some child' →
      child.toList.Perm child'.toList) :
    (children.flatMap toList).Perm (children'.flatMap toList) := by
  induction children generalizing children' with
  | nil =>
    obtain rfl : children' = [] := List.eq_nil_of_length_eq_zero width.symm
    exact .refl _
  | cons child rest ih =>
    rcases children' with _ | ⟨child', rest'⟩
    · contradiction
    · refine (below 0 child child' rfl rfl).append (ih (Nat.succ.inj width) fun i c c' here there => ?_)
      exact below (i + 1) c c' here there

theorem Alike.toList_perm (alike : Alike a b) : a.toList.Perm b.toList := by
  induction alike with
  | branch width _ ih =>
    rw [toList_branch, toList_branch]
    exact (flatMap_perm_of_forall width ih).append_left _
  | collision same => rwa [toList_collision, toList_collision]

variable [BEq α]

theorem sameAll_of_forall {children children' : List (Node α)}
    (below : ∀ (i : Nat) child child', children[i]? = some child → children'[i]? = some child' →
      child.same child') :
    sameAll children children' := by
  induction children generalizing children' with
  | nil => cases children' <;> rfl
  | cons child rest ih =>
    cases children' with
    | nil => rfl
    | cons child' rest' =>
      rw [sameAll, below 0 child child' rfl rfl, Bool.true_and]
      exact ih fun i c c' here there => below (i + 1) c c' here there

theorem Alike.same [ReflBEq α] (alike : Alike a b) : a.same b := by
  induction alike with
  | branch _ _ ih => simp [Node.same, sameAll_of_forall ih]
  | collision same =>
    rw [Node.same, beq_self_eq_true, same.length_eq, beq_self_eq_true, Bool.true_and, Bool.true_and,
      List.all_eq_true]
    intro v member
    exact List.any_eq_true.mpr ⟨v, same.mem_iff.mp member, beq_self_eq_true v⟩

end Comparing

section Uniqueness

variable {α κ : Type} [BEq κ] {L : Layout α κ} {depth path : Nat}

theorem Canonical.slotAt_of_mem {datamap nodemap : UInt32} {values : List α} {children : List (Node α)}
    (canonical : Canonical L depth path (.branch datamap nodemap values children)) {slot : Nat} {v : α}
    (member : v ∈ slotValues (.branch datamap nodemap values children) slot) :
    slotAt (L.place v) depth = slot := by
  rw [slotValues, List.mem_append, Option.mem_toList] at member
  rcases member with inline | below
  · exact ((canonical.fitting slot).placed v inline).2
  · cases found : Bitmap.kept? nodemap children slot with
    | none => rw [found] at below; contradiction
    | some child =>
      rw [found] at below
      exact canonical.slotAt_eq_of_below found below

/-- Branches with the same values keep the same values in each slot. -/
theorem Canonical.mem_slotValues_iff {datamap nodemap datamap' nodemap' : UInt32} {values values' : List α}
    {children children' : List (Node α)}
    (canonical : Canonical L depth path (.branch datamap nodemap values children))
    (canonical' : Canonical L depth path (.branch datamap' nodemap' values' children'))
    (same : ∀ v, v ∈ (Node.branch datamap nodemap values children).toList ↔
      v ∈ (Node.branch datamap' nodemap' values' children').toList)
    (slot : Nat) (v : α) : v ∈ slotValues (.branch datamap nodemap values children) slot ↔
      v ∈ slotValues (.branch datamap' nodemap' values' children') slot := by
  constructor
  · intro member
    obtain rfl := canonical.slotAt_of_mem member
    exact canonical'.mem_iff_slotValues.mp ((same v).mp (canonical.mem_iff_slotValues.mpr member))
  · intro member
    obtain rfl := canonical'.slotAt_of_mem member
    exact canonical.mem_iff_slotValues.mp ((same v).mpr (canonical'.mem_iff_slotValues.mpr member))

section Slot

variable {slot : Nat} {inline : Option α} {child : Option (Node α)} (fits : Fitting L depth path slot inline child)
include fits

theorem Fitting.inline_iff {v : α} : inline = some v ↔ inline.toList ++ child.elim [] toList = [v] := by
  cases inline with
  | some w =>
    obtain rfl : child = none := by simpa using fits.either
    simp
  | none =>
    cases child with
    | none => simp
    | some c =>
      have several := fits.several c rfl
      refine ⟨fun h => (nomatch h), fun only => ?_⟩
      have length := congrArg List.length only
      simp only [Option.toList_none, Option.elim_some, List.nil_append, length_toList,
        List.length_singleton] at length
      omega

theorem Fitting.isSome_inline_iff : inline.isSome ↔ (inline.toList ++ child.elim [] toList).length = 1 := by
  rw [Option.isSome_iff_exists, List.length_eq_one_iff]
  exact exists_congr fun v => fits.inline_iff

theorem Fitting.child_iff : child.isSome ↔ 2 ≤ (inline.toList ++ child.elim [] toList).length := by
  cases child with
  | some c =>
    obtain rfl : inline = none := by simpa using fits.either
    simpa [length_toList] using fits.several c rfl
  | none => cases inline <;> simp

theorem Fitting.distinct [EquivBEq κ] (lawful : L.Lawful) :
    L.Distinct (inline.toList ++ child.elim [] toList) := by
  cases child with
  | some c =>
    obtain rfl : inline = none := by simpa using fits.either
    exact (fits.below c rfl).distinct lawful
  | none => cases inline <;> simp [Layout.Distinct]

end Slot

variable [EquivBEq κ]

/-- Whether a slot keeps a value or a child shows in the values below it. -/
theorem Fitting.unique {slot : Nat} {inline inline' : Option α} {child child' : Option (Node α)}
    (fits : Fitting L depth path slot inline child) (fits' : Fitting L depth path slot inline' child')
    (lawful : L.Lawful)
    (same : ∀ v, v ∈ inline.toList ++ child.elim [] toList ↔ v ∈ inline'.toList ++ child'.elim [] toList) :
    inline = inline' ∧ child.isSome = child'.isSome := by
  have perm := (fits.distinct lawful).perm_of_mem (fits'.distinct lawful) same
  constructor
  · refine Option.ext fun v => ?_
    rw [fits.inline_iff, fits'.inline_iff, ← List.perm_singleton, ← List.perm_singleton]
    exact ⟨perm.symm.trans, perm.trans⟩
  · rw [Bool.eq_iff_iff, fits.child_iff, fits'.child_iff, perm.length_eq]

/-- Well-formed nodes that stand in one place and hold the same values are the same tree up to the order inside
collisions. -/
theorem Canonical.alike {a b : Node α} (canonical : Canonical L depth path a)
    (canonical' : Canonical L depth path b) (lawful : L.Lawful) (same : ∀ v, v ∈ a.toList ↔ v ∈ b.toList) : Alike a b := by
  induction canonical generalizing b with
  | collision level whole several placed distinct =>
    cases canonical' with
    | branch level' => omega
    | collision _ whole' _ _ distinct' =>
      obtain rfl := UInt64.toNat_inj.mp (whole.trans whole'.symm)
      refine .collision (distinct.perm_of_mem distinct' fun v => ?_)
      simpa using same v
  | @branch depth path datamap nodemap values children level bounded disjoint filled linked placed reached several
      below ih =>
    have canonical := Canonical.branch level bounded disjoint filled linked placed reached several below
    cases canonical' with
    | collision level' => omega
    | @branch _ _ datamap' nodemap' values' children' level' bounded' disjoint' filled' linked' placed' reached'
        several' below' =>
      have canonical' :=
        Canonical.branch level' bounded' disjoint' filled' linked' placed' reached' several' below'
      -- slot by slot, so that neither bitmap is needed to find what the other branch keeps
      have here := canonical.mem_slotValues_iff canonical' same
      have slots (slot : Nat) := (canonical.fitting slot).unique (canonical'.fitting slot) lawful (here slot)
      obtain ⟨rfl, rfl⟩ := Bitmap.ext_kept? filled filled' fun slot => (slots slot).1
      obtain rfl : nodemap = nodemap' := Bitmap.ext_has fun slot => by
        rw [← Bitmap.isSome_kept? linked, ← Bitmap.isSome_kept? linked', (slots slot).2]
      refine .branch (linked.trans linked'.symm) fun i child child' first second => ?_
      obtain ⟨slot, kept, kept'⟩ := Bitmap.exists_common_slot linked linked' first second
      refine ih slot child kept (below' slot child' kept') fun v => ?_
      have bare : Bitmap.kept? datamap values slot = none :=
        (canonical.fitting slot).either.resolve_right (by simp [kept])
      simpa [slotValues, kept, kept', bare] using here slot v

end Uniqueness

end TrieArchive.Node
