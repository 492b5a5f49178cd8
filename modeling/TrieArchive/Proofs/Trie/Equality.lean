import Mathlib.Data.List.Perm.Subperm
import TrieArchive.Proofs.Trie.Operations
import TrieArchive.Proofs.Trie.Shape

/-! Comparing slot by slot tells whether two tries hold equal values under the same keys, as what they hold fixes where
it stands. -/
namespace TrieArchive

variable {α κ : Type} [BEq α] [BEq κ] {L : Layout α κ}

/-- Each value in the first list has an equal one in the second. -/
def Covers (values others : List α) : Prop := ∀ v ∈ values, ∃ w ∈ others, w == v

/-- Equal values have equal keys. -/
def Layout.Respected (L : Layout α κ) : Prop := ∀ v w : α, v == w → L.key v == L.key w

namespace Layout.Distinct

variable [EquivBEq α] {values others : List α} (distinct : L.Distinct values) (respected : L.Respected)
  (covers : Covers values others)
include distinct respected covers

/-- Values of different keys have different partners. -/
theorem exists_partners : ∃ partners : List α, partners.length = values.length ∧ partners.Nodup ∧
    ∀ w ∈ partners, w ∈ others ∧ ∃ v ∈ values, w == v := by
  induction values with
  | nil => exact ⟨[], rfl, List.nodup_nil, fun _ member => nomatch member⟩
  | cons v rest ih =>
    obtain ⟨apart, distinct⟩ := List.pairwise_cons.mp distinct
    obtain ⟨partners, width, nodup, inside⟩ := ih distinct fun u member => covers u (List.mem_cons_of_mem v member)
    obtain ⟨w, there, same⟩ := covers v List.mem_cons_self
    have fresh : w ∉ partners := by
      intro taken
      obtain ⟨-, u, member, same'⟩ := inside w taken
      have keys := respected v u (BEq.trans (BEq.symm same) same')
      rw [apart u member] at keys
      contradiction
    refine ⟨w :: partners, congrArg Nat.succ width, List.nodup_cons.mpr ⟨fresh, nodup⟩, ?_⟩
    intro u member
    rcases List.mem_cons.mp member with rfl | later
    · exact ⟨there, v, List.mem_cons_self, same⟩
    · obtain ⟨there', v', here, same'⟩ := inside u later
      exact ⟨there', v', List.mem_cons_of_mem v here, same'⟩

theorem length_le_of_covers : values.length ≤ others.length := by
  obtain ⟨partners, width, nodup, inside⟩ := distinct.exists_partners respected covers
  rw [← width]
  exact (nodup.subperm fun w member => (inside w member).1).length_le

/-- In a list of the same length nothing is left without a partner. -/
theorem covers_symm (width : values.length = others.length) : Covers others values := by
  obtain ⟨partners, width', nodup, inside⟩ := distinct.exists_partners respected covers
  have all : partners.Perm others :=
    (nodup.subperm fun w member => (inside w member).1).perm_of_length_le (by omega)
  intro w member
  obtain ⟨-, v, here, same⟩ := inside w (all.mem_iff.mpr member)
  exact ⟨v, here, BEq.symm same⟩

variable [EquivBEq κ] (distinct' : L.Distinct others)
include distinct'

omit [EquivBEq α] in
/-- What is found in a list is found in one that covers it. -/
theorem lookup_of_covers {key : κ} {v : α} (found : L.lookup key values = some v) :
    ∃ w, L.lookup key others = some w ∧ w == v := by
  obtain ⟨member, matched⟩ := distinct.lookup_eq_some_iff.mp found
  obtain ⟨w, there, same⟩ := covers v member
  exact ⟨w, distinct'.lookup_eq_some_iff.mpr ⟨there, BEq.trans (respected w v same) matched⟩, same⟩

end Layout.Distinct

theorem Option.beq_symm [EquivBEq α] {o p : Option α} (same : o == p) : p == o := by
  cases o with
  | none => cases p with
    | none => rfl
    | some => contradiction
  | some v => cases p with
    | none => contradiction
    | some w => exact BEq.symm (α := α) same

/-- A list in which every lookup finds an equal value covers. -/
theorem Layout.Distinct.covers_of_lookup [EquivBEq α] [EquivBEq κ] {values others : List α}
    (distinct : L.Distinct values) (distinct' : L.Distinct others)
    (same : ∀ key, L.lookup key values == L.lookup key others) : Covers values others := by
  intro v member
  have both := same (L.key v)
  rw [distinct.lookup_eq_some_iff.mpr ⟨member, BEq.rfl⟩] at both
  cases found : L.lookup (L.key v) others with
  | none => rw [found] at both; contradiction
  | some w =>
    rw [found, Option.some_beq_some] at both
    exact ⟨w, (distinct'.lookup_eq_some_iff.mp found).1, BEq.symm both⟩

namespace Node

section Lists

theorem beq_of_forall {values values' : List α} (width : values.length = values'.length)
    (each : ∀ (i : Nat) v w, values[i]? = some v → values'[i]? = some w → v == w) : values == values' := by
  induction values generalizing values' with
  | nil =>
    obtain rfl : values' = [] := List.eq_nil_of_length_eq_zero width.symm
    rfl
  | cons v rest ih =>
    rcases values' with _ | ⟨w, rest'⟩
    · contradiction
    · rw [List.cons_beq_cons, each 0 v w rfl rfl, Bool.true_and]
      exact ih (Nat.succ.inj width) fun i v w here there => each (i + 1) v w here there

theorem covers_of_beq [EquivBEq α] {values values' : List α} (same : values == values') :
    Covers values values' ∧ Covers values' values := by
  induction values generalizing values' with
  | nil =>
    cases values' with
    | nil => exact ⟨fun _ member => (nomatch member), fun _ member => (nomatch member)⟩
    | cons => contradiction
  | cons v rest ih =>
    cases values' with
    | nil => contradiction
    | cons w rest' =>
      rw [List.cons_beq_cons, Bool.and_eq_true] at same
      obtain ⟨forth, back⟩ := ih same.2
      constructor
      · intro u member
        rcases List.mem_cons.mp member with rfl | later
        · exact ⟨w, List.mem_cons_self, BEq.symm same.1⟩
        · obtain ⟨u', there, equal⟩ := forth u later
          exact ⟨u', List.mem_cons_of_mem w there, equal⟩
      · intro u member
        rcases List.mem_cons.mp member with rfl | later
        · exact ⟨v, List.mem_cons_self, same.1⟩
        · obtain ⟨u', there, equal⟩ := back u later
          exact ⟨u', List.mem_cons_of_mem v there, equal⟩

theorem forall_of_sameAll {children children' : List (Node α)} (same : sameAll children children') :
    ∀ (i : Nat) child child', children[i]? = some child → children'[i]? = some child' → child.same child' := by
  induction children generalizing children' with
  | nil => intro i child child' here; simp at here
  | cons first rest ih =>
    cases children' with
    | nil => intro i child child' _ there; simp at there
    | cons first' rest' =>
      rw [sameAll, Bool.and_eq_true] at same
      intro i child child' here there
      cases i with
      | zero =>
        obtain rfl := Option.some.inj here
        obtain rfl := Option.some.inj there
        exact same.1
      | succ i => exact ih same.2 i child child' here there

end Lists

section Branches

variable {datamap datamap' nodemap : UInt32} {values values' : List α} {children children' : List (Node α)}

/-- A branch whose values and whose children are covered is covered. -/
theorem covers_branch (linked : children.length = Bitmap.count nodemap)
    (linked' : children'.length = Bitmap.count nodemap) (inlines : Covers values values')
    (below : ∀ slot child child', Bitmap.kept? nodemap children slot = some child →
      Bitmap.kept? nodemap children' slot = some child' → Covers child.toList child'.toList) :
    Covers (branch datamap nodemap values children).toList (branch datamap' nodemap values' children').toList := by
  intro v member
  rw [toList_branch] at member ⊢
  rw [List.mem_append, List.mem_flatMap] at member
  rcases member with here | ⟨child, inside, under⟩
  · obtain ⟨w, there, same⟩ := inlines v here
    exact ⟨w, List.mem_append_left _ there, same⟩
  · obtain ⟨slot, kept⟩ := (Bitmap.mem_iff_kept? linked).mp inside
    obtain ⟨child', kept'⟩ := Bitmap.exists_kept linked' (Bitmap.used_of_kept? kept)
    obtain ⟨w, there, same⟩ := below slot child child' kept kept' v under
    have inside' := (Bitmap.mem_iff_kept? linked').mpr ⟨slot, kept'⟩
    exact ⟨w, List.mem_append_right _ (List.mem_flatMap.mpr ⟨child', inside', there⟩), same⟩

end Branches

variable [EquivBEq α] {depth path : Nat} {a b : Node α}

/-- Nodes that compare equal hold equal values. Nothing is left over in a collision, as its keys are distinct. -/
theorem Canonical.covers_of_same (canonical : Canonical L depth path a) (canonical' : Canonical L depth path b)
    (respected : L.Respected) (same : a.same b) : Covers a.toList b.toList ∧ Covers b.toList a.toList := by
  induction canonical generalizing b with
  | collision _ _ _ _ distinct =>
    cases b with
    | branch => contradiction
    | collision =>
      simp only [Node.same, Bool.and_eq_true, beq_iff_eq, List.all_eq_true, List.any_eq_true] at same
      rw [toList_collision, toList_collision]
      exact ⟨same.2, distinct.covers_symm respected same.2 same.1.2⟩
  | @branch depth path datamap nodemap values children _ _ _ filled linked _ _ _ _ ih =>
    cases b with
    | collision => simp [Node.same] at same
    | branch datamap' nodemap' values' children' =>
      simp only [Node.same, Bool.and_eq_true, beq_iff_eq] at same
      obtain ⟨⟨⟨rfl, rfl⟩, inlines⟩, nodes⟩ := same
      cases canonical' with
      | branch _ _ _ filled' linked' _ _ _ below' =>
        obtain ⟨forth, back⟩ := covers_of_beq inlines
        have covered (slot : Nat) (child child' : Node α) (kept : Bitmap.kept? nodemap children slot = some child)
            (kept' : Bitmap.kept? nodemap children' slot = some child') :=
          ih slot child kept (below' slot child' kept') (Bitmap.rel_of_kept (forall_of_sameAll nodes) kept kept')
        constructor
        · exact covers_branch linked linked' forth fun slot child child' kept kept' =>
            (covered slot child child' kept kept').1
        · exact covers_branch linked' linked back fun slot child' child kept' kept =>
            (covered slot child child' kept kept').2

variable [EquivBEq κ]

section Slots

variable {datamap nodemap datamap' nodemap' : UInt32} {values values' : List α} {children children' : List (Node α)}

omit [EquivBEq α] [EquivBEq κ] in
/-- What covers a branch covers it slot by slot. -/
theorem Canonical.covers_slot (canonical : Canonical L depth path (.branch datamap nodemap values children))
    (canonical' : Canonical L depth path (.branch datamap' nodemap' values' children')) (lawful : L.Lawful)
    (respected : L.Respected) (covers : Covers (Node.branch datamap nodemap values children).toList
      (Node.branch datamap' nodemap' values' children').toList) (slot : Nat) :
    Covers (slotValues (.branch datamap nodemap values children) slot)
      (slotValues (.branch datamap' nodemap' values' children') slot) := by
  intro v member
  obtain rfl := canonical.slotAt_of_mem member
  obtain ⟨w, there, same⟩ := covers v (canonical.mem_iff_slotValues.mpr member)
  have place : L.place w = L.place v := lawful _ _ (respected w v same)
  refine ⟨w, ?_, same⟩
  rw [← place]
  exact canonical'.mem_iff_slotValues.mp there

variable {slot : Nat} {inline inline' : Option α} {child child' : Option (Node α)}

/-- Slots that cover each other are used alike. -/
theorem Fitting.isSome_eq_of_covers (fits : Fitting L depth path slot inline child)
    (fits' : Fitting L depth path slot inline' child') (lawful : L.Lawful) (respected : L.Respected)
    (forth : Covers (inline.toList ++ child.elim [] toList) (inline'.toList ++ child'.elim [] toList))
    (back : Covers (inline'.toList ++ child'.elim [] toList) (inline.toList ++ child.elim [] toList)) :
    inline.isSome = inline'.isSome ∧ child.isSome = child'.isSome := by
  have width := Nat.le_antisymm ((fits.distinct lawful).length_le_of_covers respected forth)
    ((fits'.distinct lawful).length_le_of_covers respected back)
  constructor
  · rw [Bool.eq_iff_iff, fits.isSome_inline_iff, fits'.isSome_inline_iff, width]
  · rw [Bool.eq_iff_iff, fits.child_iff, fits'.child_iff, width]

end Slots

/-- Nodes in one place that hold equal values compare equal. -/
theorem Canonical.same_of_covers (canonical : Canonical L depth path a) (canonical' : Canonical L depth path b)
    (lawful : L.Lawful) (respected : L.Respected) (forth : Covers a.toList b.toList) (back : Covers b.toList a.toList) :
    a.same b := by
  induction canonical generalizing b with
  | collision level whole several placed distinct =>
    cases canonical' with
    | branch level' => omega
    | collision _ whole' _ _ distinct' =>
      obtain rfl := UInt64.toNat_inj.mp (whole.trans whole'.symm)
      rw [toList_collision, toList_collision] at forth back
      have width := Nat.le_antisymm (distinct.length_le_of_covers respected forth)
        (distinct'.length_le_of_covers respected back)
      simp only [Node.same, Bool.and_eq_true, beq_iff_eq, List.all_eq_true, List.any_eq_true]
      exact ⟨⟨trivial, width⟩, forth⟩
  | @branch depth path datamap nodemap values children level bounded disjoint filled linked placed reached several
      below ih =>
    have canonical := Canonical.branch level bounded disjoint filled linked placed reached several below
    cases canonical' with
    | collision level' => omega
    | @branch _ _ datamap' nodemap' values' children' level' bounded' disjoint' filled' linked' placed' reached'
        several' below' =>
      have canonical' :=
        Canonical.branch level' bounded' disjoint' filled' linked' placed' reached' several' below'
      have there := canonical.covers_slot canonical' lawful respected forth
      have here := canonical'.covers_slot canonical lawful respected back
      have used (slot : Nat) := (canonical.fitting slot).isSome_eq_of_covers (canonical'.fitting slot) lawful respected
        (there slot) (here slot)
      obtain rfl : datamap = datamap' := Bitmap.ext_has fun slot => by
        rw [← Bitmap.isSome_kept? filled, ← Bitmap.isSome_kept? filled', (used slot).1]
      obtain rfl : nodemap = nodemap' := Bitmap.ext_has fun slot => by
        rw [← Bitmap.isSome_kept? linked, ← Bitmap.isSome_kept? linked', (used slot).2]
      have inlines : values == values' := by
        refine beq_of_forall (filled.trans filled'.symm) fun i v w first second => ?_
        obtain ⟨slot, kept, kept'⟩ := Bitmap.exists_common_slot filled filled' first second
        have free := Bitmap.disjoint_iff.mp disjoint slot (Bitmap.used_of_kept? kept)
        have covered := there slot
        rw [slotValues_of_inline children kept free, slotValues_of_inline children' kept' free] at covered
        obtain ⟨u, member, same⟩ := covered v (List.mem_singleton_self v)
        rw [List.mem_singleton.mp member] at same
        exact BEq.symm same
      have nodes : sameAll children children' := by
        refine sameAll_of_forall fun i child child' first second => ?_
        obtain ⟨slot, kept, kept'⟩ := Bitmap.exists_common_slot linked linked' first second
        have bare : Bitmap.has datamap slot = false := by
          by_contra inline
          have free := Bitmap.disjoint_iff.mp disjoint slot (by simpa using inline)
          rw [Bitmap.used_of_kept? kept] at free
          contradiction
        have forth := there slot
        have back := here slot
        rw [slotValues_of_child values kept bare, slotValues_of_child values' kept' bare] at forth back
        exact ih slot child kept (below' slot child' kept') forth back
      rw [Node.same, beq_self_eq_true, beq_self_eq_true, inlines, nodes]
      rfl

end Node

namespace Trie.Canonical

variable [EquivBEq α] [EquivBEq κ] {t t' : Trie α} (canonical : t.Canonical L) (canonical' : t'.Canonical L)
  (lawful : L.Lawful) (respected : L.Respected)
include canonical canonical' lawful respected

/-- Tries compare equal if each covers the other, and only then. -/
theorem same_iff_covers : t.same t' ↔ Covers t.toList t'.toList ∧ Covers t'.toList t.toList := by
  rw [Trie.same, Bool.and_eq_true, beq_iff_eq]
  constructor
  · rintro ⟨-, same⟩
    exact canonical.root.covers_of_same canonical'.root respected same
  · rintro ⟨forth, back⟩
    refine ⟨?_, canonical.root.same_of_covers canonical'.root lawful respected forth back⟩
    rw [canonical.size_eq_length, canonical'.size_eq_length]
    exact Nat.le_antisymm ((canonical.distinct lawful).length_le_of_covers respected forth)
      ((canonical'.distinct lawful).length_le_of_covers respected back)

/-- Tries compare equal if every key leads to equal values in both, or to none, and only then. -/
theorem same_iff_find? : t.same t' ↔ ∀ key, t.find? L key == t'.find? L key := by
  rw [canonical.same_iff_covers canonical' lawful respected]
  simp only [canonical.find?_eq lawful, canonical'.find?_eq lawful]
  have distinct := canonical.distinct lawful
  have distinct' := canonical'.distinct lawful
  constructor
  · rintro ⟨forth, back⟩ key
    cases found : L.lookup key t.toList with
    | some v =>
      obtain ⟨w, found', same⟩ := distinct.lookup_of_covers respected forth distinct' found
      rw [found', Option.some_beq_some]
      exact BEq.symm same
    | none =>
      cases found' : L.lookup key t'.toList with
      | none => rfl
      | some w =>
        obtain ⟨v, there, -⟩ := distinct'.lookup_of_covers respected back distinct found'
        rw [found] at there
        contradiction
  · intro same
    exact ⟨distinct.covers_of_lookup distinct' same, distinct'.covers_of_lookup distinct fun key =>
      Option.beq_symm (same key)⟩

end Trie.Canonical

end TrieArchive
