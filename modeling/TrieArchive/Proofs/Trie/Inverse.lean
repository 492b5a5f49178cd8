import Mathlib.Data.List.InsertIdx
import TrieArchive.Proofs.Trie.Operations
import TrieArchive.Proofs.Trie.Shape

/-! Inserting and erasing undo each other. Erasing a key that was new takes back every level that inserting it has
added, so the very same node is left, and the value that was pushed down is in its old place again. -/
namespace TrieArchive

variable {α κ : Type} [BEq κ] {L : Layout α κ}

namespace Node

variable {depth path : Nat} {node : Node α}

/-- An edit that puts back what a slot kept gives the branch back. -/
theorem Edited.undone {slot : Nat} {inline : Option α} {child : Option (Node α)} {datamap nodemap : UInt32}
    {values : List α} {children : List (Node α)} {changed after : Node α}
    (filled : values.length = Bitmap.count datamap) (linked : children.length = Bitmap.count nodemap)
    (edit : Edited slot inline child (.branch datamap nodemap values children) changed)
    (back : Edited slot (Bitmap.kept? datamap values slot) (Bitmap.kept? nodemap children slot) changed after) :
    after = .branch datamap nodemap values children := by
  cases edit with
  | branch _ _ inlines nodes =>
    cases back with
    | branch filled' linked' inlines' nodes' =>
      obtain ⟨rfl, rfl⟩ := Bitmap.ext_kept? filled' filled fun other => by
        rw [inlines', inlines, apply_eq_ite (Bitmap.kept? datamap values) slot other]
        split <;> rfl
      obtain ⟨rfl, rfl⟩ := Bitmap.ext_kept? linked' linked fun other => by
        rw [nodes', nodes, apply_eq_ite (Bitmap.kept? nodemap children) slot other]
        split <;> rfl
      rfl

theorem Canonical.singleton?_eq_none (canonical : Canonical L depth path node) (several : 2 ≤ node.count) :
    node.singleton? = none := by
  cases only : node.singleton? with
  | none => rfl
  | some v =>
    have left := canonical.fitted.toList_of_singleton? only
    rw [← length_toList, left] at several
    contradiction

variable [EquivBEq κ]

/-- Of two values that were put together the first is left when the second is erased. -/
theorem erase?_ofPair {v w : α} (apart : (L.key v == L.key w) = false) (left depth : Nat) :
    ∃ after, (ofPair v (L.place v) w (L.place w) left depth).erase? L (L.key w) (L.place w) depth = some after ∧
      after.singleton? = some v := by
  induction left generalizing depth with
  | zero =>
    refine ⟨.collision (L.place v) [v], ?_, rfl⟩
    simp [ofPair, Node.erase?, List.findIdx?_cons, apart]
  | succ left ih =>
    have slotV := slotAt_lt (L.place v) depth
    have slotW := slotAt_lt (L.place w) depth
    rw [ofPair]
    split
    next same =>
      obtain ⟨after, erased, last⟩ := ih (depth + 1)
      rw [same]
      have found := Bitmap.kept?_mask slotW (ofPair v (L.place v) w (L.place w) left (depth + 1))
        (slotAt (L.place w) depth)
      rw [if_pos rfl] at found
      have emptied : Bitmap.erase (Bitmap.mask (slotAt (L.place w) depth)) (slotAt (L.place w) depth) = 0 := by
        refine Bitmap.ext_has fun slot => ?_
        rw [Bitmap.has_erase slotW, Bitmap.has_mask slotW, Bitmap.has_zero, Bool.and_not_self]
      rw [erase?_of_child (Bitmap.has_zero _) found, erased]
      refine ⟨_, rfl, ?_⟩
      simp only [last, emptied, Bitmap.rank_zero]
      rfl
    next other =>
      have found := Bitmap.kept?_pair slotV slotW other v w (slotAt (L.place w) depth)
      rw [if_pos rfl] at found
      have free : Bitmap.has (Bitmap.mask (slotAt (L.place v) depth)) (slotAt (L.place w) depth) = false := by
        rw [Bitmap.has_mask slotV]
        simpa using Ne.symm other
      have position := Bitmap.rank_insert slotW free (slotAt (L.place w) depth)
      rw [Bitmap.rank_mask slotV, Bitmap.insert] at position
      rw [erase?_of_inline found, if_pos BEq.rfl, position]
      refine ⟨_, rfl, ?_⟩
      by_cases below : slotAt (L.place v) depth < slotAt (L.place w) depth <;> simp [below, singleton?]

/-- Erasing a key that inserting brought in gives back the node as it was. -/
theorem Canonical.erase?_insert (canonical : Canonical L depth path node) {value : α}
    (absent : L.present (L.key value) node.toList = false) :
    (node.insert L value (L.place value) depth).1.erase? L (L.key value) (L.place value) depth = some node := by
  induction canonical with
  | @collision depth path hash values =>
    rw [toList_collision, Layout.present_eq_false_iff] at absent
    have missing : values.findIdx? (L.key · == L.key value) = none := List.findIdx?_eq_none_iff.mpr (by simpa using absent)
    simp [Node.insert, Node.erase?, missing, List.findIdx?_append, List.findIdx?_cons,
      List.eraseIdx_append_of_length_le]
  | @branch depth path datamap nodemap values children level bounded disjoint filled linked placed reached several
      below ih =>
    rw [Layout.present_eq_false_iff] at absent
    have slot := slotAt_lt (L.place value) depth
    by_cases inline : Bitmap.has datamap (slotAt (L.place value) depth)
    · have free := Bitmap.disjoint_iff.mp disjoint _ inline
      have bare := Bitmap.kept?_of_free children free
      obtain ⟨old, found⟩ := Bitmap.exists_kept filled inline
      have apart : (L.key old == L.key value) = false :=
        absent old ((mem_toList_branch filled linked).mpr (.inl ⟨_, found⟩))
      obtain ⟨after, erased, last⟩ := erase?_ofPair apart (branchLevels - (depth + 1)) (depth + 1)
      rw [insert_of_inline found, if_neg (Bool.eq_false_iff.mp apart)]
      have down := Edited.pushDown filled linked inline free
        (ofPair old (L.place old) value (L.place value) (branchLevels - (depth + 1)) (depth + 1))
      obtain ⟨filled', linked', inlines, nodes⟩ := id down
      have vacated : Bitmap.has (Bitmap.erase datamap (slotAt (L.place value) depth)) (slotAt (L.place value) depth) =
          false := by simp [Bitmap.has_erase slot]
      have child := (nodes (slotAt (L.place value) depth)).trans (if_pos rfl)
      rw [erase?_of_child vacated child, erased]
      simp only [Option.map_some, last, Option.some.injEq]
      have up := Edited.pullUp filled' linked' (Bitmap.used_of_kept? child) vacated old
      rw [← found, ← bare] at up
      exact down.undone filled linked up
    · have free : Bitmap.has datamap (slotAt (L.place value) depth) = false := by simpa using inline
      have bare := Bitmap.kept?_of_free values free
      by_cases child : Bitmap.has nodemap (slotAt (L.place value) depth)
      · obtain ⟨next, found⟩ := Bitmap.exists_kept linked child
        have restored := ih _ next found <| Layout.present_eq_false_iff.mpr fun v inside =>
          absent v ((mem_toList_branch filled linked).mpr (.inr ⟨_, next, found, inside⟩))
        rw [insert_of_child free found]
        have forth := Edited.setChild filled linked child
          (next.insert L value (L.place value) (depth + 1)).1
        obtain ⟨-, linked', -, nodes⟩ := id forth
        have found' := (nodes (slotAt (L.place value) depth)).trans (if_pos rfl)
        rw [erase?_of_child free found', restored]
        simp only [Option.map_some, (below _ next found).singleton?_eq_none (several _ next found), Option.some.injEq]
        have back := Edited.setChild filled linked' child next
        rw [← found] at back
        exact forth.undone filled linked back
      · have free' : Bitmap.has nodemap (slotAt (L.place value) depth) = false := by simpa using child
        rw [insert_of_free free free']
        have forth := Edited.addValue filled linked slot free value
        obtain ⟨filled', -, inlines, -⟩ := id forth
        have found' := (inlines (slotAt (L.place value) depth)).trans (if_pos rfl)
        rw [erase?_of_inline found', if_pos BEq.rfl, Option.some.injEq]
        have back := Edited.removeValue filled' linked (Bitmap.used_of_kept? found')
        rw [← bare] at back
        exact forth.undone filled linked back

end Node

namespace Trie.Canonical

variable [EquivBEq κ] {t : Trie α}

/-- Erasing a key that was new gives back the trie as it was. -/
theorem erase_insert (canonical : t.Canonical L) (lawful : L.Lawful) {v : α}
    (absent : t.contains L (L.key v) = false) : (t.insert L v).1.erase L (L.key v) = (t, true) := by
  have missing : L.present (L.key v) t.toList = false := (canonical.contains_eq lawful _).symm.trans absent
  obtain ⟨canonical', values, grown⟩ := canonical.insert_spec lawful v
  have present : (t.insert L v).1.contains L (L.key v) = true := by
    rw [canonical'.contains_eq lawful, Layout.present_iff]
    exact ⟨v, values.mem_iff.mpr (Layout.mem_put.mpr (.inl rfl)), BEq.rfl⟩
  have restored : (t.insert L v).1.root.erase? L (L.key v) (L.hash (L.key v)) 0 = some t.root :=
    canonical.root.erase?_insert missing
  have size : (t.insert L v).1.size = t.size + 1 := by
    rw [missing] at grown
    exact if_pos grown
  rw [erase, present, if_pos rfl, restored, size]
  rfl

/-- Inserting the value of a key again after erasing it gives the same trie up to the order inside collisions. -/
theorem insert_erase (canonical : t.Canonical L) (lawful : L.Lawful) {key : κ} {w : α}
    (found : t.find? L key = some w) : ((t.erase L key).1.insert L w).1.Canonical L ∧
      ((t.erase L key).1.insert L w).1.root.Alike t.root := by
  rw [canonical.find?_eq lawful, (canonical.distinct lawful).lookup_eq_some_iff] at found
  obtain ⟨member, matched⟩ := found
  obtain ⟨canonical', less, -⟩ := canonical.erase_spec lawful key
  obtain ⟨canonical'', more, -⟩ := canonical'.insert_spec lawful w
  refine ⟨canonical'', canonical''.root.alike canonical.root lawful fun v => ?_⟩
  change v ∈ toList _ ↔ v ∈ t.toList
  rw [more.mem_iff, Layout.mem_put, less.mem_iff, Layout.mem_drop, BEq.congr_right matched,
    ((canonical.distinct lawful).perm_cons_drop member matched).mem_iff, List.mem_cons, Layout.mem_drop]
  tauto

end Trie.Canonical

end TrieArchive
