import TrieArchive.Proofs.Trie.Erase
import TrieArchive.Trie.Basic

/-! Erasing from node graphs of any shape. A lookup and an erasure take the same way down, so what the one finds is what
the other takes out, and nothing else goes. -/
namespace TrieArchive

open scoped List

variable {α κ : Type}

namespace Node

section Bitmaps

variable {datamap nodemap : UInt32} {slot : Nat}

/-- A slot that is given up meets nothing. -/
theorem disjoint_erase (disjoint : datamap &&& nodemap = 0) (h : slot < 32) :
    Bitmap.erase datamap slot &&& nodemap = 0 := by
  refine Bitmap.disjoint_iff.mpr fun other used => Bitmap.disjoint_iff.mp disjoint other ?_
  rw [Bitmap.has_erase h, Bool.and_eq_true] at used
  exact used.1

/-- Neither does a slot that passes from one bitmap to the other. -/
theorem disjoint_pass (disjoint : datamap &&& nodemap = 0) (h : slot < 32) :
    Bitmap.insert datamap slot &&& Bitmap.erase nodemap slot = 0 := by
  refine Bitmap.disjoint_iff.mpr fun other used => ?_
  rw [Bitmap.has_insert h, Bool.or_eq_true, decide_eq_true_eq] at used
  rw [Bitmap.has_erase h]
  rcases used with inline | same
  · rw [Bitmap.disjoint_iff.mp disjoint other inline, Bool.false_and]
  · simp [same]

end Bitmaps

theorem perm_cons_eraseIdx {β : Type} {entries : List β} {position : Nat} {b : β} (found : entries[position]? = some b) :
    entries.Perm (b :: entries.eraseIdx position) := by
  obtain ⟨bound, rfl⟩ := List.getElem?_eq_some_iff.mp found
  exact (List.getElem_cons_eraseIdx_perm bound).symm

/-- What is left of a node, fitted again, when one occurrence of a value is taken out. -/
structure Removed (depth : Nat) (v : α) (before after : Node α) : Prop where
  fitted : after.Fitted depth
  values : before.toList.Perm (v :: after.toList)

namespace Fitted

section Branch

variable {depth slot : Nat} {datamap nodemap : UInt32} {values : List α} {children : List (Node α)} {v : α}

/-- An inline value is taken out. -/
theorem removeValue (fitted : (Node.branch datamap nodemap values children).Fitted depth)
    (kept : Bitmap.kept? datamap values slot = some v) :
    Removed depth v (.branch datamap nodemap values children)
      (.branch (Bitmap.erase datamap slot) nodemap (values.eraseIdx (Bitmap.rank datamap slot)) children) := by
  have inline := Bitmap.used_of_kept? kept
  rw [Bitmap.kept?_eq_getElem? inline] at kept
  cases fitted with
  | branch level disjoint filled linked below =>
    refine ⟨.branch level (disjoint_erase disjoint (Bitmap.slot_lt inline)) (Bitmap.length_eraseIdx_rank filled inline)
      linked below, ?_⟩
    rw [toList_branch, toList_branch]
    exact (perm_cons_eraseIdx kept).append_right _

variable {next after : Node α}

/-- The values below a child are listed with the others. -/
theorem perm_child (kept : Bitmap.kept? nodemap children slot = some next) :
    (children.flatMap toList).Perm
      (next.toList ++ (children.eraseIdx (Bitmap.rank nodemap slot)).flatMap toList) := by
  rw [Bitmap.kept?_eq_getElem? (Bitmap.used_of_kept? kept)] at kept
  exact (perm_cons_eraseIdx kept).flatMap_right toList

/-- A child loses a value and keeps its place. -/
theorem setChild (fitted : (Node.branch datamap nodemap values children).Fitted depth)
    (kept : Bitmap.kept? nodemap children slot = some next) (removed : Removed (depth + 1) v next after) :
    Removed depth v (.branch datamap nodemap values children)
      (.branch datamap nodemap values (children.set (Bitmap.rank nodemap slot) after)) := by
  cases fitted with
  | branch level disjoint filled linked below =>
    have used := Bitmap.used_of_kept? kept
    have kept' := Bitmap.kept?_set linked used after slot
    rw [if_pos rfl] at kept'
    refine ⟨.branch level disjoint filled (List.length_set.trans linked) fun child member => ?_, ?_⟩
    · rcases List.mem_or_eq_of_mem_set member with old | rfl
      · exact below child old
      · exact removed.fitted
    · have others := perm_child kept'
      rw [List.eraseIdx_set_eq] at others
      rw [toList_branch, toList_branch]
      calc values ++ children.flatMap toList
        _ ~ values ++ (next.toList ++ (children.eraseIdx (Bitmap.rank nodemap slot)).flatMap toList) :=
          (perm_child kept).append_left values
        _ ~ values ++ (v :: after.toList ++ (children.eraseIdx (Bitmap.rank nodemap slot)).flatMap toList) :=
          (removed.values.append_right _).append_left values
        _ ~ v :: (values ++ (after.toList ++ (children.eraseIdx (Bitmap.rank nodemap slot)).flatMap toList)) :=
          List.perm_middle
        _ ~ v :: (values ++ (children.set (Bitmap.rank nodemap slot) after).flatMap toList) :=
          (others.symm.append_left values).cons v

/-- A child loses a value and gives its place to the only one that it has left. -/
theorem pullUp (fitted : (Node.branch datamap nodemap values children).Fitted depth)
    (free : Bitmap.has datamap slot = false) (kept : Bitmap.kept? nodemap children slot = some next)
    (removed : Removed (depth + 1) v next after) {last : α} (only : after.singleton? = some last) :
    Removed depth v (.branch datamap nodemap values children)
      (.branch (Bitmap.insert datamap slot) (Bitmap.erase nodemap slot)
        (values.insertIdx (Bitmap.rank datamap slot) last) (children.eraseIdx (Bitmap.rank nodemap slot))) := by
  cases fitted with
  | branch level disjoint filled linked below =>
    have used := Bitmap.used_of_kept? kept
    have h := Bitmap.slot_lt used
    have position : Bitmap.rank datamap slot ≤ values.length := filled ▸ Bitmap.rank_le_count datamap (Nat.le_of_lt h)
    refine ⟨.branch level (disjoint_pass disjoint h) (Bitmap.length_insertIdx_rank last filled h free)
      (Bitmap.length_eraseIdx_rank linked used) fun child member => below child (List.mem_of_mem_eraseIdx member), ?_⟩
    have less := removed.values
    rw [removed.fitted.toList_of_singleton? only] at less
    rw [toList_branch, toList_branch]
    calc values ++ children.flatMap toList
      _ ~ values ++ (next.toList ++ (children.eraseIdx (Bitmap.rank nodemap slot)).flatMap toList) :=
        (perm_child kept).append_left values
      _ ~ values ++ (v :: last :: (children.eraseIdx (Bitmap.rank nodemap slot)).flatMap toList) :=
        (less.append_right _).append_left values
      _ ~ v :: (values ++ last :: (children.eraseIdx (Bitmap.rank nodemap slot)).flatMap toList) := List.perm_middle
      _ ~ v :: (last :: values ++ (children.eraseIdx (Bitmap.rank nodemap slot)).flatMap toList) :=
        List.perm_middle.cons v
      _ ~ v :: (values.insertIdx (Bitmap.rank datamap slot) last ++
          (children.eraseIdx (Bitmap.rank nodemap slot)).flatMap toList) :=
        ((List.perm_insertIdx last values position).symm.append_right _).cons v

end Branch

variable {depth : Nat} {node : Node α} [BEq κ] {L : Layout α κ} {key : κ} {hash : UInt64}

/-- What a lookup finds is met again and taken out, whether or not it is where its hash leads. -/
theorem erase?_of_find? (fitted : node.Fitted depth) {v : α} (found : node.find? L key hash depth = some v) :
    ∃ after, node.erase? L key hash depth = some after ∧ Removed depth v node after := by
  induction fitted with
  | @collision depth own values =>
    -- an erasure does not look at the hash of a collision, but a lookup that finds something has
    rw [Node.find?, Option.ite_none_right_eq_some, List.find?_eq_bind_findIdx?_getElem?, Option.bind_eq_some_iff] at found
    obtain ⟨-, position, first, here⟩ := found
    refine ⟨.collision own (values.eraseIdx position), ?_, .collision, ?_⟩
    · rw [Node.erase?, first]
    · rw [toList_collision, toList_collision]
      exact perm_cons_eraseIdx here
  | @branch depth datamap nodemap values children level disjoint filled linked below ih =>
    have fitted := Fitted.branch level disjoint filled linked below
    rw [Node.find?] at found
    by_cases inline : Bitmap.has datamap (slotAt hash depth)
    · obtain ⟨old, kept⟩ := Bitmap.exists_kept filled inline
      rw [if_pos inline, ← Bitmap.kept?_eq_getElem? inline, kept, Option.filter_eq_some_iff, Option.some.injEq] at found
      obtain ⟨rfl, matched⟩ := found
      exact ⟨_, (erase?_of_inline kept).trans (if_pos matched), fitted.removeValue kept⟩
    · have free := eq_false_of_ne_true inline
      rw [if_neg inline] at found
      by_cases child : Bitmap.has nodemap (slotAt hash depth)
      · obtain ⟨next, kept⟩ := Bitmap.exists_kept linked child
        have there := (Bitmap.kept?_eq_getElem? child).symm.trans kept
        rw [if_pos child, findAt_eq, there, Option.bind_some] at found
        obtain ⟨after, erased, removed⟩ := ih next (List.mem_of_getElem? there) found
        rw [erase?_of_child free kept, erased]
        refine ⟨_, rfl, ?_⟩
        dsimp only
        split
        next last only => exact fitted.pullUp free kept removed only
        next => exact fitted.setChild kept removed
      · rw [if_neg child] at found
        contradiction

end Fitted

end Node

namespace Trie

/-- A node graph of any shape, with the number of values below it. -/
structure Fitted (t : Trie α) : Prop where
  root : t.root.Fitted 0
  size : t.size = t.root.count

theorem fitted_ofRoot {root : Node α} (fitted : root.Fitted 0) : (ofRoot root).Fitted := ⟨fitted, rfl⟩

variable [BEq κ] {L : Layout α κ} {t : Trie α} {key : κ}

/-- A key that is found is dropped, with the value that was found. -/
theorem Fitted.erase_of_find? (fitted : t.Fitted) {v : α} (found : t.find? L key = some v) :
    ∃ after, t.erase L key = (after, true) ∧ t.toList.Perm (v :: after.toList) ∧ after.Fitted := by
  obtain ⟨after, erased, removed⟩ := fitted.root.erase?_of_find? found
  have counted : t.root.count = after.count + 1 := by
    rw [← Node.length_toList, ← Node.length_toList, removed.values.length_eq, List.length_cons]
  refine ⟨⟨after, t.size - 1⟩, ?_, removed.values, removed.fitted, ?_⟩
  · rw [erase, contains, found, Option.isSome_some, if_pos rfl, erased]
  · rw [fitted.size, counted, Nat.add_sub_cancel]

theorem erase_of_find?_eq_none (absent : t.find? L key = none) : t.erase L key = (t, false) := by
  rw [erase, contains, absent, Option.isSome_none, if_neg Bool.false_ne_true]

end Trie

end TrieArchive
