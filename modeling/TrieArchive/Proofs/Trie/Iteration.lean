import TrieArchive.Trie.Cursor
import TrieArchive.Trie.Basic

/-! A cursor gives the values of its nodes in the order in which they are listed, and then stops. -/
namespace TrieArchive

variable {α : Type}

namespace Node

theorem listAll_append (first second : List (Node α)) :
    listAll (first ++ second) = listAll first ++ listAll second := by
  induction first with
  | nil => rfl
  | cons node rest ih => simp [listAll, ih]

theorem toList_eq (node : Node α) : node.toList = node.values ++ listAll node.children := by
  cases node <;> simp [toList, values, children, listAll]

end Node

namespace Cursor

/-- The values still to come. -/
def rest (c : Cursor α) : List α := c.values ++ Node.listAll c.pending

theorem advance_eq_none_iff (pending : List (Node α)) (values : List α) :
    advance pending values = none ↔ values ++ Node.listAll pending = [] := by
  fun_induction advance pending values with
  | case1 => simp
  | case2 node pending ih =>
    rw [ih, Node.listAll_append, List.nil_append, Node.listAll, Node.toList_eq, List.append_assoc]
  | case3 => simp [Node.listAll]

theorem advance_eq_some {pending : List (Node α)} {values : List α} {v : α} {pending' : List (Node α)}
    {values' : List α} (moved : advance pending values = some (v, pending', values')) :
    values ++ Node.listAll pending = v :: (values' ++ Node.listAll pending') := by
  fun_induction advance pending values with
  | case1 => cases moved; rfl
  | case2 node pending ih =>
    rw [← ih moved, Node.listAll_append, List.nil_append, Node.listAll, Node.toList_eq, List.append_assoc]
  | case3 => cases moved

theorem next?_eq_none_iff (c : Cursor α) : c.next? = none ↔ c.rest = [] := by
  rw [next?, Option.map_eq_none_iff, advance_eq_none_iff, rest]

theorem next?_eq_some {c c' : Cursor α} {v : α} (moved : c.next? = some (v, c')) :
    c.rest = v :: c'.rest ∧ c'.remaining = c.remaining - 1 := by
  rw [next?, Option.map_eq_some_iff] at moved
  obtain ⟨⟨w, pending, values⟩, step, same⟩ := moved
  cases same
  exact ⟨advance_eq_some step, rfl⟩

/-- Taking from a cursor takes from the values still to come. -/
theorem take_spec (limit : Nat) (c : Cursor α) :
    (c.take limit).1 = c.rest.take limit ∧ (c.take limit).2.rest = c.rest.drop limit ∧
      (c.take limit).2.remaining = c.remaining - (c.rest.take limit).length := by
  induction limit generalizing c with
  | zero => simp [take]
  | succ limit ih =>
    rw [take]
    cases moved : c.next? with
    | none =>
      have done := (next?_eq_none_iff c).mp moved
      simp [done]
    | some step =>
      obtain ⟨v, c'⟩ := step
      obtain ⟨split, remaining⟩ := next?_eq_some moved
      obtain ⟨values, rest, left⟩ := ih c'
      simp only [split, values, rest, left, remaining, List.take_succ_cons, List.drop_succ_cons, List.length_cons]
      refine ⟨trivial, trivial, ?_⟩
      omega

end Cursor

theorem Trie.rest_cursor (t : Trie α) : t.cursor.rest = t.toList := (Node.toList_eq t.root).symm

/-- A whole walk over a trie whose values are counted gives them all and has no more to give. -/
theorem Trie.take_cursor {t : Trie α} (size : t.size = t.root.count) :
    (t.cursor.take t.size).1 = t.toList ∧ (t.cursor.take t.size).2.next? = none := by
  have all : t.toList.length = t.size := (Node.length_toList t.root).trans size.symm
  obtain ⟨values, rest, -⟩ := Cursor.take_spec t.size t.cursor
  rw [t.rest_cursor] at values rest
  refine ⟨?_, ?_⟩
  · rw [values, ← all, List.take_length]
  · rw [Cursor.next?_eq_none_iff, rest, ← all, List.drop_length]

end TrieArchive
