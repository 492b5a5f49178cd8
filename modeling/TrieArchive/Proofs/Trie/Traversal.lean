import TrieArchive.Proofs.Trie.Iteration

/-! A cursor over any node, well-formed or not, is as good as the listing of its values: every call gives the next one, all
calls behind the last give nothing, and at any time the cursor says exactly how many values are still to come. -/
namespace TrieArchive

variable {α : Type}

namespace Cursor

/-- The answers to so many calls in a row, and the cursor behind them. -/
def calls : (count : Nat) → Cursor α → List (Option α) × Cursor α
  | 0, c => ([], c)
  | count + 1, c =>
    let (answer, c) := c.next
    let (answers, c) := calls count c
    (answer :: answers, c)

/-- What so many calls in a row should answer where these values are to come. -/
def answersOf (count : Nat) (values : List α) : List (Option α) :=
  (values.take count).map some ++ List.replicate (count - values.length) none

theorem answersOf_succ (count : Nat) (values : List α) :
    answersOf (count + 1) values = values.head? :: answersOf count values.tail := by
  cases values with
  | nil => simp [answersOf, List.replicate_succ]
  | cons v rest => simp [answersOf]

/-- The cursor says how many values are still to come. -/
def Counted (c : Cursor α) : Prop := c.remaining = c.rest.length

/-- A call gives the first of the values still to come and leaves the others. -/
theorem next_eq (c : Cursor α) : c.next.1 = c.rest.head? ∧ c.next.2.rest = c.rest.tail := by
  rw [next]
  cases moved : c.next? with
  | none =>
    have ended := (next?_eq_none_iff c).mp moved
    rw [ended]
    exact ⟨rfl, rfl⟩
  | some step =>
    obtain ⟨v, c'⟩ := step
    obtain ⟨split, -⟩ := next?_eq_some moved
    rw [split]
    exact ⟨rfl, rfl⟩

theorem Counted.next {c : Cursor α} (counted : c.Counted) : c.next.2.Counted := by
  rw [Counted] at counted
  rw [Counted, (next_eq c).2, Cursor.next, List.length_tail, ← counted]
  cases moved : c.next? with
  | none =>
    have ended := (next?_eq_none_iff c).mp moved
    rw [ended] at counted
    exact counted.trans (by simp [counted])
  | some step => exact (next?_eq_some moved).2

/-- Calls in a row give the values still to come, one after another, and leave what comes behind them. -/
theorem calls_eq (count : Nat) (c : Cursor α) :
    (c.calls count).1 = answersOf count c.rest ∧ (c.calls count).2.rest = c.rest.drop count := by
  induction count generalizing c with
  | zero => simp [calls, answersOf]
  | succ count ih =>
    obtain ⟨first, left⟩ := next_eq c
    obtain ⟨answers, behind⟩ := ih c.next.2
    rw [calls, answersOf_succ, ← first, ← left]
    refine ⟨congrArg _ answers, behind.trans ?_⟩
    rw [left, ← List.drop_one, List.drop_drop, Nat.add_comm]

theorem Counted.calls {c : Cursor α} (counted : c.Counted) (count : Nat) : (c.calls count).2.Counted := by
  induction count generalizing c with
  | zero => exact counted
  | succ count ih => exact ih counted.next

end Cursor

/-- The cursor of a trie counts down from the size of the trie. -/
theorem Trie.counted_cursor {t : Trie α} (counts : t.size = t.toList.length) : t.cursor.Counted := by
  rw [Cursor.Counted, rest_cursor]
  exact counts

open Cursor in
/-- Any number of calls over any node gives the values that its listing starts with and, when these run out, nothing. The
cursor then announces as many values as the listing has behind them, and these are what later calls give. -/
theorem cursor_lists_values (root : Node α) (count : Nat) :
    root.toList.length = root.count ∧
    ((Trie.ofRoot root).cursor.calls count).1 =
      (root.toList.take count).map some ++ List.replicate (count - root.count) none ∧
    ((Trie.ofRoot root).cursor.calls count).2.sizeHint =
      ((root.toList.drop count).length, some (root.toList.drop count).length) ∧
    ∀ more, (((Trie.ofRoot root).cursor.calls count).2.calls more).1 =
      ((root.toList.drop count).take more).map some ++ List.replicate (more - (root.toList.drop count).length) none := by
  have listed : (Trie.ofRoot root).cursor.rest = root.toList := Trie.rest_cursor _
  have length := Node.length_toList root
  obtain ⟨answers, behind⟩ := calls_eq count (Trie.ofRoot root).cursor
  have counted := (Trie.counted_cursor (t := Trie.ofRoot root) length.symm).calls count
  rw [listed] at answers behind
  rw [Counted, behind] at counted
  refine ⟨length, ?_, ?_, fun more => ?_⟩
  · rw [answers, answersOf, length]
  · rw [sizeHint, counted]
  · rw [(calls_eq more _).1, behind, answersOf]

end TrieArchive
