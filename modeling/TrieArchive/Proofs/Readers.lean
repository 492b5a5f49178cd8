import Mathlib.Tactic.Common
import TrieArchive.Bytes

/-! Readers take a value from the front of what is left, or fail. They are followed step by step here. -/
namespace TrieArchive.Reading

variable {σ ε α β : Type} {x : StateT σ (Except ε) α} {a : α} {s r : σ}

theorem run_bind_of_ok (first : x.run s = .ok (a, r)) (f : α → StateT σ (Except ε) β) :
    (x >>= f).run s = (f a).run r := by
  rw [StateT.run_bind, first]
  rfl

theorem run_bind_of_error {e : ε} (first : x.run s = .error e) (f : α → StateT σ (Except ε) β) :
    (x >>= f).run s = .error e := by
  rw [StateT.run_bind, first]
  rfl

theorem run_map_of_ok (first : x.run s = .ok (a, r)) (f : α → β) : (f <$> x).run s = .ok (f a, r) := by
  rw [StateT.run_map, first]
  rfl

section Steps

variable (s r : σ)

@[simp] theorem run_pure (a : α) : (pure a : StateT σ (Except ε) α).run s = .ok (a, s) := rfl

@[simp] theorem run_pure_bind (a : α) (f : α → StateT σ (Except ε) β) : (pure a >>= f).run s = (f a).run s := rfl

@[simp] theorem run_get_bind (f : σ → StateT σ (Except ε) β) : (get >>= f).run s = (f s).run s := rfl

@[simp] theorem run_set_bind (f : PUnit → StateT σ (Except ε) β) : (set r >>= f).run s = (f ⟨⟩).run r := rfl

@[simp] theorem run_modify_bind (g : σ → σ) (f : PUnit → StateT σ (Except ε) β) :
    (modify g >>= f).run s = (f ⟨⟩).run (g s) := rfl

end Steps

/-- A front of two lists, one behind the other, ends in the first or reaches into the second. -/
theorem prefix_append_cases {front first second : List α} (part : front <+: first ++ second) :
    (front <+: first ∧ front ≠ first) ∨ ∃ rest, front = first ++ rest ∧ rest <+: second := by
  rcases List.prefix_or_prefix_of_prefix part (List.prefix_append first second) with inside | ⟨rest, rfl⟩
  · by_cases whole : front = first
    · exact .inr ⟨[], by simp [whole], List.nil_prefix⟩
    · exact .inl ⟨inside, whole⟩
  · exact .inr ⟨rest, rfl, (List.prefix_append_right_inj first).mp part⟩

end TrieArchive.Reading
