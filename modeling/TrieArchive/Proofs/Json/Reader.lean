import TrieArchive.Json.Reader
import TrieArchive.Proofs.Readers

/-! How reading JSON goes on, step by step. -/
namespace TrieArchive.Json

/-- The bytes that may follow a value: none, a comma or a closing bracket. -/
def Ends (rest : Bytes) : Prop := ∀ b ∈ rest.head?, b = 0x2c ∨ b = 0x5d ∨ b = 0x7d

theorem ends_nil : Ends [] := fun _ member => nomatch member

theorem ends_comma (rest : Bytes) : Ends (0x2c :: rest) := fun _ member => .inl (Option.some.inj member).symm

theorem ends_list (rest : Bytes) : Ends (0x5d :: rest) := fun _ member => .inr (.inl (Option.some.inj member).symm)

theorem ends_object (rest : Bytes) : Ends (0x7d :: rest) := fun _ member => .inr (.inr (Option.some.inj member).symm)

namespace Reader

variable {α β : Type}

/-- The reader takes a text for a value, whatever may follow it. -/
def Reads (r : Reader α) (text : Bytes) (a : α) : Prop :=
  ∀ rest, Ends rest → r.run (text ++ rest) = .ok (a, rest)

section Steps

variable (b : UInt8) (s : Bytes)

@[simp] theorem run_peek_bind (f : Option UInt8 → Reader α) : (peek >>= f).run s = (f s.head?).run s := rfl

@[simp] theorem run_next_bind (f : UInt8 → Reader α) : (next >>= f).run (b :: s) = (f b).run s := rfl

@[simp] theorem run_skip_bind (f : Unit → Reader α) : (skip >>= f).run s = (f ()).run s.tail := rfl

@[simp] theorem run_skip : skip.run s = .ok ((), s.tail) := rfl

/-- What does not start with a blank is started at once. -/
theorem run_start_bind (printed : isBlank b = false) (f : UInt8 → Reader α) :
    (start >>= f).run (b :: s) = (f b).run (b :: s) := by
  have stays : (b :: s).dropWhile isBlank = b :: s := List.dropWhile_cons_of_neg (by simp [printed])
  have blanks : skipBlanks.run (b :: s) = .ok ((), b :: s) := congrArg (fun s => Except.ok ((), s)) stays
  have here : start.run (b :: s) = .ok (b, b :: s) := Reading.run_bind_of_ok blanks _
  exact Reading.run_bind_of_ok here f

theorem run_word (w s : Bytes) : (word w).run (w ++ s) = .ok ((), s) := by
  induction w with
  | nil => rfl
  | cons b rest ih =>
    rw [word, List.cons_append, run_next_bind, if_neg (not_not.mpr rfl)]
    exact ih

end Steps

end Reader

end TrieArchive.Json
