import TrieArchive.Cli.Directory

/-! Files that are read after they were written. A path at which a file can be made leads to that file whatever else
there is, so what was written there is found there. Of what could not be written to its end a front is found. -/
namespace TrieArchive

theorem Except.ite_error_eq_ok_iff {ε α : Type} {p : Prop} [Decidable p] {e : ε} {m : Except ε α} {a : α} :
    (if p then .error e else m) = .ok a ↔ ¬ p ∧ m = .ok a := by
  by_cases holds : p <;> simp [holds]

namespace Cli

/-- Once it is open, the file takes all that is written to it. -/
structure Faults.Stores (f : Faults) : Prop where
  write : f.write = .none
  sync : f.sync = .none

namespace Directory

variable {d d' : Directory} {target : Target} {path : String} {bytes : Bytes}

/-- Of a path only its end depends on what files there are, and then it leads nowhere. -/
theorem follow_of_making {up : Nat} {parts : List String} (found : d.follow true up parts = .ok target)
    (making : Bool) : d'.follow making up parts = .ok target := by
  induction parts generalizing up with
  | nil => rwa [follow] at found ⊢
  | cons part rest ih =>
    rw [follow] at found ⊢
    by_cases plain : part = "" ∨ part = "."
    · rw [if_pos plain] at found ⊢
      exact ih found
    · rw [if_neg plain] at found ⊢
      by_cases parent : part = ".."
      · rw [if_pos parent] at found ⊢
        exact ih found
      · rw [if_neg parent] at found ⊢
        -- what is left is a name, and names with something behind them are refused
        obtain ⟨noSlash, found⟩ := Except.ite_error_eq_ok_iff.mp found
        obtain ⟨short, found⟩ := Except.ite_error_eq_ok_iff.mp found
        refine Except.ite_error_eq_ok_iff.mpr ⟨fun slash => noSlash ⟨rfl, slash.2⟩, ?_⟩
        refine Except.ite_error_eq_ok_iff.mpr ⟨short, ?_⟩
        by_cases last : rest.isEmpty
        · rw [if_pos last] at found ⊢
          exact found
        · rw [if_neg last] at found
          cases found

theorem locate_of_making (found : d.locate true path = .ok target) (making : Bool) :
    d'.locate making path = .ok target := by
  unfold locate at found ⊢
  split at found
  · cases found
  · next short =>
    rw [if_neg short]
    split at found
    · exact found
    · exact follow_of_making found making

/-- What was put in a place is read. -/
theorem stored_insert {place : String} (found : d.locate true path = .ok (.place place)) (bytes : Bytes) :
    Directory.stored (d.insert place bytes) path = .content bytes := by
  rw [stored, locate_of_making found]
  simp

/-- Where a file can be made, there is one or there is nothing. -/
theorem stored_of_place {place : String} (found : d.locate true path = .ok (.place place)) :
    (∃ bytes, d.stored path = .content bytes) ∨ d.stored path = .absent .notFound := by
  rw [stored, locate_of_making found]
  dsimp only
  cases d.get? place with
  | some bytes => exact .inl ⟨bytes, rfl⟩
  | none => exact .inr rfl

section Faulty

variable {f : Faults}

/-- A call finds what there is, or nothing that it can read. -/
theorem found_cases (f : Faults) (path : String) :
    d.found f path = d.stored path ∨ ∃ fault, d.found f path = .unreadable fault := by
  unfold found
  split
  · exact .inr ⟨_, rfl⟩
  · exact .inl rfl

theorem found_of_read (read : f.read = none) (path : String) : d.found f path = d.stored path := by
  unfold found
  split
  next some => cases some.symm.trans read
  next => rfl

/-- All that can come of writing a file: the files are as they were, or some front of what was to be written is in the
file's place. -/
theorem write_cases (d : Directory) (f : Faults) (path : String) (bytes : Bytes) :
    (∃ fault, d.write f path bytes = (.error fault, d)) ∨
    ∃ place front, d.locate true path = .ok (.place place) ∧ (d.write f path bytes).2 = d.insert place front ∧
      front <+: bytes ∧ (f.write = none ∨ (d.write f path bytes).1 = .ok () → front = bytes) ∧
      (f.Stores → (d.write f path bytes).1 = .ok ()) := by
  unfold write
  split
  · exact .inl ⟨_, rfl⟩
  · exact .inl ⟨_, rfl⟩
  · next place found =>
    split
    next => exact .inl ⟨_, rfl⟩
    next count fault _ cut =>
      refine .inr ⟨place, _, found, rfl, List.take_prefix .., ?_, fun stores => ?_⟩
      · rintro (whole | done)
        · cases cut.symm.trans whole
        · cases done
      · cases cut.symm.trans stores.write
    next fault _ _ late =>
      exact .inr ⟨place, _, found, rfl, List.prefix_rfl, fun _ => rfl, fun stores => nomatch late.symm.trans stores.sync⟩
    next => exact .inr ⟨place, _, found, rfl, List.prefix_rfl, fun _ => rfl, fun _ => rfl⟩

end Faulty

end Directory

end Cli

end TrieArchive
