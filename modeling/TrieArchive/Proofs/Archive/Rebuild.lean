import TrieArchive.Archive.Load
import Mathlib.Tactic.Common

/-! Statements about computations that rebuild nodes. `Keeps` holds of every outcome, and `Succeeds` says
besides that there is an answer. In both the cache stays in order. `Fails` says with which error they end. -/
namespace TrieArchive

theorem Cache.get?_insert {α : Type} (cache : Cache α) (id other : Id) (placed : Placed α) :
    (cache.insert id placed).get? other = if other = id then some placed else cache.get? other := by
  rw [Std.ExtTreeMap.get?_eq_getElem?, Std.ExtTreeMap.getElem?_insert]
  have matched : compare id other = .eq ↔ other = id := Std.LawfulEqOrd.compare_eq_iff_eq.trans eq_comm
  simp only [matched]
  rfl

/-- What holds of all entries and of a new one holds after it is added. -/
theorem Cache.forall_insert {α : Type} {P : Id → Placed α → Prop} {cache : Cache α} {id : Id} {placed : Placed α}
    (all : ∀ id p, cache.get? id = some p → P id p) (new : P id placed) :
    ∀ other p, (cache.insert id placed).get? other = some p → P other p := by
  intro other p found
  rw [get?_insert] at found
  split at found
  next same => cases found; exact same ▸ new
  next => exact all other p found

namespace Rebuild

variable {α β γ : Type} {I : Cache α → Prop}

section Steps

variable {n : Type → Type} [Monad n] [LawfulMonad n]

@[simp] theorem throw_bind (e : LoadError) (f : β → RebuildIn n γ) : (throw e : RebuildIn n β) >>= f = throw e :=
  ExceptT.ext (by simp)

@[simp] theorem reject_bind (what : Corruption) (f : β → RebuildIn n γ) : reject what >>= f = reject what :=
  throw_bind _ f

end Steps

section Reckoning

variable {σ κ : Type} {S : Scheme α κ}

@[simp] theorem repeatsKey_bind [BEq κ] (values : List α) (f : Bool → RebuildIn (StateM σ) β) :
    ExceptT.lift (Reckoning.repeatsKey S values) >>= f = f (repeatsKey S values) := rfl

@[simp] theorem inSlots_bind (depth path : Nat) (datamap : UInt32) (values : List α)
    (f : Bool → RebuildIn (StateM σ) β) :
    ExceptT.lift (Reckoning.inSlots S depth path datamap values) >>= f = f (inSlots S depth path datamap values) := rfl

@[simp] theorem deeper_bind (depth path slot : Nat) (f : Option Nat → RebuildIn (StateM σ) β) :
    ExceptT.lift (Reckoning.deeper depth path slot) >>= f = f (deeper depth path slot) := rfl

/-- The path through the slot is checked first. -/
theorem child_eq (below : (path : Nat) → Id → RebuildIn (StateM σ) (Placed α)) (id : Id) (depth path slot : Nat)
    (childId : Id) : child below id depth path slot childId =
      if 2 ^ 64 ≤ path + slot * 2 ^ shiftAt depth then reject (.slotBeyondHash id)
      else do
        let placed ← below (path + slot * 2 ^ shiftAt depth) childId
        if placed.count < 2 then reject (.smallSubtree id placed.count) else return placed := by
  rw [child, deeper_bind, deeper]
  by_cases long : 2 ^ 64 ≤ path + slot * 2 ^ shiftAt depth
  · simp only [if_pos long]
  · simp only [if_neg long, reject_bind]

end Reckoning

theorem run_bind {σ : Type} (m : ExceptT LoadError (StateM σ) β) (f : β → ExceptT LoadError (StateM σ) γ) (s : σ) :
    (m >>= f).run.run s = match m.run.run s with
      | (.ok b, s) => (f b).run.run s
      | (.error e, s) => (.error e, s) := by
  simp only [ExceptT.run_bind, StateT.run_bind]
  change (match (m.run.run s) with | (r, s) => _) = _
  rcases m.run.run s with ⟨_ | b, s⟩ <;> rfl

theorem run_remembered_bind (id : Id) (f : Option (Placed α) → Rebuild α β) (cache : Cache α) :
    (ExceptT.lift (Memory.remembered id) >>= f).run.run cache = (f (cache.get? id)).run.run cache := rfl

/-- Whatever happens, `I` still holds of the cache, and an answer satisfies `Q`. -/
def Keeps (I : Cache α → Prop) (m : Rebuild α β) (Q : β → Prop) : Prop :=
  ∀ cache, I cache → I (m.run.run cache).2 ∧ ∀ b, (m.run.run cache).1 = .ok b → Q b

/-- There is an answer, which satisfies `Q`, and `I` still holds of the cache. -/
def Succeeds (I : Cache α → Prop) (m : Rebuild α β) (Q : β → Prop) : Prop :=
  ∀ cache, I cache → I (m.run.run cache).2 ∧ ∃ b, (m.run.run cache).1 = .ok b ∧ Q b

namespace Keeps

variable {Q : β → Prop}

theorem pure {b : β} (h : Q b) : Keeps I (Pure.pure b) Q := by
  intro cache inv
  refine ⟨inv, fun b' same => ?_⟩
  cases same
  exact h

theorem throw (e : LoadError) : Keeps I (MonadExcept.throw e : Rebuild α β) Q :=
  fun _ inv => ⟨inv, fun _ same => nomatch same⟩

theorem reject (what : Corruption) : Keeps I (Rebuild.reject what : Rebuild α β) Q := throw _

theorem bind {m : Rebuild α β} {f : β → Rebuild α γ} {R : γ → Prop} (first : Keeps I m Q)
    (rest : ∀ b, Q b → Keeps I (f b) R) : Keeps I (m >>= f) R := by
  intro cache inv
  have after := first cache inv
  rw [run_bind]
  rcases run : m.run.run cache with ⟨_ | b, cache'⟩
  all_goals rw [run] at after
  · exact ⟨after.1, fun _ same => nomatch same⟩
  · exact rest b (after.2 b rfl) cache' after.1

/-- A check that fails rejects. -/
theorem check {c : Prop} [Decidable c] {what : Corruption} {m : Rebuild α β} (rest : ¬c → Keeps I m Q) :
    Keeps I (if c then Rebuild.reject what else m) Q := by
  split
  · exact reject what
  · exact rest ‹_›

theorem remembered {id : Id} {f : Option (Placed α) → Rebuild α β}
    (each : ∀ cache, I cache → Keeps I (f (cache.get? id)) Q) :
    Keeps I (ExceptT.lift (Memory.remembered id) >>= f) Q := fun cache inv => each cache inv cache inv

theorem store {id : Id} {placed : Placed α} {Q : Placed α → Prop}
    (kept : ∀ cache, I cache → I (cache.insert id placed)) (h : Q placed) :
    Keeps I (do ExceptT.lift (Memory.keep id placed); return placed) Q := by
  intro cache inv
  refine ⟨kept cache inv, fun b same => ?_⟩
  cases same
  exact h

theorem mapM {f : β → Rebuild α γ} {R : β → γ → Prop} (items : List β)
    (each : ∀ b ∈ items, Keeps I (f b) (R b)) : Keeps I (items.mapM f) (List.Forall₂ R items) := by
  induction items with
  | nil => exact pure .nil
  | cons b rest ih =>
    rw [List.mapM_cons]
    refine bind (each b List.mem_cons_self) fun c first => ?_
    refine bind (ih fun b' member => each b' (List.mem_cons_of_mem _ member)) fun cs others => ?_
    exact pure (.cons first others)

end Keeps

namespace Succeeds

variable {Q : β → Prop}

theorem pure {b : β} (h : Q b) : Succeeds I (Pure.pure b) Q := fun _ inv => ⟨inv, b, rfl, h⟩

theorem bind {m : Rebuild α β} {f : β → Rebuild α γ} {R : γ → Prop} (first : Succeeds I m Q)
    (rest : ∀ b, Q b → Succeeds I (f b) R) : Succeeds I (m >>= f) R := by
  intro cache inv
  obtain ⟨inv', b, same, h⟩ := first cache inv
  rw [run_bind]
  rcases run : m.run.run cache with ⟨_ | b', cache'⟩
  · rw [run] at same
    cases same
  · rw [run] at same inv'
    cases same
    exact rest b h cache' inv'

/-- A check that passes is gone through. -/
theorem check {c : Prop} [Decidable c] {what : Corruption} {m : Rebuild α β} (passed : ¬c)
    (rest : Succeeds I m Q) : Succeeds I (if c then Rebuild.reject what else m) Q := by
  rwa [if_neg passed]

theorem remembered {id : Id} {f : Option (Placed α) → Rebuild α β}
    (each : ∀ cache, I cache → Succeeds I (f (cache.get? id)) Q) :
    Succeeds I (ExceptT.lift (Memory.remembered id) >>= f) Q := fun cache inv => each cache inv cache inv

theorem store {id : Id} {placed : Placed α} {Q : Placed α → Prop}
    (kept : ∀ cache, I cache → I (cache.insert id placed)) (h : Q placed) :
    Succeeds I (do ExceptT.lift (Memory.keep id placed); return placed) Q :=
  fun cache inv => ⟨kept cache inv, placed, rfl, h⟩

theorem mapM {f : β → Rebuild α γ} {R : β → γ → Prop} (items : List β)
    (each : ∀ b ∈ items, Succeeds I (f b) (R b)) : Succeeds I (items.mapM f) (List.Forall₂ R items) := by
  induction items with
  | nil => exact pure .nil
  | cons b rest ih =>
    rw [List.mapM_cons]
    refine bind (each b List.mem_cons_self) fun c first => ?_
    refine bind (ih fun b' member => each b' (List.mem_cons_of_mem _ member)) fun cs others => ?_
    exact pure (.cons first others)

end Succeeds

/-- There is no answer but this error. -/
def Fails (I : Cache α → Prop) (m : Rebuild α β) (e : LoadError) : Prop :=
  ∀ cache, I cache → (m.run.run cache).1 = .error e

namespace Fails

variable {e : LoadError}

theorem throw (e : LoadError) : Fails I (MonadExcept.throw e : Rebuild α β) e := fun _ _ => rfl

theorem bind {m : Rebuild α β} (first : Fails I m e) (f : β → Rebuild α γ) : Fails I (m >>= f) e := by
  intro cache inv
  have failed := first cache inv
  rw [run_bind]
  rcases run : m.run.run cache with ⟨e' | b, cache'⟩ <;> rw [run] at failed
  · obtain rfl : e' = e := Except.error.inj failed
    rfl
  · cases failed

/-- What fails behind an answer fails as a whole. -/
theorem bind_of_succeeds {m : Rebuild α β} {f : β → Rebuild α γ} {Q : β → Prop} (first : Succeeds I m Q)
    (rest : ∀ b, Q b → Fails I (f b) e) : Fails I (m >>= f) e := by
  intro cache inv
  obtain ⟨inv', b, same, h⟩ := first cache inv
  rw [run_bind]
  rcases run : m.run.run cache with ⟨_ | b', cache'⟩ <;> rw [run] at same inv'
  · cases same
  · cases same
    exact rest b h cache' inv'

/-- A check that passes is gone through. -/
theorem check {c : Prop} [Decidable c] {what : Corruption} {m : Rebuild α β} (passed : ¬c) (rest : Fails I m e) :
    Fails I (if c then Rebuild.reject what else m) e := by
  rwa [if_neg passed]

theorem remembered {id : Id} {f : Option (Placed α) → Rebuild α β}
    (each : ∀ cache, I cache → Fails I (f (cache.get? id)) e) :
    Fails I (ExceptT.lift (Memory.remembered id) >>= f) e := fun cache inv => each cache inv cache inv

/-- The first item that fails decides, whatever comes behind it. -/
theorem mapM {f : β → Rebuild α γ} {R : β → γ → Prop} {before : List β} {b : β}
    (each : ∀ b' ∈ before, Succeeds I (f b') (R b')) (here : Fails I (f b) e) (behind : List β) :
    Fails I ((before ++ b :: behind).mapM f) e := by
  induction before with
  | nil =>
    rw [List.nil_append, List.mapM_cons]
    exact here.bind _
  | cons first before ih =>
    rw [List.cons_append, List.mapM_cons]
    refine bind_of_succeeds (each first List.mem_cons_self) fun _ _ => bind ?_ _
    exact ih fun b' member => each b' (List.mem_cons_of_mem _ member)

end Fails

end Rebuild

end TrieArchive
