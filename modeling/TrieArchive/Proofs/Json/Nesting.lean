import TrieArchive.Json.Form
import TrieArchive.Proofs.Readers

/-! Readers that may open fewer brackets. Such a reader answers what one that may open more answers, unless it comes to a
bracket that only the other one may open. -/
namespace TrieArchive.Json.Reader

open Reading

variable {α β σ : Type}

/-- The reader answers like the other one or is stopped at a bracket. -/
def Narrows (r wider : Reader α) : Prop := ∀ s, r.run s = wider.run s ∨ r.run s = .error .malformed

/-- All that more brackets change is where the reader is stopped. -/
def Narrowing (r : (depth : Nat) → Reader α) : Prop := ∀ ⦃depth wider : Nat⦄, depth ≤ wider → Narrows (r depth) (r wider)

namespace Narrows

variable {r r' : Reader α}

theorem refl (r : Reader α) : Narrows r r := fun _ => .inl rfl

theorem bind (narrows : Narrows r r') {f f' : α → Reader β} (each : ∀ a, Narrows (f a) (f' a)) :
    Narrows (r >>= f) (r' >>= f') := by
  intro s
  rcases narrows s with same | stopped
  · cases ran : r'.run s with
    | error fault => exact .inl ((run_bind_of_error (same.trans ran) f).trans (run_bind_of_error ran f').symm)
    | ok found =>
      rw [run_bind_of_ok (same.trans ran), run_bind_of_ok ran]
      exact each found.1 found.2
  · exact .inr (run_bind_of_error stopped f)

theorem after (r : Reader α) {f f' : α → Reader β} (each : ∀ a, Narrows (f a) (f' a)) :
    Narrows (r >>= f) (r >>= f') := (refl r).bind each

theorem map (narrows : Narrows r r') (f : α → β) : Narrows (f <$> r) (f <$> r') := by
  rw [← bind_pure_comp, ← bind_pure_comp]
  exact narrows.bind fun _ => .refl _

theorem ite {p : Prop} [Decidable p] {a a' b b' : Reader α} (here : Narrows a a') (there : Narrows b b') :
    Narrows (if p then a else b) (if p then a' else b') := by
  by_cases holds : p
  · rwa [if_pos holds, if_pos holds]
  · rwa [if_neg holds, if_neg holds]

theorem nested {depth wider : Nat} (le : depth ≤ wider) {inside : (depth : Nat) → Reader α} (narrowing : Narrowing inside) :
    Narrows (nested depth inside) (nested wider inside) := by
  rcases depth with _ | depth
  · exact fun _ => .inr rfl
  · rcases wider with _ | wider
    · contradiction
    · exact narrowing (Nat.le_of_succ_le_succ le)

/-- What the wider reader ends with where the other one is stopped. -/
theorem document (narrows : Narrows r r') {s : Bytes} {fault : Fault} (refused : Reader.document r' s = .error fault) :
    Reader.document r s = .error fault ∨ Reader.document r s = .error .malformed := by
  rcases narrows s with same | stopped
  · left
    rw [Reader.document, same]
    exact refused
  · right
    rw [Reader.document, stopped]
    rfl

end Narrows

section Lists

variable {item : (depth : Nat) → Reader α} {r r' : Reader α}

theorem Narrows.items (narrows : Narrows r r') (bound : Bytes) (first : Bool) :
    Narrows (items r bound first) (items r' bound first) := by
  induction bound generalizing first with
  | nil => exact .refl _
  | cons _ bound ih =>
    exact .after _ fun more => .ite (narrows.bind fun _ => (ih false).bind fun _ => .refl _) (.refl _)

theorem Narrowing.list (narrowing : Narrowing item) : Narrowing (list item) := fun _ _ le =>
  .after _ fun _ => .ite (.nested le fun _ _ le => .after _ fun _ => .after _ fun bound =>
    ((narrowing le).items bound true).bind fun _ => .refl _) (.refl _)

theorem Narrows.required (narrows : Narrows r r') (first : Bool) : Narrows (required first r) (required first r') :=
  .after _ fun _ => .ite narrows (.refl _)

theorem Narrowing.pair {other : (depth : Nat) → Reader β} (one : Narrowing item) (two : Narrowing other) :
    Narrowing (pair item other) := fun _ _ le =>
  .after _ fun _ => .ite (.nested le fun _ _ le => .after _ fun _ => ((one le).required true).bind fun _ =>
    ((two le).required false).bind fun _ => .refl _) (.refl _)

end Lists

section Objects

variable {key : String → Option α} {value : (depth : Nat) → Reader β} {r r' : Reader β}

theorem Narrows.members (narrows : Narrows r r') (bound : Bytes) (first : Bool) :
    Narrows (members key r bound first) (members key r' bound first) := by
  induction bound generalizing first with
  | nil => exact .refl _
  | cons _ bound ih =>
    refine .after _ fun more => .ite (.after _ fun name => ?_) (.refl _)
    cases key name with
    | none => exact .refl _
    | some a => exact .after _ fun _ => narrows.bind fun _ => (ih false).bind fun _ => .refl _

theorem Narrowing.object (narrowing : Narrowing value) : Narrowing (object key value) := fun _ _ le =>
  .after _ fun _ => .ite (.nested le fun _ _ le => .after _ fun _ => .after _ fun bound =>
    ((narrowing le).members bound true).bind fun _ => .refl _) (.refl _)

end Objects

section Records

/-- Fields that differ in how many brackets may be opened for them. -/
structure Field.Narrows (field wider : Field σ) : Prop where
  name : field.name = wider.name
  filled : field.filled = wider.filled
  fill : ∀ s, Reader.Narrows (field.fill s) (wider.fill s)

variable {known known' : List (Field σ)}

theorem find?_narrows (narrows : List.Forall₂ Field.Narrows known known') (name : String) :
    Option.Rel Field.Narrows (known.find? (·.name == name)) (known'.find? (·.name == name)) := by
  induction narrows with
  | nil => exact .none
  | @cons field wider _ _ here _ ih =>
    rw [List.find?_cons, List.find?_cons, here.name]
    cases wider.name == name with
    | true => exact .some here
    | false => exact ih

theorem narrows_fields (narrows : List.Forall₂ Field.Narrows known known') (bound : Bytes) (first : Bool) (s : σ) :
    Narrows (fields known bound first s) (fields known' bound first s) := by
  induction bound generalizing first s with
  | nil => exact .refl _
  | cons _ bound ih =>
    refine .after _ fun more => .ite (.after _ fun name => ?_) (.refl _)
    have same := find?_narrows narrows name
    revert same
    generalize known.find? (·.name == name) = field, known'.find? (·.name == name) = wider
    rintro (here | _)
    case none => exact .after _ fun _ => .after _ fun _ => ih false s
    case some =>
      dsimp only
      rw [here.filled]
      have later := Narrows.after colon fun _ => (here.fill s).bind fun s => ih false s
      exact .ite (.after _ fun _ => later) later

theorem narrows_positional (narrows : List.Forall₂ Field.Narrows known known') (first : Bool) (s : σ) :
    Narrows (positional known first s) (positional known' first s) := by
  induction narrows generalizing first s with
  | nil => exact .refl _
  | cons here _ ih => exact ((here.fill s).required first).bind fun s => ih false s

theorem narrowing_record {known : (depth : Nat) → List (Field σ)}
    (narrows : ∀ ⦃depth wider⦄, depth ≤ wider → List.Forall₂ Field.Narrows (known depth) (known wider)) (unfilled : σ)
    (finish : σ → Option α) : Narrowing (record known unfilled finish) := fun _ _ le =>
  .after _ fun _ => .ite
    (.nested le fun _ _ le => .after _ fun _ => (narrows_positional (narrows le) true unfilled).bind fun _ => .refl _)
    (.ite (.nested le fun _ _ le => .after _ fun _ => .after _ fun bound =>
      (narrows_fields (narrows le) bound true unfilled).bind fun _ => .refl _) (.refl _))

end Records

section Alternatives

/-- Alternatives that differ in how many brackets may be opened in them. -/
structure Case.Narrows (c wider : Case α) : Prop where
  name : c.name = wider.name
  alone : c.alone = wider.alone
  content : Reader.Narrows c.content wider.content

theorem Case.Narrows.refl (c : Case α) : Case.Narrows c c := ⟨rfl, rfl, .refl _⟩

variable {known known' : List (Case α)}

theorem findCase?_narrows (narrows : List.Forall₂ Case.Narrows known known') (name : String) :
    Option.Rel Case.Narrows (known.find? (·.name == name)) (known'.find? (·.name == name)) := by
  induction narrows with
  | nil => exact .none
  | @cons c wider _ _ here _ ih =>
    rw [List.find?_cons, List.find?_cons, here.name]
    cases wider.name == name with
    | true => exact .some here
    | false => exact ih

theorem narrows_case {f f' : Case α → Reader β} (narrows : List.Forall₂ Case.Narrows known known') (name : String)
    (each : ∀ c c', Case.Narrows c c' → Reader.Narrows (f c) (f' c')) :
    Reader.Narrows (case? known name >>= f) (case? known' name >>= f') := by
  have same := findCase?_narrows narrows name
  unfold case?
  revert same
  generalize known.find? (·.name == name) = c, known'.find? (·.name == name) = wider
  rintro (here | _)
  · exact each _ _ here
  · exact .refl _

theorem narrowing_alternative {known : (depth : Nat) → List (Case α)}
    (narrows : ∀ ⦃depth wider⦄, depth ≤ wider → List.Forall₂ Case.Narrows (known depth) (known wider)) :
    Narrowing (alternative known) := fun _ _ le =>
  .after _ fun _ => .ite
    (.nested le fun _ _ le => .after _ fun _ => .after _ fun _ => .ite (.refl _) (.after _ fun name =>
      narrows_case (narrows le) name fun _ _ here => .after _ fun _ => here.content.bind fun _ => .refl _))
    (.ite (.after _ fun name => narrows_case (narrows le) name fun _ _ here => by rw [here.alone]; exact .refl _)
      (.refl _))

end Alternatives

end TrieArchive.Json.Reader
