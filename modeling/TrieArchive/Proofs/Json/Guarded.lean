import TrieArchive.Proofs.Json.Nesting
import TrieArchive.Proofs.Json.Truncation

/-! The JSON text of every value shows when it was cut short. This takes less than reading the value back: an optional
value that is written as `null` is read as absent, and still as nothing but its own text. -/
namespace TrieArchive

/-- Where its brackets may be opened, every text of a value is read as some value, and no part of one from its front
leaves bytes over. Where they may not, the reader is stopped at one of them. -/
class GuardedJsonForm (α : Type) [JsonForm α] : Prop where
  guards (a : α) {depth : Nat} (deep : (JsonForm.toJson a).depth ≤ depth) :
    (JsonForm.read depth : Json.Reader α).Guards (JsonForm.toJson a).compact
  narrowing : Json.Reader.Narrowing (JsonForm.read : (depth : Nat) → Json.Reader α)

namespace Json.Reader

/-- A field that takes a value of its own type, whatever value it is read as. -/
theorem Finishes.value {α β σ : Type} [JsonForm α] [GuardedJsonForm α] {known : List (Field σ)} {finish : σ → Option β}
    {name : String} {members : List (String × Json)} {field : Field σ} {s : σ} {a : α} {f : α → σ} {depth : Nat}
    (found : known.find? (·.name == name) = some field) (unfilled : field.filled s = false)
    (fill : field.fill s = JsonForm.read depth >>= fun a => pure (f a)) (deep : (JsonForm.toJson a).depth ≤ depth)
    (later : ∀ b, Finishes known finish members (f b)) :
    Finishes known finish ((name, JsonForm.toJson a) :: members) s := by
  have guards := GuardedJsonForm.guards a deep
  obtain ⟨b, read⟩ := guards.reads
  exact .cons found unfilled (fill ▸ read.bind_pure f) (fill ▸ guards.exhausts.bind_pure f) (later b)

/-- A field that takes a value of its own type is read alike but for the brackets in the value. -/
theorem Field.Narrows.value {α σ : Type} [JsonForm α] [GuardedJsonForm α] {name : String} {filled : σ → Bool}
    {f : σ → α → σ} {depth wider : Nat} (le : depth ≤ wider) :
    Field.Narrows ⟨name, filled, fun s => JsonForm.read depth >>= fun a => pure (f s a)⟩
      ⟨name, filled, fun s => JsonForm.read wider >>= fun a => pure (f s a)⟩ :=
  ⟨rfl, rfl, fun _ => (GuardedJsonForm.narrowing le).bind fun _ => .refl _⟩

end Json.Reader

namespace JsonForm

open Json Json.Reader

section Numbers

variable {α : Type} {max : Nat}

theorem guards_unsigned {n : Nat} (ofNat : Nat → α) (fits : n < max) (narrow : max ≤ 2 ^ 64) :
    Guards (ofNat <$> whole (max - 1)) (Json.num n).compact := by
  have low : n ≤ max - 1 := by omega
  exact Guards.map ⟨⟨n, reads_whole low (by omega)⟩, exhausts_whole low (by omega)⟩ ofNat

theorem guards_two_sided {i : Int} (ofInt : Int → α) (low : -(max : Int) ≤ i) (high : i < max) (narrow : max ≤ 2 ^ 63) :
    Guards (ofInt <$> signed (max - 1)) (Json.num i).compact := by
  have from_below : -((max - 1 : Nat) + 1 : Int) ≤ i := by omega
  have from_above : i ≤ (max - 1 : Nat) := by omega
  exact Guards.map ⟨⟨i, reads_signed from_below from_above (by omega)⟩,
    exhausts_signed from_below from_above (by omega)⟩ ofInt

end Numbers

instance : GuardedJsonForm UInt8 :=
  ⟨fun n _ _ => guards_unsigned UInt8.ofNat n.toNat_lt (by decide), fun _ _ _ => .refl _⟩

instance : GuardedJsonForm UInt16 :=
  ⟨fun n _ _ => guards_unsigned UInt16.ofNat n.toNat_lt (by decide), fun _ _ _ => .refl _⟩

instance : GuardedJsonForm UInt32 :=
  ⟨fun n _ _ => guards_unsigned UInt32.ofNat n.toNat_lt (by decide), fun _ _ _ => .refl _⟩

instance : GuardedJsonForm UInt64 :=
  ⟨fun n _ _ => guards_unsigned UInt64.ofNat n.toNat_lt (by decide), fun _ _ _ => .refl _⟩

instance : GuardedJsonForm Int8 :=
  ⟨fun n _ _ => guards_two_sided Int8.ofInt n.le_toInt n.toInt_lt (by decide), fun _ _ _ => .refl _⟩

instance : GuardedJsonForm Int16 :=
  ⟨fun n _ _ => guards_two_sided Int16.ofInt n.le_toInt n.toInt_lt (by decide), fun _ _ _ => .refl _⟩

instance : GuardedJsonForm Int32 :=
  ⟨fun n _ _ => guards_two_sided Int32.ofInt n.le_toInt n.toInt_lt (by decide), fun _ _ _ => .refl _⟩

instance : GuardedJsonForm Int64 :=
  ⟨fun n _ _ => guards_two_sided Int64.ofInt n.le_toInt n.toInt_lt (by decide), fun _ _ _ => .refl _⟩

instance : GuardedJsonForm Bool := ⟨fun b _ _ => guards_bool b, fun _ _ _ => .refl _⟩
instance : GuardedJsonForm Unit := ⟨fun _ _ _ => guards_null, fun _ _ _ => .refl _⟩

/-- What is read from a text alone is missed with it. -/
theorem guards_of_text {α : Type} {f : String → Json.Reader α} {text : String} {a : α}
    (reads : Reads (Reader.text >>= f) (Json.str text).compact a) :
    Guards (Reader.text >>= f) (Json.str text).compact :=
  ((starves_text text).bind f).guards reads

instance : GuardedJsonForm String :=
  ⟨fun text _ _ => (starves_text text).guards (reads_text text), fun _ _ _ => .refl _⟩

instance : GuardedJsonForm Char := ⟨fun c _ deep => guards_of_text (LawfulJsonForm.reads c deep), fun _ _ _ => .refl _⟩

variable {α β : Type} [JsonForm α] [JsonForm β]

/-- The word `null` is taken for an absent value even where it was written for one that is there. -/
theorem guards_absent {depth : Nat} : Guards (read depth : Json.Reader (Option α)) Json.null.compact :=
  .start (b := 0x6e) rfl (guards_null.bind_pure fun _ => none)

variable [GuardedJsonForm α] [GuardedJsonForm β]

instance : GuardedJsonForm (List α) where
  guards l depth deep := by
    obtain ⟨depth, rfl, inside⟩ := exists_inside_arr deep
    exact guards_list fun a member => GuardedJsonForm.guards a (inside _ (List.mem_map_of_mem member))
  narrowing := GuardedJsonForm.narrowing.list

instance : GuardedJsonForm (α × β) where
  guards p depth deep := by
    obtain ⟨depth, rfl, inside⟩ := exists_inside_arr deep
    exact guards_pair (GuardedJsonForm.guards p.1 (inside _ (.head _)))
      (GuardedJsonForm.guards p.2 (inside _ (.tail _ (.head _))))
  narrowing := GuardedJsonForm.narrowing.pair GuardedJsonForm.narrowing

instance : GuardedJsonForm (Option α) where
  guards o depth deep := by
    cases o with
    | none => exact guards_absent
    | some a =>
      obtain ⟨b, text, written, opens⟩ := (toJson a).exists_opens
      have present := (GuardedJsonForm.guards a deep).bind_pure some
      change Guards _ (toJson a).compact
      by_cases absent : b = 0x6e
      · rw [opens.null absent]
        exact guards_absent
      · rw [written] at present ⊢
        refine .start opens.printed ?_
        rw [if_neg absent]
        exact present
  narrowing _ _ le := .after _ fun _ => .ite (.refl _) ((GuardedJsonForm.narrowing le).bind fun _ => .refl _)

instance : GuardedJsonForm ChosenHash where
  guards k depth deep := by
    obtain ⟨depth, rfl, inside⟩ := exists_inside_obj deep
    exact guards_record (.value rfl rfl rfl (inside _ (.head _)) fun _ =>
      .value rfl rfl rfl (inside _ (.tail _ (.head _))) fun _ => .nil rfl)
  narrowing := narrowing_record (fun _ _ le => .cons (.value le) (.cons (.value le) .nil)) _ _

instance : GuardedJsonForm Tag where
  guards t depth deep := by
    obtain ⟨depth, rfl, inside⟩ := exists_inside_obj deep
    exact guards_record (.value rfl rfl rfl (inside _ (.head _)) fun _ =>
      .value rfl rfl rfl (inside _ (.tail _ (.head _))) fun _ => .nil rfl)
  narrowing := narrowing_record (fun _ _ le => .cons (.value le) (.cons (.value le) .nil)) _ _

end JsonForm

end TrieArchive
