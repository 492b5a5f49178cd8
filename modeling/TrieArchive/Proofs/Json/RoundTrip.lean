import TrieArchive.Element.ChosenHash
import TrieArchive.Element.Tag
import TrieArchive.Proofs.Json.Form

/-! Values are read back from their JSON texts where all brackets in them may be opened. An optional value has to be
written as something other than `null`, which stands for its absence. -/
namespace TrieArchive

/-- Every value is read back from its text. -/
class LawfulJsonForm (α : Type) [JsonForm α] : Prop where
  reads (a : α) {depth : Nat} (deep : (JsonForm.toJson a).depth ≤ depth) :
    (JsonForm.read depth : Json.Reader α).Reads (JsonForm.toJson a).compact a

/-- No value is written as `null`. -/
class NeverNull (α : Type) [JsonForm α] : Prop where
  toJson_ne_null (a : α) : JsonForm.toJson a ≠ .null

namespace Json.Reader

/-- A field that takes a value of its own type. -/
theorem Fills.value {α σ : Type} [JsonForm α] [LawfulJsonForm α] {known : List (Field σ)} {name : String}
    {members : List (String × Json)} {field : Field σ} {s final : σ} {a : α} {f : α → σ} {depth : Nat}
    (found : known.find? (·.name == name) = some field) (unfilled : field.filled s = false)
    (fill : field.fill s = JsonForm.read depth >>= fun a => pure (f a)) (deep : (JsonForm.toJson a).depth ≤ depth)
    (later : Fills known members (f a) final) : Fills known ((name, JsonForm.toJson a) :: members) s final :=
  .cons found unfilled (fill ▸ (LawfulJsonForm.reads a deep).bind_pure f) later

end Json.Reader

namespace JsonForm

open Json Json.Reader

section Numbers

variable {α : Type} {a : α} {max : Nat}

theorem reads_unsigned {n : Nat} {ofNat : Nat → α} (back : ofNat n = a) (fits : n < max) (narrow : max ≤ 2 ^ 64) :
    Reads (ofNat <$> whole (max - 1)) (Json.num n).compact a :=
  back ▸ (reads_whole (show n ≤ max - 1 by omega) (by omega)).map ofNat

theorem reads_two_sided {i : Int} {ofInt : Int → α} (back : ofInt i = a) (low : -(max : Int) ≤ i) (high : i < max)
    (narrow : max ≤ 2 ^ 63) : Reads (ofInt <$> signed (max - 1)) (Json.num i).compact a :=
  back ▸ (reads_signed (show -((max - 1 : Nat) + 1 : Int) ≤ i by omega) (by omega) (by omega)).map ofInt

end Numbers

instance : LawfulJsonForm UInt8 := ⟨fun n _ _ => reads_unsigned UInt8.ofNat_toNat n.toNat_lt (by decide)⟩
instance : LawfulJsonForm UInt16 := ⟨fun n _ _ => reads_unsigned UInt16.ofNat_toNat n.toNat_lt (by decide)⟩
instance : LawfulJsonForm UInt32 := ⟨fun n _ _ => reads_unsigned UInt32.ofNat_toNat n.toNat_lt (by decide)⟩
instance : LawfulJsonForm UInt64 := ⟨fun n _ _ => reads_unsigned UInt64.ofNat_toNat n.toNat_lt (by decide)⟩

instance : LawfulJsonForm Int8 :=
  ⟨fun n _ _ => reads_two_sided (Int8.ofInt_toInt n) n.le_toInt n.toInt_lt (by decide)⟩

instance : LawfulJsonForm Int16 :=
  ⟨fun n _ _ => reads_two_sided (Int16.ofInt_toInt n) n.le_toInt n.toInt_lt (by decide)⟩

instance : LawfulJsonForm Int32 :=
  ⟨fun n _ _ => reads_two_sided (Int32.ofInt_toInt n) n.le_toInt n.toInt_lt (by decide)⟩

instance : LawfulJsonForm Int64 :=
  ⟨fun n _ _ => reads_two_sided (Int64.ofInt_toInt n) n.le_toInt n.toInt_lt (by decide)⟩

instance : LawfulJsonForm Bool := ⟨fun b _ _ => reads_bool b⟩
instance : LawfulJsonForm String := ⟨fun s _ _ => reads_text s⟩
instance : LawfulJsonForm Unit := ⟨fun _ _ _ => reads_null⟩

instance : LawfulJsonForm Char where
  reads c _ _ rest ends := by
    simp only [read, toJson]
    rw [Reading.run_bind_of_ok (reads_text c.toString rest ends), Char.toString, String.toList_singleton]
    rfl

instance : NeverNull UInt8 := ⟨fun _ => nofun⟩
instance : NeverNull UInt16 := ⟨fun _ => nofun⟩
instance : NeverNull UInt32 := ⟨fun _ => nofun⟩
instance : NeverNull UInt64 := ⟨fun _ => nofun⟩
instance : NeverNull Int8 := ⟨fun _ => nofun⟩
instance : NeverNull Int16 := ⟨fun _ => nofun⟩
instance : NeverNull Int32 := ⟨fun _ => nofun⟩
instance : NeverNull Int64 := ⟨fun _ => nofun⟩
instance : NeverNull Bool := ⟨fun _ => nofun⟩
instance : NeverNull String := ⟨fun _ => nofun⟩
instance : NeverNull Char := ⟨fun _ => nofun⟩

variable {α β : Type} [JsonForm α] [JsonForm β]

instance : NeverNull (List α) := ⟨fun _ => nofun⟩
instance : NeverNull (α × β) := ⟨fun _ => nofun⟩
instance : NeverNull ChosenHash := ⟨fun _ => nofun⟩
instance : NeverNull Tag := ⟨fun _ => nofun⟩

variable [LawfulJsonForm α] [LawfulJsonForm β]

instance : LawfulJsonForm (List α) where
  reads l depth deep := by
    obtain ⟨depth, rfl, inside⟩ := exists_inside_arr deep
    exact reads_list fun a member => LawfulJsonForm.reads a (inside _ (List.mem_map_of_mem member))

instance : LawfulJsonForm (α × β) where
  reads p depth deep := by
    obtain ⟨depth, rfl, inside⟩ := exists_inside_arr deep
    exact reads_pair (LawfulJsonForm.reads p.1 (inside _ (.head _)))
      (LawfulJsonForm.reads p.2 (inside _ (.tail _ (.head _))))

instance [NeverNull α] : LawfulJsonForm (Option α) where
  reads o depth deep rest ends := by
    cases o with
    | none =>
      simp only [read, toJson]
      rw [show Json.null.compact ++ rest = 0x6e :: (ull ++ rest) from rfl, run_start_bind _ _ rfl, if_pos rfl]
      exact Reading.run_bind_of_ok (reads_null rest ends) _
    | some a =>
      obtain ⟨b, text, written, opens⟩ := (toJson a).exists_opens
      have other : b ≠ 0x6e := fun same => NeverNull.toJson_ne_null a (opens.null same)
      have back := LawfulJsonForm.reads a deep rest ends
      simp only [read, toJson]
      rw [written, List.cons_append] at back ⊢
      rw [run_start_bind _ _ opens.printed, if_neg other, Reading.run_bind_of_ok back]
      rfl

instance : LawfulJsonForm ChosenHash where
  reads k depth deep := by
    obtain ⟨depth, rfl, inside⟩ := exists_inside_obj deep
    exact reads_record
      (.value rfl rfl rfl (inside _ (.head _)) (.value rfl rfl rfl (inside _ (.tail _ (.head _))) (.nil _))) rfl

instance : LawfulJsonForm Tag where
  reads t depth deep := by
    obtain ⟨depth, rfl, inside⟩ := exists_inside_obj deep
    exact reads_record
      (.value rfl rfl rfl (inside _ (.head _)) (.value rfl rfl rfl (inside _ (.tail _ (.head _))) (.nil _))) rfl

end JsonForm

end TrieArchive
