import TrieArchive.Proofs.Json.Number
import TrieArchive.Proofs.Json.Text

/-! Lists, objects, records and alternatives are read back from their text if what is in them is. -/
namespace TrieArchive.Json

open Reader Reading

/-- The byte that a value starts with, which is no blank and closes no list. Only `null` starts with an `n`. -/
structure Opens (json : Json) (b : UInt8) : Prop where
  printed : isBlank b = false
  item : b ≠ 0x5d
  null : b = 0x6e → json = .null

theorem exists_opens (json : Json) : ∃ b rest, json.compact = b :: rest ∧ json.Opens b := by
  cases json with
  | null => exact ⟨_, _, rfl, rfl, by decide, fun _ => rfl⟩
  | bool b => cases b <;> exact ⟨_, _, rfl, rfl, by decide, fun same => absurd same (by decide)⟩
  | num n =>
    cases n with
    | ofNat n =>
      obtain ⟨first, later, text, spells⟩ := Number.exists_spells n
      refine ⟨first, later, text, Number.isBlank_of_isDigit spells.digit, ?_, ?_⟩
      all_goals
        rintro rfl
        exact absurd spells.digit (by decide)
    | negSucc n =>
      exact ⟨_, _, Bytes.ofText_append "-" (n + 1).repr, rfl, by decide, fun same => absurd same (by decide)⟩
  | str s => exact ⟨_, _, rfl, rfl, by decide, fun same => absurd same (by decide)⟩
  | arr items => exact ⟨_, _, rfl, rfl, by decide, fun same => absurd same (by decide)⟩
  | obj fields => exact ⟨_, _, rfl, rfl, by decide, fun same => absurd same (by decide)⟩

/-- The text of a member of an object. -/
def member (entry : String × Json) : Bytes := quote entry.1 ++ 0x3a :: entry.2.compact

theorem compactItems_cons (item : Json) (rest : List Json) :
    compactItems (item :: rest) = item.compact ++ rest.flatMap (0x2c :: ·.compact) := by
  induction rest generalizing item with
  | nil => simp [compactItems]
  | cons next rest ih => rw [compactItems, ih next, List.flatMap_cons, List.cons_append]; simp

theorem compactFields_cons (entry : String × Json) (rest : List (String × Json)) :
    compactFields (entry :: rest) = member entry ++ rest.flatMap (0x2c :: member ·) := by
  induction rest generalizing entry with
  | nil => simp [compactFields, member]
  | cons next rest ih => rw [compactFields, ih next, List.flatMap_cons]; all_goals simp [member]

theorem compact_arr (item : Json) (rest : List Json) :
    (arr (item :: rest)).compact = 0x5b :: (item.compact ++ (rest.flatMap (0x2c :: ·.compact) ++ [0x5d])) := by
  rw [compact, compactItems_cons, List.cons_append, List.append_assoc]

theorem compact_obj (entry : String × Json) (rest : List (String × Json)) :
    (obj (entry :: rest)).compact = 0x7b :: (member entry ++ (rest.flatMap (0x2c :: member ·) ++ [0x7d])) := by
  rw [compact, compactFields_cons, List.cons_append, List.append_assoc]

theorem length_le_flatMap {β : Type} (text : β → Bytes) (items : List β) :
    items.length ≤ (items.flatMap (0x2c :: text ·)).length := by
  induction items with
  | nil => exact Nat.le_refl 0
  | cons item rest ih =>
    rw [List.flatMap_cons, List.length_append, List.length_cons, List.length_cons]
    omega

theorem ends_items {β : Type} (text : β → Bytes) (items : List β) {close : Bytes} (ends : Ends close) :
    Ends (items.flatMap (0x2c :: text ·) ++ close) := by
  cases items with
  | nil => exact ends
  | cons item rest => exact ends_comma _

theorem compact_obj_append (entry : String × Json) (others : List (String × Json)) (rest : Bytes) :
    (obj (entry :: others)).compact ++ rest =
      0x7b :: (member entry ++ (others.flatMap (0x2c :: member ·) ++ 0x7d :: rest)) := by
  rw [compact_obj]
  simp

theorem length_lt_members (entry : String × Json) (others : List (String × Json)) (rest : Bytes) :
    (entry :: others).length < (member entry ++ (others.flatMap (0x2c :: member ·) ++ 0x7d :: rest)).length := by
  have long := length_le_flatMap member others
  have starts : 0 < (member entry).length := by simp [member, quote]
  simp only [List.length_append, List.length_cons]
  omega

mutual
/-- How many brackets are open at once. -/
def depth : Json → Nat
  | .arr items => depthItems items + 1
  | .obj fields => depthFields fields + 1
  | _ => 0
def depthItems : List Json → Nat
  | [] => 0
  | item :: rest => max item.depth (depthItems rest)
def depthFields : List (String × Json) → Nat
  | [] => 0
  | (_, item) :: rest => max item.depth (depthFields rest)
end

theorem depth_le_depthItems {item : Json} {items : List Json} (member : item ∈ items) :
    item.depth ≤ depthItems items := by
  induction items with
  | nil => contradiction
  | cons first rest ih =>
    rw [depthItems]
    rcases List.mem_cons.mp member with rfl | later
    · exact Nat.le_max_left ..
    · exact Nat.le_trans (ih later) (Nat.le_max_right ..)

theorem depth_le_depthFields {entry : String × Json} {fields : List (String × Json)} (member : entry ∈ fields) :
    entry.2.depth ≤ depthFields fields := by
  induction fields with
  | nil => contradiction
  | cons first rest ih =>
    rw [depthFields]
    rcases List.mem_cons.mp member with rfl | later
    · exact Nat.le_max_left ..
    · exact Nat.le_trans (ih later) (Nat.le_max_right ..)

/-- Where the brackets of a list may be opened, those of its items may be opened in the first one. -/
theorem exists_inside_arr {items : List Json} {depth : Nat} (deep : (arr items).depth ≤ depth) :
    ∃ inside, depth = inside + 1 ∧ ∀ item ∈ items, item.depth ≤ inside := by
  rw [Json.depth] at deep
  exact ⟨depth - 1, by omega, fun item member => Nat.le_trans (depth_le_depthItems member) (by omega)⟩

theorem exists_inside_obj {fields : List (String × Json)} {depth : Nat} (deep : (obj fields).depth ≤ depth) :
    ∃ inside, depth = inside + 1 ∧ ∀ entry ∈ fields, entry.2.depth ≤ inside := by
  rw [Json.depth] at deep
  exact ⟨depth - 1, by omega, fun entry member => Nat.le_trans (depth_le_depthFields member) (by omega)⟩

namespace Reader

variable {α β σ : Type}

@[simp] theorem nested_succ (depth : Nat) (inside : (depth : Nat) → Reader α) :
    nested (depth + 1) inside = inside depth := rfl

section Lists

variable {γ : Type} {item : Reader α} {toJson : γ → Json} {value : γ → α}

theorem run_hasItem_of_item (json : Json) (tail : Bytes) :
    (hasItem true).run (json.compact ++ tail) = .ok (true, json.compact ++ tail) := by
  obtain ⟨b, text, written, opens⟩ := json.exists_opens
  rw [hasItem, written, List.cons_append, run_start_bind _ _ opens.printed, if_neg opens.item, if_pos rfl]
  rfl

theorem run_hasItem_of_comma (json : Json) (tail : Bytes) :
    (hasItem false).run (0x2c :: (json.compact ++ tail)) = .ok (true, json.compact ++ tail) := by
  obtain ⟨b, text, written, opens⟩ := json.exists_opens
  rw [hasItem, run_start_bind _ _ rfl, if_neg (by decide), if_neg (by decide), if_pos rfl, run_skip_bind,
    List.tail_cons, written, List.cons_append, run_start_bind _ _ opens.printed, if_neg opens.item]
  rfl

theorem run_hasItem_of_end (first : Bool) (tail : Bytes) :
    (hasItem first).run (0x5d :: tail) = .ok (false, 0x5d :: tail) := by
  rw [hasItem, run_start_bind _ _ rfl]
  rfl

theorem run_endList (tail : Bytes) : endList.run (0x5d :: tail) = .ok ((), tail) := by
  rw [endList, run_start_bind _ _ rfl]
  rfl

/-- The items behind the first one are read, up to the bracket that closes the list. -/
theorem run_items {l : List γ} (each : ∀ a ∈ l, Reads item (toJson a).compact (value a)) {bound : Bytes}
    (room : l.length < bound.length) (rest : Bytes) :
    (items item bound false).run (l.flatMap (fun a => 0x2c :: (toJson a).compact) ++ 0x5d :: rest) =
      .ok (l.map value, 0x5d :: rest) := by
  induction l generalizing bound with
  | nil =>
    rcases bound with _ | ⟨_, bound⟩
    · contradiction
    · exact run_bind_of_ok (run_hasItem_of_end false rest) _
  | cons a l ih =>
    rcases bound with _ | ⟨_, bound⟩
    · contradiction
    · have later := ih (fun b member => each b (List.mem_cons_of_mem a member)) (Nat.lt_of_succ_lt_succ room)
      have read := each a List.mem_cons_self _ (ends_items (fun a => (toJson a).compact) l (ends_list rest))
      rw [items, List.flatMap_cons, List.cons_append, List.cons_append, List.append_assoc,
        run_bind_of_ok (run_hasItem_of_comma _ _), if_pos rfl, run_bind_of_ok read, run_bind_of_ok later]
      rfl

/-- All items of a list that is not empty are read. -/
theorem run_items_first {a : γ} {l : List γ} (each : ∀ b ∈ a :: l, Reads item (toJson b).compact (value b))
    {bound : Bytes} (room : (a :: l).length < bound.length) (rest : Bytes) :
    (items item bound true).run
        ((toJson a).compact ++ (l.flatMap (fun b => 0x2c :: (toJson b).compact) ++ 0x5d :: rest)) =
      .ok ((a :: l).map value, 0x5d :: rest) := by
  rcases bound with _ | ⟨_, bound⟩
  · contradiction
  · have read := each a List.mem_cons_self _ (ends_items (fun b => (toJson b).compact) l (ends_list rest))
    have later := run_items (fun b member => each b (List.mem_cons_of_mem a member)) (Nat.lt_of_succ_lt_succ room) rest
    rw [items, run_bind_of_ok (run_hasItem_of_item _ _), if_pos rfl, run_bind_of_ok read, run_bind_of_ok later]
    rfl

theorem reads_list_nil (item : (depth : Nat) → Reader α) (depth : Nat) :
    Reads (list item (depth + 1)) (arr []).compact [] := by
  intro rest ends
  have none : (items (item depth) (0x5d :: rest) true).run (0x5d :: rest) = .ok ([], 0x5d :: rest) :=
    run_bind_of_ok (run_hasItem_of_end true rest) _
  change (list item (depth + 1)).run (0x5b :: 0x5d :: rest) = _
  rw [list, run_start_bind _ _ rfl, if_pos rfl, nested_succ, run_skip_bind, List.tail_cons, run_get_bind,
    run_bind_of_ok none, run_bind_of_ok (run_endList rest)]
  rfl

/-- A list is read if its items are, one bracket further in, whatever each of them is read as. -/
theorem reads_list_map {item : (depth : Nat) → Reader α} {depth : Nat} {l : List γ}
    (each : ∀ a ∈ l, Reads (item depth) (toJson a).compact (value a)) :
    Reads (list item (depth + 1)) (arr (l.map toJson)).compact (l.map value) := by
  cases l with
  | nil => exact reads_list_nil item depth
  | cons a l =>
    intro rest ends
    have text : (arr ((a :: l).map toJson)).compact ++ rest = 0x5b :: ((toJson a).compact ++
        (l.flatMap (fun b => 0x2c :: (toJson b).compact) ++ 0x5d :: rest)) := by
      rw [List.map_cons, compact_arr, List.flatMap_map]
      simp
    have room : (a :: l).length < ((toJson a).compact ++
        (l.flatMap (fun b => 0x2c :: (toJson b).compact) ++ 0x5d :: rest)).length := by
      obtain ⟨b, front, written, -⟩ := (toJson a).exists_opens
      have long := length_le_flatMap (fun b => (toJson b).compact) l
      simp only [written, List.length_append, List.length_cons]
      omega
    rw [text, list, run_start_bind _ _ rfl, if_pos rfl, nested_succ, run_skip_bind, List.tail_cons, run_get_bind,
      run_bind_of_ok (run_items_first each room rest), run_bind_of_ok (run_endList rest)]
    rfl

theorem reads_list {item : (depth : Nat) → Reader α} {depth : Nat} {l : List α} {toJson : α → Json}
    (each : ∀ a ∈ l, Reads (item depth) (toJson a).compact a) :
    Reads (list item (depth + 1)) (arr (l.map toJson)).compact l := by
  have read : Reads (list item (depth + 1)) (arr (l.map toJson)).compact (l.map id) := reads_list_map each
  rwa [List.map_id] at read

/-- The first item of a list that must not end yet. -/
theorem run_required_first {json : Json} {a : α} (read : Reads item json.compact a) {rest : Bytes} (ends : Ends rest) :
    (required true item).run (json.compact ++ rest) = .ok (a, rest) := by
  rw [required, run_bind_of_ok (run_hasItem_of_item json rest), if_pos rfl]
  exact read rest ends

theorem run_required_next {json : Json} {a : α} (read : Reads item json.compact a) {rest : Bytes} (ends : Ends rest) :
    (required false item).run (0x2c :: (json.compact ++ rest)) = .ok (a, rest) := by
  rw [required, run_bind_of_ok (run_hasItem_of_comma json rest), if_pos rfl]
  exact read rest ends

theorem reads_pair {first : (depth : Nat) → Reader α} {second : (depth : Nat) → Reader β} {depth : Nat}
    {one two : Json} {a : α} {b : β} (readFirst : Reads (first depth) one.compact a)
    (readSecond : Reads (second depth) two.compact b) :
    Reads (pair first second (depth + 1)) (arr [one, two]).compact (a, b) := by
  intro rest ends
  have text : (arr [one, two]).compact ++ rest =
      0x5b :: (one.compact ++ 0x2c :: (two.compact ++ 0x5d :: rest)) := by
    rw [compact_arr]
    simp
  rw [text, pair, run_start_bind _ _ rfl, if_pos rfl, nested_succ, run_skip_bind, List.tail_cons,
    run_bind_of_ok (run_required_first readFirst (ends_comma _)),
    run_bind_of_ok (run_required_next readSecond (ends_list rest)), run_bind_of_ok (run_endList rest)]
  rfl

end Lists

section Objects

theorem run_memberName (name : String) (rest : Bytes) : memberName.run (quote name ++ rest) = .ok (name, rest) := by
  rw [memberName, quote, List.cons_append, List.cons_append, run_skip_bind, List.tail_cons, List.append_assoc]
  exact Text.run_body name rest

theorem run_colon (rest : Bytes) : colon.run (0x3a :: rest) = .ok ((), rest) := by
  rw [colon, run_start_bind _ _ rfl]
  rfl

theorem run_endObject (rest : Bytes) : endObject.run (0x7d :: rest) = .ok ((), rest) := by
  rw [endObject, run_start_bind _ _ rfl]
  rfl

/-- A quoted text is started at its quote. -/
theorem run_start_quote (name : String) (tail : Bytes) (f : UInt8 → Reader α) :
    (start >>= f).run (quote name ++ tail) = (f 0x22).run (quote name ++ tail) := run_start_bind _ _ rfl f

theorem run_hasMember_of_member (entry : String × Json) (tail : Bytes) :
    (hasMember true).run (member entry ++ tail) = .ok (true, member entry ++ tail) := by
  rw [hasMember, member, List.append_assoc, run_start_quote]
  rfl

theorem run_hasMember_of_comma (entry : String × Json) (tail : Bytes) :
    (hasMember false).run (0x2c :: (member entry ++ tail)) = .ok (true, member entry ++ tail) := by
  rw [hasMember, run_start_bind _ _ rfl, if_neg (by decide), if_neg (by decide), if_pos rfl, run_skip_bind,
    List.tail_cons, member, List.append_assoc, run_start_quote]
  rfl

theorem run_hasMember_of_end (first : Bool) (tail : Bytes) :
    (hasMember first).run (0x7d :: tail) = .ok (false, 0x7d :: tail) := by
  rw [hasMember, run_start_bind _ _ rfl]
  rfl

variable {γ : Type} {key : String → Option α} {value : Reader β} {name : α → String} {toJson : γ → Json} {result : γ → β}

/-- One member of an object is read, and the others from where it ends. -/
theorem run_members_step {first : Bool} {text tail : Bytes} {a : α} {json : Json} {b : β}
    (starts : (hasMember first).run text = .ok (true, member (name a, json) ++ tail))
    (known : key (name a) = some a) (read : Reads value json.compact b) (ends : Ends tail) (n : UInt8)
    (bound : Bytes) :
    (members key value (n :: bound) first).run text =
      ((fun rest => (a, b) :: rest) <$> members key value bound false).run tail := by
  rw [members, run_bind_of_ok starts, if_pos rfl, member, List.append_assoc, run_bind_of_ok (run_memberName _ _),
    known, List.cons_append]
  dsimp only
  rw [run_bind_of_ok (run_colon _), run_bind_of_ok (read _ ends)]
  rfl

/-- The members behind the first one are read, up to the bracket that closes the object. -/
theorem run_members {l : List (α × γ)}
    (each : ∀ entry ∈ l, key (name entry.1) = some entry.1 ∧ Reads value (toJson entry.2).compact (result entry.2))
    {bound : Bytes} (room : l.length < bound.length) (rest : Bytes) :
    (members key value bound false).run
        (l.flatMap (fun entry => 0x2c :: member (name entry.1, toJson entry.2)) ++ 0x7d :: rest) =
      .ok (l.map (·.map id result), 0x7d :: rest) := by
  induction l generalizing bound with
  | nil =>
    rcases bound with _ | ⟨_, bound⟩
    · contradiction
    · exact run_bind_of_ok (run_hasMember_of_end false rest) _
  | cons entry l ih =>
    obtain ⟨a, b⟩ := entry
    rcases bound with _ | ⟨_, bound⟩
    · contradiction
    · obtain ⟨known, read⟩ := each _ List.mem_cons_self
      have ends := ends_items (fun entry => member (name entry.1, toJson entry.2)) l (ends_object rest)
      have later := ih (fun entry member => each entry (List.mem_cons_of_mem _ member)) (Nat.lt_of_succ_lt_succ room)
      rw [List.flatMap_cons, List.cons_append, List.cons_append, List.append_assoc]
      have step := run_members_step (run_hasMember_of_comma _ _) known read ends 0 bound
      exact step.trans (run_map_of_ok later _)

/-- All members of an object that is not empty are read. -/
theorem run_members_first {entry : α × γ} {l : List (α × γ)}
    (each : ∀ pair ∈ entry :: l,
      key (name pair.1) = some pair.1 ∧ Reads value (toJson pair.2).compact (result pair.2)) {bound : Bytes}
    (room : (entry :: l).length < bound.length) (rest : Bytes) :
    (members key value bound true).run (member (name entry.1, toJson entry.2) ++
        (l.flatMap (fun pair => 0x2c :: member (name pair.1, toJson pair.2)) ++ 0x7d :: rest)) =
      .ok ((entry :: l).map (·.map id result), 0x7d :: rest) := by
  rcases bound with _ | ⟨_, bound⟩
  · contradiction
  · obtain ⟨known, read⟩ := each _ List.mem_cons_self
    have ends := ends_items (fun pair => member (name pair.1, toJson pair.2)) l (ends_object rest)
    have later := run_members (fun pair member => each pair (List.mem_cons_of_mem _ member))
      (Nat.lt_of_succ_lt_succ room) rest
    have step := run_members_step (run_hasMember_of_member _ _) known read ends 0 bound
    exact step.trans (run_map_of_ok later _)

theorem reads_object_nil (key : String → Option α) (value : (depth : Nat) → Reader β) (depth : Nat) :
    Reads (object key value (depth + 1)) (obj []).compact [] := by
  intro rest ends
  have none : (members key (value depth) (0x7d :: rest) true).run (0x7d :: rest) = .ok ([], 0x7d :: rest) :=
    run_bind_of_ok (run_hasMember_of_end true rest) _
  change (object key value (depth + 1)).run (0x7b :: 0x7d :: rest) = _
  rw [object, run_start_bind _ _ rfl, if_pos rfl, nested_succ, run_skip_bind, List.tail_cons, run_get_bind,
    run_bind_of_ok none, run_bind_of_ok (run_endObject rest)]
  rfl

/-- An object is read if its members are, one bracket further in, whatever the value of each is read as. -/
theorem reads_object_map {value : (depth : Nat) → Reader β} {depth : Nat} {l : List (α × γ)}
    (each : ∀ entry ∈ l, key (name entry.1) = some entry.1 ∧
      Reads (value depth) (toJson entry.2).compact (result entry.2)) :
    Reads (object key value (depth + 1)) (obj (l.map fun entry => (name entry.1, toJson entry.2))).compact
      (l.map (·.map id result)) := by
  cases l with
  | nil => exact reads_object_nil key value depth
  | cons entry l =>
    intro rest ends
    have text := compact_obj_append (name entry.1, toJson entry.2)
      (l.map fun entry => (name entry.1, toJson entry.2)) rest
    have room := length_lt_members (name entry.1, toJson entry.2)
      (l.map fun entry => (name entry.1, toJson entry.2)) rest
    rw [List.flatMap_map] at text room
    rw [List.map_cons, text, object, run_start_bind _ _ rfl, if_pos rfl, nested_succ, run_skip_bind, List.tail_cons,
      run_get_bind, run_bind_of_ok (run_members_first each (by simpa using room) rest),
      run_bind_of_ok (run_endObject rest)]
    rfl

end Objects

section Records

variable {known : List (Field σ)}

/-- The members fill a record step by step, each one a field that was still open. -/
inductive Fills (known : List (Field σ)) : List (String × Json) → σ → σ → Prop
  | nil (s : σ) : Fills known [] s s
  | cons {name : String} {json : Json} {members : List (String × Json)} {s next final : σ} {field : Field σ}
      (found : known.find? (·.name == name) = some field) (unfilled : field.filled s = false)
      (read : Reads (field.fill s) json.compact next) (later : Fills known members next final) :
      Fills known ((name, json) :: members) s final

/-- One field is filled in, and the others from where its value ends. -/
theorem run_fields_step {first : Bool} {text tail : Bytes} {name : String} {json : Json} {s next : σ} {field : Field σ}
    (starts : (hasMember first).run text = .ok (true, member (name, json) ++ tail))
    (found : known.find? (·.name == name) = some field) (unfilled : field.filled s = false)
    (read : Reads (field.fill s) json.compact next) (ends : Ends tail) (n : UInt8) (bound : Bytes) :
    (fields known (n :: bound) first s).run text = (fields known bound false next).run tail := by
  rw [fields, run_bind_of_ok starts, if_pos rfl, member, List.append_assoc, run_bind_of_ok (run_memberName _ _),
    found, List.cons_append]
  dsimp only
  rw [unfilled, if_neg Bool.false_ne_true, run_bind_of_ok (run_colon _), run_bind_of_ok (read _ ends)]

/-- The fields behind the first one are filled in, up to the bracket that closes the record. -/
theorem run_fields {members : List (String × Json)} {s final : σ} (fills : Fills known members s final)
    {bound : Bytes} (room : members.length < bound.length) (rest : Bytes) :
    (fields known bound false s).run (members.flatMap (0x2c :: member ·) ++ 0x7d :: rest) =
      .ok (final, 0x7d :: rest) := by
  induction fills generalizing bound with
  | nil s =>
    rcases bound with _ | ⟨_, bound⟩
    · contradiction
    · exact run_bind_of_ok (run_hasMember_of_end false rest) _
  | @cons name json members s next final field found unfilled read _ ih =>
    rcases bound with _ | ⟨_, bound⟩
    · contradiction
    · rw [List.flatMap_cons, List.cons_append, List.cons_append, List.append_assoc]
      have step := run_fields_step (run_hasMember_of_comma _ _) found unfilled read
        (ends_items member members (ends_object rest)) 0 bound
      exact step.trans (ih (Nat.lt_of_succ_lt_succ room))

/-- All fields of a record that is not empty are filled in. -/
theorem run_fields_first {entry : String × Json} {members : List (String × Json)} {s final : σ}
    (fills : Fills known (entry :: members) s final) {bound : Bytes} (room : (entry :: members).length < bound.length)
    (rest : Bytes) :
    (fields known bound true s).run (member entry ++ (members.flatMap (0x2c :: member ·) ++ 0x7d :: rest)) =
      .ok (final, 0x7d :: rest) := by
  rcases bound with _ | ⟨_, bound⟩
  · contradiction
  · obtain ⟨⟩ | ⟨found, unfilled, read, later⟩ := fills
    have ends := ends_items member members (ends_object rest)
    have step := run_fields_step (run_hasMember_of_member _ _) found unfilled read ends 0 bound
    exact step.trans (run_fields later (Nat.lt_of_succ_lt_succ room) rest)

/-- A record is read back by the names of its fields. -/
theorem reads_record {known : (depth : Nat) → List (Field σ)} {depth : Nat} {finish : σ → Option α}
    {entry : String × Json} {members : List (String × Json)} {s final : σ} {a : α}
    (fills : Fills (known depth) (entry :: members) s final) (finished : finish final = some a) :
    Reads (record known s finish (depth + 1)) (obj (entry :: members)).compact a := by
  intro rest ends
  have filled := run_fields_first fills (length_lt_members entry members rest) rest
  rw [compact_obj_append, record, run_start_bind _ _ rfl, if_neg (by decide), if_pos rfl, nested_succ,
    run_skip_bind, List.tail_cons, run_get_bind, run_bind_of_ok filled, finished]
  dsimp only
  rw [run_pure_bind, run_bind_of_ok (run_endObject rest)]
  rfl

end Records

section Alternatives

variable {name : String} {c : Case α} {a : α}

theorem run_case {known : List (Case α)} (found : known.find? (·.name == name) = some c) (s : Bytes) :
    (case? known name).run s = .ok (c, s) := by
  rw [case?, found]
  rfl

variable {known : (depth : Nat) → List (Case α)} {depth : Nat}

/-- An alternative with content is read back from the object of its name. -/
theorem reads_content {json : Json} (found : (known depth).find? (·.name == name) = some c)
    (read : Reads c.content json.compact a) :
    Reads (alternative known (depth + 1)) (obj [(name, json)]).compact a := by
  intro rest ends
  rw [compact_obj_append, List.flatMap_nil, List.nil_append, member, List.append_assoc, List.cons_append, alternative,
    run_start_bind _ _ rfl, if_pos rfl, nested_succ, run_skip_bind, List.tail_cons, run_start_quote,
    if_neg (by decide)]
  dsimp only
  rw [run_bind_of_ok (run_memberName name _), run_bind_of_ok (run_case found _), run_bind_of_ok (run_colon _),
    run_bind_of_ok (read _ (ends_object rest)), run_bind_of_ok (run_endObject rest)]
  rfl

theorem run_text (text : String) (rest : Bytes) : Reader.text.run (quote text ++ rest) = .ok (text, rest) := by
  rw [Reader.text, run_start_quote, if_pos rfl, quote, List.cons_append, List.cons_append, run_skip_bind,
    List.tail_cons, List.append_assoc]
  exact Text.run_body text rest

theorem reads_text (text : String) : Reads Reader.text (str text).compact text := fun rest _ => run_text text rest

/-- An alternative without content is read back from its name. -/
theorem reads_alone (found : (known depth).find? (·.name == name) = some c) (alone : c.alone = some a) :
    Reads (alternative known depth) (str name).compact a := by
  intro rest ends
  rw [compact, alternative, run_start_quote, if_neg (by decide), if_pos rfl, run_bind_of_ok (run_text name rest),
    run_bind_of_ok (run_case found _), alone]
  rfl

end Alternatives

section Mapped

variable {r : Reader α} {text : Bytes} {a : α}

theorem Reads.bind_pure (read : Reads r text a) (f : α → β) : Reads (r >>= fun a => pure (f a)) text (f a) :=
  fun rest ends => run_bind_of_ok (read rest ends) _

theorem Reads.map (read : Reads r text a) (f : α → β) : Reads (f <$> r) text (f a) :=
  fun rest ends => run_map_of_ok (read rest ends) f

/-- A text that holds one value is a document. -/
theorem Reads.document (read : Reads r text a) : Reader.document r text = .ok a := by
  have whole := read [] ends_nil
  rw [List.append_nil] at whole
  rw [Reader.document, whole]
  rfl

end Mapped

theorem reads_null : Reads null Json.null.compact () := by
  intro rest ends
  rw [null, show Json.null.compact ++ rest = 0x6e :: (ull ++ rest) from rfl, run_start_bind _ _ rfl, if_pos rfl,
    run_skip_bind, List.tail_cons]
  exact run_word ull rest

theorem reads_bool (b : Bool) : Reads bool (Json.bool b).compact b := by
  intro rest ends
  cases b
  · rw [bool, show (Json.bool false).compact ++ rest = 0x66 :: (alse ++ rest) from rfl, run_start_bind _ _ rfl,
      if_neg (by decide), if_pos rfl, run_skip_bind, List.tail_cons, run_bind_of_ok (run_word alse rest)]
    rfl
  · rw [bool, show (Json.bool true).compact ++ rest = 0x74 :: (rue ++ rest) from rfl, run_start_bind _ _ rfl,
      if_pos rfl, run_skip_bind, List.tail_cons, run_bind_of_ok (run_word rue rest)]
    rfl

end Reader

end TrieArchive.Json
