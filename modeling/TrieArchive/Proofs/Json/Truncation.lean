import TrieArchive.Proofs.Json.Fronts
import TrieArchive.Proofs.Json.RoundTrip

/-! Strings, lists, objects, records and alternatives that end early. All of them close with a byte of their own, so
whatever is cut off is missed. -/
namespace TrieArchive.Json.Reader

open Reading

variable {α β σ : Type} {r : Reader α}

section Texts

theorem quote_eq (text : String) : quote text = (0x22 :: (Bytes.ofText text).flatMap escape) ++ [0x22] := rfl

theorem starves_text (text : String) : Starves Reader.text (0x22 :: (Bytes.ofText text).flatMap escape) :=
  .start rfl (fun _ => rfl) (Text.starves_body text)

theorem starves_memberName (name : String) : Starves memberName (0x22 :: (Bytes.ofText name).flatMap escape) := by
  intro front part
  rcases List.prefix_cons_iff.mp part with rfl | ⟨rest, rfl, behind⟩
  · rfl
  · exact Text.starves_body name rest behind

/-- A name, and what stands behind its colon. -/
theorem Starves.named {name : String} {f : String → Reader α} {tail : Bytes} (goes : f name = colon >>= fun _ => r)
    (later : Starves r tail) : Starves (memberName >>= f) (quote name ++ 0x3a :: tail) := by
  have missing : Starves colon [] := starves_nil rfl
  have rest : Starves (f name) (0x3a :: tail) := goes ▸ missing.step run_colon later
  have whole (rest : Bytes) : memberName.run ((0x22 :: (Bytes.ofText name).flatMap escape) ++ 0x22 :: rest) =
      .ok (name, rest) := by
    have read := run_memberName name rest
    rwa [quote_eq, List.append_assoc] at read
  rw [quote_eq, List.append_assoc]
  exact (starves_memberName name).step whole rest

end Texts

section Lists

variable {item : Reader α} {f : Bool → Reader β} {json : Json} {tail : Bytes}

theorem run_items_nil (bound : Bytes) (first : Bool) : (items item bound first).run [] = .error .truncated := by
  cases bound <;> rfl

/-- The first item is there as soon as its first byte is. -/
theorem Starves.first (later : Starves (f true) (json.compact ++ tail)) :
    Starves (hasItem true >>= f) (json.compact ++ tail) := by
  obtain ⟨b, text, written, opens⟩ := json.exists_opens
  rw [written, List.cons_append] at later ⊢
  refine Starves.sight (starves_nil rfl) (fun rest => ?_) later
  rw [List.nil_append, hasItem, run_start_bind _ _ opens.printed, if_neg opens.item]
  rfl

/-- So is another item, behind its comma. -/
theorem Starves.another (later : Starves (f true) (json.compact ++ tail)) :
    Starves (hasItem false >>= f) (0x2c :: (json.compact ++ tail)) := by
  obtain ⟨b, text, written, opens⟩ := json.exists_opens
  rw [written, List.cons_append] at later ⊢
  refine Starves.sight (starves_singleton (b := 0x2c) rfl rfl) (fun rest => ?_) later
  rw [List.singleton_append, hasItem, run_start_bind _ _ rfl, if_neg (by decide), if_neg (by decide), if_pos rfl,
    run_skip_bind, List.tail_cons, run_start_bind _ _ opens.printed, if_neg opens.item]
  rfl

/-- The items of a list that never closes are never all there. -/
theorem starves_items {l : List Json} (each : ∀ json ∈ l, Guards item json.compact) (bound : Bytes) :
    Starves (items item bound false) (l.flatMap (0x2c :: ·.compact)) := by
  induction l generalizing bound with
  | nil => exact starves_nil (run_items_nil bound false)
  | cons json l ih =>
    rcases bound with _ | ⟨n, bound⟩
    · exact fun _ _ => rfl
    · have ends := ends_items compact l ends_nil
      have later := ih (fun json member => each json (List.mem_cons_of_mem _ member)) bound
      rw [List.append_nil] at ends
      rw [items, List.flatMap_cons, List.cons_append]
      refine .another ?_
      rw [if_pos rfl]
      exact (each json List.mem_cons_self).step ends (fun _ => run_bind_of_error (run_items_nil _ _) _)
        fun _ => later.bind _

theorem starves_items_first {l : List Json} (each : ∀ json ∈ l, Guards item json.compact) (bound : Bytes) :
    Starves (items item bound true) (compactItems l) := by
  cases l with
  | nil => exact starves_nil (run_items_nil bound true)
  | cons json l =>
    rcases bound with _ | ⟨n, bound⟩
    · exact fun _ _ => rfl
    · have ends := ends_items compact l ends_nil
      have later := starves_items (fun json member => each json (List.mem_cons_of_mem _ member)) bound
      rw [List.append_nil] at ends
      rw [compactItems_cons, items]
      refine .first ?_
      rw [if_pos rfl]
      exact (each json List.mem_cons_self).step ends (fun _ => run_bind_of_error (run_items_nil _ _) _)
        fun _ => later.bind _

theorem starves_list {item : (depth : Nat) → Reader α} {depth : Nat} {l : List Json}
    (each : ∀ json ∈ l, Guards (item depth) json.compact) :
    Starves (list item (depth + 1)) (0x5b :: compactItems l) := by
  have inside : Starves (do let l ← items (item depth) (← get) true; endList; return l) (compactItems l) :=
    .get fun bound => (starves_items_first each bound).bind _
  exact .start rfl (fun _ => rfl) inside

/-- A list cut short misses bytes, whatever its items are read as. -/
theorem guards_list {γ : Type} {item : (depth : Nat) → Reader α} {depth : Nat} {toJson : γ → Json} {l : List γ}
    (each : ∀ c ∈ l, Guards (item depth) (toJson c).compact) :
    Guards (list item (depth + 1)) (arr (l.map toJson)).compact := by
  have starves : Starves (list item (depth + 1)) (0x5b :: compactItems (l.map toJson)) :=
    starves_list fun json member => by
      obtain ⟨c, inside, rfl⟩ := List.mem_map.mp member
      exact each c inside
  cases l with
  | nil => exact starves.guards (reads_list_nil item depth)
  | cons first rest =>
    obtain ⟨a, -⟩ := (each first List.mem_cons_self).reads
    have : Nonempty α := ⟨a⟩
    choose! value read using fun c member => (each c member).reads
    exact starves.guards (reads_list_map read)

theorem Starves.required {g : α → Reader β} (guards : Guards item json.compact) (ends : Ends tail)
    (hungry : ∀ a, (g a).run [] = .error .truncated) (later : ∀ a, Starves (g a) tail) :
    Starves (Reader.required true item >>= g) (json.compact ++ tail) ∧
      Starves (Reader.required false item >>= g) (0x2c :: (json.compact ++ tail)) := by
  simp only [Reader.required, bind_assoc]
  exact ⟨.first (guards.step ends hungry later), .another (guards.step ends hungry later)⟩

theorem guards_pair {first : (depth : Nat) → Reader α} {second : (depth : Nat) → Reader β} {depth : Nat}
    {one two : Json} (guardsFirst : Guards (first depth) one.compact) (guardsSecond : Guards (second depth) two.compact) :
    Guards (pair first second (depth + 1)) (arr [one, two]).compact := by
  obtain ⟨a, readFirst⟩ := guardsFirst.reads
  obtain ⟨b, readSecond⟩ := guardsSecond.reads
  have last (a : α) : Starves (Reader.required false (second depth) >>= fun b => endList >>= fun _ => pure (a, b))
      (0x2c :: (two.compact ++ [])) :=
    (Starves.required guardsSecond ends_nil (fun _ => rfl) fun _ => starves_nil rfl).2
  have inside : Starves (Reader.required true (first depth) >>= fun a => Reader.required false (second depth) >>= fun b =>
      endList >>= fun _ => pure (a, b)) (one.compact ++ 0x2c :: (two.compact ++ [])) :=
    (Starves.required guardsFirst (ends_comma _) (fun _ => rfl) last).1
  have starves : Starves (pair first second (depth + 1)) (0x5b :: compactItems [one, two]) := by
    rw [compactItems_cons, List.flatMap_singleton]
    rw [List.append_nil] at inside
    exact .start rfl (fun _ => rfl) inside
  exact starves.guards (reads_pair readFirst readSecond)

end Lists
section Objects

variable {f : Bool → Reader β} {tail : Bytes}

theorem Starves.firstMember (later : Starves (f true) (0x22 :: tail)) :
    Starves (hasMember true >>= f) (0x22 :: tail) :=
  .sight (starves_nil rfl) (fun _ => rfl) later

theorem Starves.nextMember (later : Starves (f true) (0x22 :: tail)) :
    Starves (hasMember false >>= f) (0x2c :: 0x22 :: tail) :=
  .sight (starves_singleton (b := 0x2c) rfl rfl) (fun _ => rfl) later

theorem member_append (name : String) (json : Json) (tail : Bytes) :
    member (name, json) ++ tail = quote name ++ 0x3a :: (json.compact ++ tail) := by
  rw [member, List.append_assoc, List.cons_append]

variable {key : String → Option α} {value : Reader β}

theorem run_members_nil (bound : Bytes) (first : Bool) : (members key value bound first).run [] = .error .truncated := by
  cases bound <;> rfl

/-- A member of an object whose name is known and whose value is guarded. -/
def GuardsMember (key : String → Option α) (value : Reader β) (entry : String × Json) : Prop :=
  (∃ a, key entry.1 = some a) ∧ Guards value entry.2.compact

theorem GuardsMember.step {entry : String × Json} (guards : GuardsMember key value entry) {bound : Bytes} (ends : Ends tail)
    (later : Starves (members key value bound false) tail) :
    Starves (memberName >>= fun name =>
      match key name with
      | none => throw .unfit
      | some a => do
        colon
        let b ← value
        let rest ← members key value bound false
        return (a, b) :: rest) (member entry ++ tail) := by
  obtain ⟨⟨a, known⟩, guarded⟩ := guards
  rw [member_append]
  refine .named (r := value >>= fun b => members key value bound false >>= fun rest => pure ((a, b) :: rest))
    (by rw [known]) ?_
  exact guarded.step ends (fun _ => run_bind_of_error (run_members_nil _ _) _) fun _ => later.bind _

/-- The members of an object that never closes are never all there. -/
theorem starves_members {l : List (String × Json)} (each : ∀ entry ∈ l, GuardsMember key value entry) (bound : Bytes) :
    Starves (members key value bound false) (l.flatMap (0x2c :: member ·)) := by
  induction l generalizing bound with
  | nil => exact starves_nil (run_members_nil bound false)
  | cons entry l ih =>
    rcases bound with _ | ⟨n, bound⟩
    · exact fun _ _ => rfl
    · have ends := ends_items member l ends_nil
      have later := ih (fun entry member => each entry (List.mem_cons_of_mem _ member)) bound
      rw [List.append_nil] at ends
      rw [members, List.flatMap_cons, List.cons_append]
      refine .nextMember ?_
      rw [if_pos rfl]
      exact (each entry List.mem_cons_self).step ends later

theorem starves_members_first {l : List (String × Json)} (each : ∀ entry ∈ l, GuardsMember key value entry)
    (bound : Bytes) : Starves (members key value bound true) (compactFields l) := by
  cases l with
  | nil => exact starves_nil (run_members_nil bound true)
  | cons entry l =>
    rcases bound with _ | ⟨n, bound⟩
    · exact fun _ _ => rfl
    · have ends := ends_items member l ends_nil
      have later := starves_members (fun entry member => each entry (List.mem_cons_of_mem _ member)) bound
      rw [List.append_nil] at ends
      rw [members, compactFields_cons]
      refine .firstMember ?_
      rw [if_pos rfl]
      exact (each entry List.mem_cons_self).step ends later

/-- An object cut short misses bytes, whatever its members are read as. -/
theorem guards_object {γ : Type} {value : (depth : Nat) → Reader β} {depth : Nat} {name : α → String} {toJson : γ → Json}
    (known : ∀ a, key (name a) = some a) {l : List (α × γ)}
    (each : ∀ entry ∈ l, Guards (value depth) (toJson entry.2).compact) :
    Guards (object key value (depth + 1)) (obj (l.map fun entry => (name entry.1, toJson entry.2))).compact := by
  have guards : ∀ entry ∈ l.map fun entry => (name entry.1, toJson entry.2), GuardsMember key (value depth) entry := by
    intro entry member
    obtain ⟨pair, here, rfl⟩ := List.mem_map.mp member
    exact ⟨⟨pair.1, known pair.1⟩, each pair here⟩
  have inside : Starves (do let l ← members key (value depth) (← get) true; endObject; return l)
      (compactFields (l.map fun entry => (name entry.1, toJson entry.2))) :=
    .get fun bound => (starves_members_first guards bound).bind _
  have starves : Starves (object key value (depth + 1))
      (0x7b :: compactFields (l.map fun entry => (name entry.1, toJson entry.2))) :=
    .start rfl (fun _ => rfl) inside
  cases l with
  | nil => exact starves.guards (reads_object_nil key value depth)
  | cons first rest =>
    obtain ⟨b, -⟩ := (each first List.mem_cons_self).reads
    have : Nonempty β := ⟨b⟩
    have values (c : γ) (inside : ∃ entry ∈ first :: rest, entry.2 = c) : ∃ b, Reads (value depth) (toJson c).compact b := by
      obtain ⟨entry, member, rfl⟩ := inside
      exact (each entry member).reads
    choose! result read using values
    exact starves.guards (reads_object_map fun entry member => ⟨known entry.1, read entry.2 ⟨entry, member, rfl⟩⟩)

end Objects

section Records

variable {known : List (Field σ)} {finish : σ → Option α}

/-- The members fill a record step by step up to where it is finished, each one a field that was still open and whose value
is guarded. -/
inductive Finishes (known : List (Field σ)) (finish : σ → Option α) : List (String × Json) → σ → Prop
  | nil {s : σ} {a : α} (finished : finish s = some a) : Finishes known finish [] s
  | cons {name : String} {json : Json} {members : List (String × Json)} {s next : σ} {field : Field σ}
      (found : known.find? (·.name == name) = some field) (unfilled : field.filled s = false)
      (read : Reads (field.fill s) json.compact next) (exhausts : Exhausts (field.fill s) json.compact)
      (later : Finishes known finish members next) : Finishes known finish ((name, json) :: members) s

theorem Finishes.fills {members : List (String × Json)} {s : σ} (finishes : Finishes known finish members s) :
    ∃ final a, Fills known members s final ∧ finish final = some a := by
  induction finishes with
  | nil finished => exact ⟨_, _, .nil _, finished⟩
  | cons found unfilled read _ _ ih =>
    obtain ⟨final, a, fills, finished⟩ := ih
    exact ⟨final, a, .cons found unfilled read fills, finished⟩

theorem run_fields_nil (bound : Bytes) (first : Bool) (s : σ) : (fields known bound first s).run [] = .error .truncated := by
  cases bound <;> rfl

/-- One field, and the others behind it. -/
theorem Starves.field {name : String} {json : Json} {s next : σ} {field : Field σ} {bound tail : Bytes}
    (found : known.find? (·.name == name) = some field) (unfilled : field.filled s = false)
    (read : Reads (field.fill s) json.compact next) (exhausts : Exhausts (field.fill s) json.compact) (ends : Ends tail)
    (later : Starves (fields known bound false next) tail) :
    Starves (memberName >>= fun name =>
      match known.find? (·.name == name) with
      | none => do
        colon
        Skip.value
        fields known bound false s
      | some field => do
        if field.filled s then throw .unfit
        colon
        fields known bound false (← field.fill s)) (member (name, json) ++ tail) := by
  rw [member_append]
  refine .named (r := field.fill s >>= fields known bound false) ?_ ?_
  · rw [found]
    dsimp only
    rw [unfilled, if_neg Bool.false_ne_true]
  · exact exhausts.step read (run_fields_nil bound false) ends later

/-- The fields of a record that never closes are never all there. -/
theorem starves_fields {l : List (String × Json)} {s : σ} (finishes : Finishes known finish l s) (bound : Bytes) :
    Starves (fields known bound false s) (l.flatMap (0x2c :: member ·)) := by
  induction finishes generalizing bound with
  | nil => exact starves_nil (run_fields_nil bound false _)
  | @cons name json l s next field found unfilled read exhausts _ ih =>
    rcases bound with _ | ⟨n, bound⟩
    · exact fun _ _ => rfl
    · have ends := ends_items member l ends_nil
      rw [List.append_nil] at ends
      rw [fields, List.flatMap_cons, List.cons_append]
      refine .nextMember ?_
      rw [if_pos rfl]
      exact .field found unfilled read exhausts ends (ih bound)

/-- A record without its closing bracket misses bytes, wherever it is cut. -/
theorem starves_record {known : (depth : Nat) → List (Field σ)} {depth : Nat} {entry : String × Json}
    {l : List (String × Json)} {s : σ} (finishes : Finishes (known depth) finish (entry :: l) s) :
    Starves (record known s finish (depth + 1)) (0x7b :: compactFields (entry :: l)) := by
  obtain ⟨⟩ | ⟨found, unfilled, read, exhausts, later⟩ := finishes
  rename_i name json next field
  have ends := ends_items member l ends_nil
  rw [List.append_nil] at ends
  have first (bound : Bytes) : Starves (fields (known depth) bound true s) (compactFields ((name, json) :: l)) := by
    rcases bound with _ | ⟨n, bound⟩
    · exact fun _ _ => rfl
    · rw [fields, compactFields_cons]
      refine .firstMember ?_
      rw [if_pos rfl]
      exact .field found unfilled read exhausts ends (starves_fields later bound)
  refine .sighted rfl fun front part => ?_
  rw [if_neg (by decide), if_pos rfl, nested_succ, run_skip_bind, List.tail_cons, run_get_bind]
  exact (first front).bind _ front part

theorem guards_record {known : (depth : Nat) → List (Field σ)} {depth : Nat} {entry : String × Json}
    {l : List (String × Json)} {s : σ} (finishes : Finishes (known depth) finish (entry :: l) s) :
    Guards (record known s finish (depth + 1)) (obj (entry :: l)).compact := by
  obtain ⟨final, a, fills, finished⟩ := finishes.fills
  exact (starves_record finishes).guards (reads_record fills finished)

end Records

section Alternatives

variable {known : (depth : Nat) → List (Case α)} {depth : Nat} {name : String} {c : Case α} {a : α}

theorem guards_content {json : Json} (found : (known depth).find? (·.name == name) = some c)
    (guards : Guards c.content json.compact) : Guards (alternative known (depth + 1)) (obj [(name, json)]).compact := by
  obtain ⟨a, read⟩ := guards.reads
  have closing : Starves (c.content >>= fun a => endObject >>= fun _ => pure a) (json.compact ++ []) :=
    guards.step ends_nil (fun _ => rfl) fun _ => starves_nil rfl
  have named : Starves (memberName >>= fun name => case? (known depth) name >>= fun c => colon >>= fun _ =>
      c.content >>= fun a => endObject >>= fun _ => pure a) (quote name ++ 0x3a :: (json.compact ++ [])) := by
    refine .named ?_ closing
    rw [case?, found]
    rfl
  have inside : Starves (do
      if (← start) ≠ 0x22 then throw .malformed
      let c ← case? (known depth) (← memberName)
      colon
      let a ← c.content
      endObject
      return a) (quote name ++ 0x3a :: (json.compact ++ [])) :=
    .sight (b := 0x22) (starves_nil rfl) (fun _ => rfl) named
  have starves : Starves (alternative known (depth + 1)) (0x7b :: compactFields [(name, json)]) := by
    rw [compactFields_cons, List.flatMap_nil, member_append]
    exact .start rfl (fun _ => rfl) inside
  exact starves.guards (reads_content found read)

theorem guards_alone (found : (known depth).find? (·.name == name) = some c) (alone : c.alone = some a) :
    Guards (alternative known depth) (str name).compact := by
  have starves : Starves (alternative known depth) (0x22 :: (Bytes.ofText name).flatMap escape) := by
    refine .sight (starves_nil rfl) (fun _ => rfl) ?_
    rw [if_neg (by decide), if_pos rfl]
    exact (starves_text name).bind _
  exact starves.guards (reads_alone found alone)

end Alternatives

end TrieArchive.Json.Reader
