import TrieArchive.Archive.BinaryForm
import TrieArchive.Archive.JsonForm
import TrieArchive.Proofs.Element.HexText
import TrieArchive.Proofs.Json.RoundTrip

/-! Archives are read back from their binary and their JSON form, entry by entry. -/
namespace TrieArchive

/-- The entries of a map, put into an empty one in their order, give it back. -/
theorem foldl_insert_toList {β : Type} (m : Std.ExtTreeMap Id β) :
    m.toList.foldl (fun (built : Std.ExtTreeMap Id β compare) entry => built.insert entry.1 entry.2) ∅ = m := by
  refine (Std.ExtTreeMap.ofList_eq_foldl (l := m.toList)).symm.trans (Std.ExtTreeMap.ext_getElem? ?_)
  intro id
  cases held : m[id]? with
  | none =>
    apply Std.ExtTreeMap.getElem?_ofList_of_contains_eq_false
    rw [Std.ExtTreeMap.map_fst_toList_eq_keys]
    simpa using held
  | some b =>
    have entry : (id, b) ∈ m.toList := Std.ExtTreeMap.mem_toList_iff_getElem?_eq_some.mpr held
    exact Std.ExtTreeMap.getElem?_ofList_of_mem Std.ReflCmp.compare_self Std.ExtTreeMap.distinct_keys_toList entry

section BinaryForm

open Binary Reading

instance : LawfulBinary Id where
  Fits _ := True
  run_decode id _ rest := by
    have short : LawfulBinary.Fits id.hex := by
      change (Bytes.ofText id.hex).length < 2 ^ 64
      rw [Id.length_ofText_hex]
      decide
    refine (run_bind_of_ok (LawfulBinary.run_decode id.hex short rest) _).trans ?_
    rw [Id.parse_hex]
    rfl

instance : LawfulBinary Kind where
  Fits _ := True
  run_decode kind _ rest := by
    cases kind
    · exact run_bind_of_ok (run_word (n := 0) (w := 4) (by decide) rest) _
    · exact run_bind_of_ok (run_word (n := 1) (w := 4) (by decide) rest) _

instance : LawfulBinary Root where
  Fits _ := True
  run_decode root _ rest := by
    simp only [encode, decode, List.append_assoc]
    exact (run_bind_of_ok (LawfulBinary.run_decode root.node trivial _) _).trans
      ((run_bind_of_ok (LawfulBinary.run_decode root.size trivial _) _).trans
        (run_bind_of_ok (LawfulBinary.run_decode root.kind trivial rest) _))

variable {α : Type} [Binary α] [LawfulBinary α]

instance : LawfulBinary (Description α) where
  Fits d := LawfulBinary.Fits d.values ∧ d.children.length < 2 ^ 64
  run_decode d fits rest := by
    cases d with
    | branch datamap nodemap values children =>
      have ids : LawfulBinary.Fits children := ⟨fits.2, fun _ _ => trivial⟩
      simp only [encode, decode, List.append_assoc]
      rw [run_bind_of_ok (run_word (n := 0) (w := 4) (by decide) _)]
      exact (run_bind_of_ok (LawfulBinary.run_decode datamap trivial _) _).trans
        ((run_bind_of_ok (LawfulBinary.run_decode nodemap trivial _) _).trans
          ((run_bind_of_ok (LawfulBinary.run_decode values fits.1 _) _).trans
            (run_bind_of_ok (LawfulBinary.run_decode children ids rest) _)))
    | collision values =>
      simp only [encode, decode, List.append_assoc]
      rw [run_bind_of_ok (run_word (n := 1) (w := 4) (by decide) _)]
      exact run_bind_of_ok (LawfulBinary.run_decode values fits.1 rest) _

instance : LawfulBinary (Std.ExtTreeMap Id α) where
  Fits m := LawfulBinary.Fits m.toList
  run_decode m fits rest := by
    have built : (decode : Reader (Std.ExtTreeMap Id α)).run (encode m ++ rest) =
        .ok (m.toList.foldl (fun built entry => built.insert entry.1 entry.2) ∅, rest) :=
      run_bind_of_ok (LawfulBinary.run_decode m.toList fits rest) _
    rwa [foldl_insert_toList] at built

instance : LawfulBinary (Snapshot α) where
  Fits s := LawfulBinary.Fits s.nodes ∧ LawfulBinary.Fits s.roots
  run_decode s fits rest := by
    change (decode >>= fun version => decode >>= fun nodes => decode >>= fun roots =>
      pure (Snapshot.mk ⟨nodes, roots⟩ version)).run
        (encode s.version ++ encode s.nodes ++ encode s.roots ++ rest) = .ok (s, rest)
    rw [List.append_assoc, List.append_assoc, run_bind_of_ok (LawfulBinary.run_decode s.version trivial _),
      run_bind_of_ok (LawfulBinary.run_decode s.nodes fits.1 _),
      run_bind_of_ok (LawfulBinary.run_decode s.roots fits.2 rest)]
    rfl

end BinaryForm

section JsonForm

open Json Reader

theorem Id.ofText?_hex (id : Id) : ofText? id.hex = some id := by rw [ofText?, parse_hex]

instance : LawfulJsonForm Id where
  reads id _ _ rest ends := by
    simp only [JsonForm.read, JsonForm.toJson]
    rw [Reading.run_bind_of_ok (reads_text id.hex rest ends), Id.ofText?_hex]
    rfl

instance : LawfulJsonForm Kind where
  reads kind _ _ := by
    cases kind
    · exact reads_alone rfl rfl
    · exact reads_alone rfl rfl

instance : LawfulJsonForm Root where
  reads r depth deep := by
    obtain ⟨depth, rfl, inside⟩ := exists_inside_obj deep
    exact reads_record (.value rfl rfl rfl (inside _ (.head _)) (.value rfl rfl rfl (inside _ (.tail _ (.head _)))
      (.value rfl rfl rfl (inside _ (.tail _ (.tail _ (.head _)))) (.nil _)))) rfl

theorem Root.depth_toJson (r : Root) : (JsonForm.toJson r).depth = 1 := by
  rcases r with ⟨_, _, _ | _⟩ <;> rfl

end JsonForm

section Values

variable {α : Type}

/-- The description with these values in place of its own. -/
def Description.mapValues (f : α → α) : Description α → Description α
  | .branch datamap nodemap values children => .branch datamap nodemap (values.map f) children
  | .collision values => .collision (values.map f)

/-- The snapshot with these values in place of its own. -/
def Snapshot.mapValues (f : α → α) (s : Snapshot α) : Snapshot α :=
  { s with nodes := s.nodes.map fun _ d => d.mapValues f }

theorem Description.mapValues_eq_self_iff {f : α → α} {d : Description α} :
    d.mapValues f = d ↔ ∀ v ∈ d.values, f v = v := by
  have same : d.values.map f = d.values ↔ ∀ v ∈ d.values, f v = v := by
    simpa using List.map_inj_left (l := d.values) (f := f) (g := id)
  rw [← same]
  cases d <;> simp [mapValues, values]

/-- A snapshot is the same with other values exactly if none of its values is another. -/
theorem Snapshot.mapValues_eq_self_iff {f : α → α} {s : Snapshot α} :
    s.mapValues f = s ↔ ∀ x d, s.node? x = some d → ∀ v ∈ d.values, f v = v := by
  simp only [← Description.mapValues_eq_self_iff]
  constructor
  · intro same x d stored
    have found : (s.mapValues f).node? x = some (d.mapValues f) :=
      Std.ExtTreeMap.getElem?_map.trans (congrArg (Option.map _) stored)
    rw [same, stored] at found
    exact (Option.some.inj found).symm
  · intro same
    have nodes : s.nodes.map (fun _ d => d.mapValues f) = s.nodes := Std.ExtTreeMap.ext_getElem? fun x => by
      rw [Std.ExtTreeMap.getElem?_map]
      cases stored : s.nodes[x]? with
      | none => rfl
      | some d => exact congrArg some (same x d stored)
    rw [mapValues, nodes]

theorem Snapshot.mapValues_id (s : Snapshot α) : s.mapValues id = s :=
  mapValues_eq_self_iff.mpr fun _ _ _ _ _ => rfl

end Values

section JsonForm

open Json Reader

variable {α : Type} [JsonForm α] {depth : Nat} {f : α → α}

/-- The values of a description stand three brackets further in. -/
theorem Description.reads {d : Description α}
    (values : ∀ v ∈ d.values, (JsonForm.read depth : Reader α).Reads (JsonForm.toJson v).compact (f v)) :
    (JsonForm.read (depth + 3) : Reader (Description α)).Reads (JsonForm.toJson d).compact (d.mapValues f) := by
  cases d with
  | branch datamap nodemap own children =>
    have ids : (JsonForm.read (depth + 1) : Reader (List Id)).Reads (JsonForm.toJson children).compact children :=
      reads_list fun id _ => LawfulJsonForm.reads id (Nat.zero_le _)
    exact reads_content rfl (reads_record (.value rfl rfl rfl (Nat.zero_le _) (.value rfl rfl rfl (Nat.zero_le _)
      (.cons rfl rfl ((reads_list_map values).bind_pure _) (.cons rfl rfl (ids.bind_pure _) (.nil _))))) rfl)
  | collision own =>
    exact reads_content rfl (reads_record (.cons rfl rfl ((reads_list_map values).bind_pure _) (.nil _)) rfl)

/-- A map of ids is read if its entries are, whatever each of them is read as. -/
theorem reads_entries {β : Type} [JsonForm β] {m : Std.ExtTreeMap Id β} {g : β → β} (each : ∀ entry ∈ m.toList,
      (JsonForm.read depth : Reader β).Reads (JsonForm.toJson entry.2).compact (g entry.2)) :
    (JsonForm.read (depth + 1) : Reader (Std.ExtTreeMap Id β)).Reads (JsonForm.toJson m).compact
      (m.map fun _ => g) := by
  have entries : Reads (object Id.ofText? JsonForm.read (depth + 1))
      (obj (m.toList.map fun entry => (entry.1.hex, JsonForm.toJson entry.2))).compact
      (m.toList.map (·.map id g)) :=
    reads_object_map fun entry member => ⟨Id.ofText?_hex entry.1, each entry member⟩
  have built := entries.bind_pure fun entries => entries.foldl (fun (built : Std.ExtTreeMap Id β compare) entry =>
    built.insert entry.1 entry.2) ∅
  have listed : m.toList.map (·.map id g) = (m.map fun _ => g).toList := by
    rw [Std.ExtTreeMap.toList_map]
    rfl
  rw [listed, foldl_insert_toList] at built
  exact built

namespace JsonForm

/-- How many brackets a value may open in the text of an archive, in which it stands behind five others. -/
def valueDepth : Nat := nestingLimit - 5

/-- What the text of a value is read as in that of an archive. -/
def ReadsAs (v w : α) : Prop := (read valueDepth : Reader α).Reads (toJson v).compact w

/-- A value that is read back from its own text. -/
def Survives (v : α) : Prop := ReadsAs v v

theorem survives_of_lawful [LawfulJsonForm α] {v : α} (shallow : (toJson v).depth ≤ valueDepth) : Survives v :=
  LawfulJsonForm.reads v shallow

/-- What is written as `null` is read as absent. -/
theorem readsAs_none {o : Option α} (null : toJson o = .null) : ReadsAs o none := by
  intro rest ends
  rw [null, show Json.null.compact ++ rest = 0x6e :: (ull ++ rest) from rfl]
  simp only [read]
  rw [run_start_bind _ _ rfl, if_pos rfl]
  exact Reading.run_bind_of_ok (reads_null rest ends) _

end JsonForm

/-- The texts of its values are read as these. -/
def Archive.ReadsAs (a : Archive α) (f : α → α) : Prop :=
  ∀ x d, a.node? x = some d → ∀ v ∈ d.values, JsonForm.ReadsAs v (f v)

/-- All its values are read back from their texts. -/
def Archive.Survives (a : Archive α) : Prop := a.ReadsAs id

theorem Archive.survives_of_lawful [LawfulJsonForm α] {a : Archive α}
    (shallow : ∀ v : α, (JsonForm.toJson v).depth ≤ JsonForm.valueDepth) : a.Survives :=
  fun _ _ _ v _ => JsonForm.survives_of_lawful (shallow v)

/-- A snapshot is read from its text with what the texts of its values are read as. -/
theorem Snapshot.parse_write {s : Snapshot α} (reads : s.toArchive.ReadsAs f) :
    JsonForm.parse (Snapshot α) (JsonForm.write s) = .ok (s.mapValues f) := by
  have nodes : (JsonForm.read (JsonForm.valueDepth + 4) : Reader (Std.ExtTreeMap Id (Description α))).Reads
      (JsonForm.toJson s.nodes).compact (s.nodes.map fun _ => Description.mapValues f) :=
    reads_entries fun entry member =>
      Description.reads (reads entry.1 entry.2 (Std.ExtTreeMap.mem_toList_iff_getElem?_eq_some.mp member))
  have roots : (JsonForm.read (JsonForm.valueDepth + 4) : Reader (Std.ExtTreeMap Id Root)).Reads
      (JsonForm.toJson s.roots).compact (s.roots.map fun _ => id) :=
    reads_entries fun entry _ => LawfulJsonForm.reads entry.2 (by rw [Root.depth_toJson]; decide)
  have same : (s.roots.map fun _ => id) = s.roots := Std.ExtTreeMap.ext_getElem? fun x => by
    rw [Std.ExtTreeMap.getElem?_map, Option.map_id_fun, id]
  rw [same] at roots
  have whole : (JsonForm.read (JsonForm.valueDepth + 5) : Reader (Snapshot α)).Reads (JsonForm.toJson s).compact
      (s.mapValues f) :=
    reads_record (.value rfl rfl rfl (Nat.zero_le _)
      (.cons rfl rfl (nodes.bind_pure _) (.cons rfl rfl (roots.bind_pure _) (.nil _)))) rfl
  exact whole.document

end JsonForm

end TrieArchive
