import TrieArchive.Proofs.File.RoundTrip
import TrieArchive.Proofs.Frame.Truncation
import TrieArchive.Proofs.Json.Guarded

/-! Archive files that were cut short. Whatever is missing from the end of a file, reading it fails: it never yields an
archive with less in it. -/
namespace TrieArchive

section JsonForm

open Json.Reader

instance : GuardedJsonForm Id :=
  ⟨fun id _ deep => JsonForm.guards_of_text (LawfulJsonForm.reads id deep), fun _ _ _ => .refl _⟩

instance : GuardedJsonForm Kind where
  guards kind _ _ := by
    cases kind
    · exact guards_alone rfl rfl
    · exact guards_alone rfl rfl
  narrowing := narrowing_alternative fun _ _ _ => .cons (.refl _) (.cons (.refl _) .nil)

instance : GuardedJsonForm Root where
  guards r depth deep := by
    obtain ⟨depth, rfl, inside⟩ := Json.exists_inside_obj deep
    exact guards_record (.value rfl rfl rfl (inside _ (.head _)) fun _ => .value rfl rfl rfl (inside _ (.tail _ (.head _)))
      fun _ => .value rfl rfl rfl (inside _ (.tail _ (.tail _ (.head _)))) fun _ => .nil rfl)
  narrowing := narrowing_record (fun _ _ le => .cons (.value le) (.cons (.value le) (.cons (.value le) .nil))) _ _

variable {α : Type} [JsonForm α] [GuardedJsonForm α]

theorem Description.narrowing_readBranch : Narrowing (readBranch (α := α)) :=
  narrowing_record (fun _ _ le => .cons (.value le) (.cons (.value le) (.cons (.value le) (.cons (.value le) .nil)))) _ _

theorem Description.narrowing_readCollision : Narrowing (readCollision (α := α)) :=
  narrowing_record (fun _ _ le => .cons (.value le) .nil) _ _

instance : GuardedJsonForm (Description α) where
  guards d depth deep := by
    cases d with
    | branch datamap nodemap values children =>
      obtain ⟨depth, rfl, content⟩ := Json.exists_inside_obj deep
      obtain ⟨depth, rfl, inside⟩ := Json.exists_inside_obj (content _ (.head _))
      exact guards_content rfl (guards_record (.value rfl rfl rfl (inside _ (.head _)) fun _ =>
        .value rfl rfl rfl (inside _ (.tail _ (.head _))) fun _ =>
        .value rfl rfl rfl (inside _ (.tail _ (.tail _ (.head _)))) fun _ =>
        .value rfl rfl rfl (inside _ (.tail _ (.tail _ (.tail _ (.head _))))) fun _ => .nil rfl))
    | collision values =>
      obtain ⟨depth, rfl, content⟩ := Json.exists_inside_obj deep
      obtain ⟨depth, rfl, inside⟩ := Json.exists_inside_obj (content _ (.head _))
      exact guards_content rfl (guards_record (.value rfl rfl rfl (inside _ (.head _)) fun _ => .nil rfl))
  narrowing := narrowing_alternative fun _ _ le =>
    .cons ⟨rfl, rfl, Description.narrowing_readBranch le⟩ (.cons ⟨rfl, rfl, Description.narrowing_readCollision le⟩ .nil)

instance : GuardedJsonForm (Std.ExtTreeMap Id α) where
  guards m depth deep := by
    obtain ⟨depth, rfl, inside⟩ := Json.exists_inside_obj deep
    have each (entry : Id × α) (member : entry ∈ m.toList) :
        Guards (JsonForm.read depth : Json.Reader α) (JsonForm.toJson entry.2).compact :=
      GuardedJsonForm.guards entry.2 (inside (entry.1.hex, JsonForm.toJson entry.2) (List.mem_map_of_mem member))
    exact (guards_object Id.ofText?_hex each).bind_pure _
  narrowing _ _ le := (GuardedJsonForm.narrowing.object le).bind fun _ => .refl _

variable {s : Snapshot α} {front : Bytes}

/-- The text of a snapshot closes with its last byte. -/
theorem Snapshot.document_of_front (part : front <+: JsonForm.write s) (cut : front ≠ JsonForm.write s) {depth : Nat}
    (deep : (JsonForm.toJson s).depth ≤ depth) :
    document (JsonForm.read depth : Json.Reader (Snapshot α)) front = .error .truncated := by
  obtain ⟨depth, rfl, inside⟩ := Json.exists_inside_obj deep
  have starves : Starves (JsonForm.read (depth + 1) : Json.Reader (Snapshot α)) (0x7b :: Json.compactFields
      [("version", JsonForm.toJson s.version), ("nodes", JsonForm.toJson s.nodes), ("roots", JsonForm.toJson s.roots)]) :=
    starves_record (.value rfl rfl rfl (inside _ (.head _)) fun _ => .value rfl rfl rfl (inside _ (.tail _ (.head _)))
      fun _ => .value rfl rfl rfl (inside _ (.tail _ (.tail _ (.head _)))) fun _ => .nil rfl)
  exact starves.document ((List.prefix_concat_iff.mp part).resolve_left cut)

theorem Snapshot.narrowing_read : Narrowing (JsonForm.read : (depth : Nat) → Json.Reader (Snapshot α)) :=
  narrowing_record (fun _ _ le => .cons (.value le) (.cons (.value le) (.cons (.value le) .nil))) _ _

/-- A text with values in too many brackets is refused for these, if they are still in it. -/
theorem Snapshot.parse_of_front (part : front <+: JsonForm.write s) (cut : front ≠ JsonForm.write s) :
    JsonForm.parse (Snapshot α) front = .error .truncated ∨ JsonForm.parse (Snapshot α) front = .error .malformed :=
  (narrowing_read (Nat.le_max_left nestingLimit (JsonForm.toJson s).depth)).document
    (document_of_front part cut (Nat.le_max_right _ _))

end JsonForm

namespace ArchiveFile

variable {α : Type} [Compression] [Binary α] [JsonForm α]

/-- A file that ends inside its header is told from every other. -/
theorem decode_short {front : Bytes} (short : front.length < headerSize) : decode (α := α) front = .error .tooShort := by
  rw [decode, if_pos (by rw [List.length_take]; omega)]
  rfl

/-- Behind a whole header, the body decides. -/
theorem decode_of_body {e : Encoding} {rest : Bytes} {fault : FileError}
    (refused : decodeBody (α := α) e rest = .error fault) : decode (α := α) (header e ++ rest) = .error fault := by
  have front : (header e ++ rest).take headerSize = header e := List.take_left' (length_header e)
  have back : (header e ++ rest).drop headerSize = rest := List.drop_left' (length_header e)
  rw [decode, front, back]
  simp only [length_header, take_header, version_header, encoding_header, refused]
  rfl

/-- What a body that was cut short may be refused for: by what unpacks it if it is binary, and as a JSON text for its
missing end, or for values in too many brackets if there are any in it. -/
def CutFault (s : Snapshot α) : Encoding → FileError → Prop
  | .binary, fault => ∃ io, fault = .io io
  | .json, fault =>
    fault = .json .truncated ∨ fault = .json .malformed ∧ Json.Reader.nestingLimit < (JsonForm.toJson s).depth

theorem decodeBody_of_front [StrictCompression] [GuardedJsonForm α] {s : Snapshot α} {e : Encoding} {front : Bytes}
    (part : front <+: body s e) (cut : front ≠ body s e) :
    ∃ fault, CutFault s e fault ∧ decodeBody (α := α) e front = .error fault := by
  cases e with
  | binary =>
    obtain ⟨io, refused⟩ := StrictCompression.decompress_of_front part cut
    refine ⟨.io io, ⟨io, rfl⟩, ?_⟩
    rw [decodeBody, refused]
    rfl
  | json =>
    rcases Nat.lt_or_ge Json.Reader.nestingLimit (JsonForm.toJson s).depth with high | deep
    · rcases Snapshot.parse_of_front part cut with refused | refused
      · exact ⟨_, .inl rfl, congrArg (Except.mapError FileError.json) refused⟩
      · exact ⟨_, .inr ⟨rfl, high⟩, congrArg (Except.mapError FileError.json) refused⟩
    · exact ⟨_, .inl rfl, congrArg (Except.mapError FileError.json) (Snapshot.document_of_front part cut deep)⟩

end ArchiveFile

/-- A file from whose end bytes are missing is refused, in either encoding and wherever it was cut: as too short for a file
where the header is not whole, and else by the reader of its body. All that is asked of the compression is that it refuses
what was cut short. -/
theorem truncated_file_refused {α : Type} [Compression] [StrictCompression] [Binary α] [JsonForm α] [GuardedJsonForm α]
    (s : Snapshot α) (e : Encoding) {front : Bytes} (part : front <+: ArchiveFile.encode s e)
    (cut : front ≠ ArchiveFile.encode s e) :
    (front.length < ArchiveFile.headerSize → ArchiveFile.decode (α := α) front = .error .tooShort) ∧
      (ArchiveFile.headerSize ≤ front.length →
        ∃ fault, ArchiveFile.CutFault s e fault ∧ ArchiveFile.decode (α := α) front = .error fault) := by
  refine ⟨ArchiveFile.decode_short, fun whole => ?_⟩
  rcases Reading.prefix_append_cases part with ⟨inside, other⟩ | ⟨rest, rfl, behind⟩
  · have same : front.length = (ArchiveFile.header e).length := by
      have length := inside.length_le
      rw [ArchiveFile.length_header] at length ⊢
      omega
    exact absurd (inside.eq_of_length same) other
  · obtain ⟨fault, cause, refused⟩ := ArchiveFile.decodeBody_of_front behind fun same => cut (by rw [same]; rfl)
    exact ⟨fault, cause, ArchiveFile.decode_of_body refused⟩

/-- A note beside a unit, written as `null` where it is there, in files without their last byte and in half a header. -/
theorem truncated_file_refused_made_up_note :
    let notes : List (Tag × Option Unit) := [(⟨7, "\"é\n"⟩, some ())]
    let s : Snapshot (Tag × Option Unit) :=
      ⟨⟨(∅ : Std.ExtTreeMap Id (Description _)).insert (Id.blake3 []) (.collision notes), ∅⟩, 1⟩
    (∃ fault, ArchiveFile.decode (α := Tag × Option Unit) (ArchiveFile.encode s .binary).dropLast =
        .error (.io fault)) ∧
      (∃ fault, ArchiveFile.decode (α := Tag × Option Unit) (ArchiveFile.encode s .json).dropLast =
        .error (.json fault)) ∧
      ArchiveFile.decode (α := Tag × Option Unit) ((ArchiveFile.encode s .json).take 8) = .error .tooShort := by
  intro notes s
  have long (e : Encoding) : 16 < (ArchiveFile.encode s e).length := by
    have length := ArchiveFile.length_header e
    rw [ArchiveFile.encode, List.length_append, length]
    refine Nat.lt_add_of_pos_right ?_
    cases e <;> exact Nat.zero_lt_succ _
  have last (e : Encoding) : (ArchiveFile.encode s e).dropLast ≠ ArchiveFile.encode s e := fun same => by
    have length := congrArg List.length same
    rw [List.length_dropLast] at length
    have := long e
    omega
  have headed (e : Encoding) : ArchiveFile.headerSize ≤ (ArchiveFile.encode s e).dropLast.length := by
    have := long e
    rw [List.length_dropLast, ArchiveFile.headerSize]
    omega
  have half : ((ArchiveFile.encode s .json).take 8).length = 8 := by
    have := long .json
    rw [List.length_take]
    omega
  have cut : (ArchiveFile.encode s .json).take 8 ≠ ArchiveFile.encode s .json := fun same => by
    have := long .json
    rw [same] at half
    omega
  obtain ⟨_, ⟨io, rfl⟩, packed⟩ :=
    (truncated_file_refused s .binary (List.dropLast_prefix _) (last .binary)).2 (headed .binary)
  obtain ⟨fault, cause, refused⟩ :=
    (truncated_file_refused s .json (List.dropLast_prefix _) (last .json)).2 (headed .json)
  have text : ∃ missing, fault = .json missing := by
    rcases cause with rfl | ⟨rfl, -⟩
    · exact ⟨_, rfl⟩
    · exact ⟨_, rfl⟩
  obtain ⟨missing, rfl⟩ := text
  refine ⟨⟨io, packed⟩, ⟨missing, refused⟩, (truncated_file_refused s .json (List.take_prefix 8 _) cut).1 ?_⟩
  rw [half]
  decide

end TrieArchive
