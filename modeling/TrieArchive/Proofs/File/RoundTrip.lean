import TrieArchive.File.Basic
import TrieArchive.Proofs.Archive.Codec
import TrieArchive.Proofs.Frame.RoundTrip

/-! Files and JSON texts give back the snapshot that they were made of, whatever is in it. A snapshot of another version
is written like any other and refused by its reader. -/
namespace TrieArchive

variable {α : Type}

namespace ArchiveFile

theorem length_header (e : Encoding) : (header e).length = headerSize := by cases e <;> rfl

theorem take_header (e : Encoding) : (header e).take 8 = magic := by cases e <;> rfl

theorem version_header (e : Encoding) :
    UInt32.ofNat (Bytes.value (((header e).drop 8).take 4)) = formatVersion := by cases e <;> rfl

theorem encoding_header (e : Encoding) : Encoding.ofByte? (((header e).drop 12).headD 0) = some e := by
  cases e <;> rfl

variable [JsonForm α] {s : Snapshot α} {f : α → α}

/-- The text of a snapshot is read as far as its version allows. -/
theorem ofJson_write (reads : s.toArchive.ReadsAs f) :
    ofJson (JsonForm.write s) = (s.mapValues f).open?.mapError .versionMismatch := by
  rw [ofJson, Snapshot.parse_write reads]
  rfl

variable [Compression] [Binary α]

/-- A body that is read decides what the file is decoded to, as far as the version allows. -/
theorem decode_encode_of_body {e : Encoding} {t : Snapshot α} (content : decodeBody e (body s e) = .ok t) :
    decode (encode s e) = (t.open?.mapError .versionMismatch).map fun _ => (t, e) := by
  have front : (encode s e).take headerSize = header e := List.take_left' (length_header e)
  have back : (encode s e).drop headerSize = body s e := List.drop_left' (length_header e)
  rw [decode, front, back]
  simp only [length_header, take_header, version_header, encoding_header, content]
  change (t.open?.mapError FileError.versionMismatch >>= fun _ => .ok (t, e)) = _
  cases t.open? <;> rfl

theorem decode_encode_binary [LawfulCompression] [LawfulBinary α] (fits : LawfulBinary.Fits s) :
    decode (encode s .binary) = (s.open?.mapError .versionMismatch).map fun _ => (s, .binary) := by
  refine decode_encode_of_body ?_
  rw [decodeBody, body, LawfulCompression.decompress_compress]
  simp only [Except.mapError, bind, Except.bind, Binary.read_encode fits]

theorem decode_encode_json (reads : s.toArchive.ReadsAs f) : decode (encode s .json) =
    ((s.mapValues f).open?.mapError .versionMismatch).map fun _ => (s.mapValues f, .json) := by
  refine decode_encode_of_body ?_
  rw [decodeBody, body, Snapshot.parse_write reads]
  rfl

/-- What an encoding asks of a snapshot to give it back. In a binary file all lengths have to fit in eight bytes, as those
of values in memory do, and in a text all values have to be read back from their own. -/
def Carries [LawfulBinary α] (s : Snapshot α) : Encoding → Prop
  | .binary => LawfulBinary.Fits s
  | .json => s.toArchive.Survives

/-- A file is decoded to the snapshot and the encoding it was made of, as far as the version allows. -/
theorem decode_encode [LawfulCompression] [LawfulBinary α] {e : Encoding} (carried : Carries s e) :
    decode (encode s e) = (s.open?.mapError .versionMismatch).map fun _ => (s, e) := by
  cases e with
  | binary => exact decode_encode_binary carried
  | json =>
    have read := decode_encode_json (f := id) carried
    rwa [Snapshot.mapValues_id] at read

end ArchiveFile

/-- Only its values have to be read, if an archive has one node. -/
theorem Archive.readsAs_of_single [JsonForm α] {id : Id} {d : Description α} {roots : Std.ExtTreeMap Id Root} {f : α → α}
    (reads : ∀ v ∈ d.values, JsonForm.ReadsAs v (f v)) :
    Archive.ReadsAs ⟨(∅ : Std.ExtTreeMap Id (Description α)).insert id d, roots⟩ f := by
  intro x d' stored v member
  rw [node?, Std.ExtTreeMap.get?_eq_getElem?, Std.ExtTreeMap.getElem?_insert] at stored
  split at stored
  · cases stored
    exact reads v member
  · simp at stored

theorem LawfulBinary.fits_empty {β : Type} [Binary β] [LawfulBinary β] : Fits (∅ : Std.ExtTreeMap Id β) := by
  have none : (∅ : Std.ExtTreeMap Id β).toList = [] := List.isEmpty_iff.mp Std.ExtTreeMap.isEmpty_toList
  refine ⟨none ▸ Nat.two_pow_pos 64, fun _ member => ?_⟩
  rw [none] at member
  cases member

/-- An entry alone in its map only has to fit itself. -/
theorem LawfulBinary.fits_insert_empty {β : Type} [Binary β] [LawfulBinary β] (id : Id) {b : β} (fits : Fits b) :
    Fits ((∅ : Std.ExtTreeMap Id β).insert id b) := by
  have one : ((∅ : Std.ExtTreeMap Id β).insert id b).toList.length = 1 := by
    rw [Std.ExtTreeMap.length_toList, Std.ExtTreeMap.size_insert]
    simp
  refine ⟨by omega, fun entry member => ⟨trivial, ?_⟩⟩
  have held := Std.ExtTreeMap.mem_toList_iff_getElem?_eq_some.mp member
  rw [Std.ExtTreeMap.getElem?_insert] at held
  split at held
  · cases held
    exact fits
  · simp at held

end TrieArchive
