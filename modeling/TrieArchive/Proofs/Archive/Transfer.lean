import TrieArchive.Proofs.File.RoundTrip

/-! Archives that are handed over: as they are, as a snapshot, as a JSON text or as a file. What arrives is what
was sent, but for values that their own texts lose. -/
namespace TrieArchive

variable {α : Type}

/-- All lengths in an archive fit in eight bytes, as those of archives in memory do. -/
def ArchiveFile.Encodable [Binary α] [LawfulBinary α] (a : Archive α) : Prop :=
  LawfulBinary.Fits (Snapshot.ofArchive a)

/-- The numbers of entries fit in a word, as those of archives in memory do. -/
def Archive.Counted (a : Archive α) : Prop := a.nodes.size < 2 ^ 64 ∧ a.roots.size < 2 ^ 64

instance (a : Archive α) : Decidable a.Counted := inferInstanceAs (Decidable (_ ∧ _))

theorem Archive.encodable_iff [Binary α] [LawfulBinary α] {a : Archive α} :
    ArchiveFile.Encodable a ↔ a.Counted ∧ ∀ x d, a.node? x = some d → LawfulBinary.Fits d := by
  have stored {x : Id} {d : Description α} : (x, d) ∈ a.nodes.toList ↔ a.node? x = some d :=
    Std.ExtTreeMap.mem_toList_iff_getElem?_eq_some
  rw [Counted, ← Std.ExtTreeMap.length_toList, ← Std.ExtTreeMap.length_toList]
  constructor
  · rintro ⟨⟨fewNodes, nodes⟩, fewRoots, -⟩
    exact ⟨⟨fewNodes, fewRoots⟩, fun x d found => (nodes (x, d) (stored.mpr found)).2⟩
  · rintro ⟨⟨fewNodes, fewRoots⟩, nodes⟩
    exact ⟨⟨fewNodes, fun p member => ⟨trivial, nodes p.1 p.2 (stored.mp member)⟩⟩, fewRoots,
      fun _ _ => ⟨trivial, trivial⟩⟩

/-- The ways to hand an archive over. -/
inductive Transfer where
  | direct
  | snapshot
  | json
  | file (e : Encoding)

namespace Transfer

/-- The archive that arrives. -/
def send [Compression] [Binary α] [JsonForm α] (a : Archive α) : Transfer → Except FileError (Archive α)
  | .direct => .ok a
  | .snapshot => (Snapshot.ofArchive a).open?.mapError .versionMismatch
  | .json => ArchiveFile.ofJson (JsonForm.write (Snapshot.ofArchive a))
  | .file e => do
    let (s, _) ← ArchiveFile.decode (ArchiveFile.encode (.ofArchive a) e)
    s.open?.mapError .versionMismatch

/-- What a way asks of an archive. A binary file has numbers of eight bytes, and from a text all values have to be read
back. -/
def Carries [JsonForm α] (a : Archive α) : Transfer → Prop
  | .direct | .snapshot => True
  | .json | .file .json => a.Survives
  | .file .binary => a.Counted

variable [Compression] [Binary α] [JsonForm α] {a : Archive α}

/-- A text arrives with its values as they are read. -/
theorem send_json {f : α → α} (reads : a.ReadsAs f) :
    Transfer.json.send a = .ok ((Snapshot.ofArchive a).mapValues f).toArchive :=
  ArchiveFile.ofJson_write (s := .ofArchive a) reads

/-- An archive arrives as it was sent. -/
theorem send_eq_ok [LawfulCompression] [LawfulBinary α] {via : Transfer} (carried : via.Carries a)
    (fits : ∀ x d, a.node? x = some d → LawfulBinary.Fits d) : via.send a = .ok a := by
  have file {e : Encoding} (carried : ArchiveFile.Carries (.ofArchive a) e) : (Transfer.file e).send a = .ok a := by
    rw [send, ArchiveFile.decode_encode carried]
    rfl
  match via with
  | .direct => rfl
  | .snapshot => rfl
  | .json =>
    rw [send_json carried, Snapshot.mapValues_id]
    rfl
  | .file .json => exact file carried
  | .file .binary => exact file (e := .binary) (Archive.encodable_iff.mpr ⟨carried, fits⟩)

end Transfer

end TrieArchive
