import TrieArchive.Cli.Command
import TrieArchive.Proofs.Archive.Transfer
import TrieArchive.Proofs.Container.CanonicalForm
import TrieArchive.Proofs.Element.HexText

/-! What the commands answer for the archive that they find in their file. -/
namespace TrieArchive.Cli

variable [Compression] {i : Invocation} {stored : Stored} {a : Archive String}

theorem openArchive_content {path : String} {file : Bytes} {s : Snapshot String} {e : Encoding}
    (decoded : ArchiveFile.decode file = .ok (s, e)) : openArchive path (.content file) = .ok s.toArchive := by
  simp only [openArchive, pure, Except.pure, bind, Except.bind, decoded, Except.mapError]

/-- Texts are always read back from their own, so all that is asked for is that a binary file can tell lengths. -/
theorem decode_encode_texts [LawfulCompression] {e : Encoding} (fits : e = .binary → ArchiveFile.Encodable a) :
    ArchiveFile.decode (ArchiveFile.encode (.ofArchive a) e) = .ok (.ofArchive a, e) := by
  have carried : ArchiveFile.Carries (.ofArchive a) e := by
    cases e with
    | binary => exact fits rfl
    | json => exact Archive.survives_of_lawful fun _ => Nat.zero_le _
  exact ArchiveFile.decode_encode carried

/-- An archive is found in the file that it was written to. -/
theorem openArchive_encode [LawfulCompression] {e : Encoding} (fits : e = .binary → ArchiveFile.Encodable a)
    (path : String) : openArchive path (.content (ArchiveFile.encode (.ofArchive a) e)) = .ok a :=
  openArchive_content (decode_encode_texts fits)

omit [Compression] in
theorem loadFrom_eq (l : Loader String) (id : Id) : loadFrom l id =
    ((TrieSet.load l id).1.mapError fun e => ⟨e.message, none⟩, (TrieSet.load l id).2) := rfl

section Saving

/-- What saving a set writes to the file and prints. -/
def saved (i : Invocation) (a : Archive String) (s : TrieSet String) : Outcome where
  write := some (ArchiveFile.encode (.ofArchive (s.save a).1) i.encoding)
  output := render i.format (.obj [("id", .str (s.save a).2.hex),
    ("new_nodes", num ((s.save a).1.nodes.size - a.nodes.size)), ("nodes", num (s.save a).1.nodes.size),
    ("size", num s.size), ("status", .str "ok")])
  failure := none

theorem run_save_ok {values : List String} {base : Option String} (save : i.command = .save values base)
    {start : TrieSet String} (started : saveStart i.archive base stored = .ok (a, start)) :
    run i stored = saved i a (start.transient.extend values).persistent := by
  rw [run, save]
  simp only [Cli.save, started, bind, Except.bind]
  rfl

theorem run_save_error {values : List String} {base : Option String} (save : i.command = .save values base)
    {e : Failure} (refused : saveStart i.archive base stored = .error e) : run i stored = ⟨none, [], some e⟩ := by
  rw [run, save]
  simp only [Cli.save, refused, bind, Except.bind]

/-- A save starts from nothing or from what a fresh loader finds. -/
theorem reachable_of_saveStart {path : String} {base : Option String} {start : TrieSet String}
    (started : saveStart path base stored = .ok (a, start)) : TrieSet.Reachable (.frozen start) := by
  unfold saveStart at started
  split at started
  · cases started
    exact .empty
  · cases started
  · obtain ⟨b, -, started⟩ := Except.bind_eq_ok_iff.mp started
    cases started
    exact .empty
  · obtain ⟨b, -, started⟩ := Except.bind_eq_ok_iff.mp started
    obtain ⟨id, -, started⟩ := Except.bind_eq_ok_iff.mp started
    obtain ⟨s, found, started⟩ := Except.bind_eq_ok_iff.mp started
    cases started
    exact .load .fresh (Except.mapError_eq_ok_iff.mp found)

end Saving

section Loading

/-- What loading a set prints. -/
def loaded (i : Invocation) (id : Id) (s : TrieSet String) : Outcome :=
  printed i.format (.obj [("id", .str id.hex), ("size", num s.size),
    ("values", .arr ((Std.ExtTreeSet.ofList s.toList).toList.map .str))])

theorem run_load_ok {id : Id} (load : i.command = .load id.hex) (opened : openArchive i.archive stored = .ok a)
    {s : TrieSet String} (found : (TrieSet.load (.ofArchive a) id).1 = .ok s) : run i stored = loaded i id s := by
  rw [run, load]
  simp only [Cli.load, parseId, Id.parse_hex, opened, bind, Except.bind, loadFrom_eq, found]
  rfl

theorem run_load_error {id : Id} (load : i.command = .load id.hex) (opened : openArchive i.archive stored = .ok a)
    {e : LoadError} (refused : (TrieSet.load (.ofArchive a) id).1 = .error e) :
    run i stored = ⟨none, [], some ⟨e.message, none⟩⟩ := by
  rw [run, load]
  simp only [Cli.load, parseId, Id.parse_hex, opened, bind, Except.bind, loadFrom_eq, refused]
  rfl

omit [Compression] in
/-- Sets with the same texts are printed alike. -/
theorem loaded_eq_of_perm {s t : TrieSet String} (size : s.size = t.size) (same : s.toList.Perm t.toList)
    (i : Invocation) (id : Id) : loaded i id s = loaded i id t := by
  have texts : Std.ExtTreeSet.ofList s.toList = Std.ExtTreeSet.ofList t.toList := by
    refine Std.ExtTreeSet.ext_mem fun k => ?_
    rw [Std.ExtTreeSet.mem_ofList, Std.ExtTreeSet.mem_ofList, same.contains_eq]
  rw [loaded, loaded, size, texts]

end Loading

/-- How the roots of an archive are listed. -/
def rootListing (a : Archive String) : List Json :=
  a.roots.toList.map fun entry => .obj [("id", .str entry.1.hex), ("kind", .str entry.2.kind.name),
    ("node", .str entry.2.node.hex), ("size", num entry.2.size.toNat)]

theorem run_inspect_ok (inspect : i.command = .inspect) (opened : openArchive i.archive stored = .ok a) :
    run i stored = printed i.format (.obj [("nodes", num a.nodes.size), ("roots", .arr (rootListing a)),
      ("version", num formatVersion.toNat)]) := by
  rw [run, inspect, Cli.inspect, opened]
  rfl

section Verifying

theorem run_verify_ok (verify : i.command = .verify) (opened : openArchive i.archive stored = .ok a)
    {l : Loader String} (all : loadAll a.rootIds (.ofArchive a) = .ok l) :
    run i stored = printed i.format (.obj [("nodes", num l.cache.size), ("roots", num a.roots.size),
      ("status", .str "ok")]) := by
  rw [run, verify, Cli.verify, opened]
  simp only [bind, Except.bind, all]
  rfl

theorem run_verify_error (verify : i.command = .verify) (opened : openArchive i.archive stored = .ok a)
    {id : Id} {e : Failure} (first : loadAll a.rootIds (.ofArchive a) = .error (id, e)) :
    run i stored = {
      write := none
      output := render i.format (.obj [("error", .str e.message), ("id", .str id.hex), ("status", .str "error")])
      failure := some ⟨"Archive " ++ i.archive ++ " failed verification", none⟩ } := by
  rw [run, verify, Cli.verify, opened]
  simp only [bind, Except.bind, first]
  rfl

end Verifying

end TrieArchive.Cli
