import TrieArchive.Proofs.Archive.Containers
import TrieArchive.Proofs.Archive.Resuming
import TrieArchive.Proofs.Cli.Commands
import TrieArchive.Proofs.Element.Equality

/-! Saves into archives of unknown origin. A save answers an id whatever the archive has stored already, and what stands
under the ids of the new container decides whether that id can be loaded. -/
namespace TrieArchive

namespace Cli

/-- A file that can be read is what a save without a base starts from. -/
theorem saveStart_content [Compression] {path : String} {file : Bytes} {t : Snapshot String} {e : Encoding}
    (decoded : ArchiveFile.decode file = .ok (t, e)) : saveStart path none (.content file) = .ok (t.toArchive, .empty) := by
  simp only [saveStart, openArchive_content decoded, bind, Except.bind]
  rfl

/-- What a later call of the program answers for the id that a save has printed. -/
theorem run_load_saved [Compression] [LawfulCompression] {a : Archive String} {s : TrieSet String}
    (reachable : TrieSet.Reachable (.frozen s)) (short : s.size < 2 ^ 64) (fits : ∀ v ∈ s.toList, LawfulBinary.Fits v)
    (encodable : ArchiveFile.Encodable (s.save a).1)
    (unique : NoCollision Id.blake3 (a.SavedHashed .blake3 .set s.trie)) {j : Invocation}
    (load : j.command = .load (s.save a).2.hex) (e : Encoding) :
    (a.Admits .blake3 .set s.trie →
        run j (.content (ArchiveFile.encode (.ofArchive (s.save a).1) e)) = loaded j (s.save a).2 s) ∧
      (¬ a.Admits .blake3 .set s.trie →
        (run j (.content (ArchiveFile.encode (.ofArchive (s.save a).1) e))).failure.isSome) := by
  have canonical : s.trie.Canonical TrieSet.scheme.toLayout := reachable.canonical
  have loads := Archive.load_save_iff_of_wraps canonical
    LawfulBinary.delimits unique fits (Archive.legible_of_encodable encodable) TrieSet.load TrieSet.trie
    (fun _ _ => rfl) (fun _ => rfl) TrieSet.layout_lawful short
  obtain ⟨exact, same⟩ := loads
  have opened := openArchive_encode (e := e) (fun _ => encodable) j.archive
  constructor
  · intro admits
    obtain ⟨t, found⟩ := exact.mpr admits
    obtain ⟨-, values, size⟩ := same t found
    rw [Trie.same, Bool.and_eq_true, beq_iff_eq] at size
    rw [run_load_ok load opened found]
    exact (loaded_eq_of_perm size.1 values j _).symm
  · intro taken
    cases found : (TrieSet.load (.ofArchive (s.save a).1) (s.save a).2).1 with
    | ok t => exact absurd (exact.mp ⟨t, found⟩) taken
    | error e =>
      rw [run_load_error load opened found]
      rfl

end Cli

/-- A container that is saved into an archive of whatever origin is loaded back if and only if the archive had nothing
under its ids that belongs under others, and nothing but this container is ever loaded for its id. The program prints an
id and that all went well in either case, and tells the difference when it is asked for that id. -/
theorem resumed_saves_load_exactly {α κ β : Type} [Compression] [LawfulCompression] [BEq α] [EquivBEq α] [StableHash α]
    [LawfulStableHash α] [Binary α] [LawfulBinary α] [BEq κ] [EquivBEq κ] [StableHash κ] [LawfulStableHash κ] [Binary κ]
    [LawfulBinary κ] [BEq β] [ReflBEq β] [Binary β] [LawfulBinary β] [Inhabited β] :
    (∀ (a : Archive α) (s : TrieSet α), TrieSet.Reachable (.frozen s) → s.size < 2 ^ 64 →
      (∀ v ∈ s.toList, LawfulBinary.Fits v) → ArchiveFile.Encodable (s.save a).1 →
      NoCollision Id.blake3 (a.SavedHashed .blake3 .set s.trie) →
      ((∃ t, (TrieSet.load (.ofArchive (s.save a).1) (s.save a).2).1 = .ok t) ↔ a.Admits .blake3 .set s.trie) ∧
        ∀ t, (TrieSet.load (.ofArchive (s.save a).1) (s.save a).2).1 = .ok t → s.trie.Matches t.trie ∧ s == t) ∧
    (∀ (a : Archive (κ × β)) (m : TrieMap κ β), TrieMap.Reachable (.frozen m) → m.size < 2 ^ 64 →
      (∀ v ∈ m.toList, LawfulBinary.Fits v) → ArchiveFile.Encodable (m.save a).1 →
      NoCollision Id.blake3 (a.SavedHashed .blake3 .map m.trie) →
      ((∃ n : TrieMap κ β, (TrieMap.load (.ofArchive (m.save a).1) (m.save a).2).1 = .ok n) ↔
          a.Admits .blake3 .map m.trie) ∧
        ∀ n, (TrieMap.load (.ofArchive (m.save a).1) (m.save a).2).1 = .ok n → m.trie.Matches n.trie ∧ m == n) ∧
    (∀ (path : String) (file : Bytes) (t : Snapshot String) (e : Encoding), ArchiveFile.decode file = .ok (t, e) →
      Cli.saveStart path none (.content file) = .ok (t.toArchive, .empty)) ∧
    (∀ (i : Cli.Invocation) (values : List String) (base : Option String) (stored : Cli.Stored) (a : Archive String)
      (start : TrieSet String), i.command = .save values base → Cli.saveStart i.archive base stored = .ok (a, start) →
      let s := (start.transient.extend values).persistent
      Cli.run i stored = {
        write := some (ArchiveFile.encode (.ofArchive (s.save a).1) i.encoding)
        output := Cli.render i.format (.obj [("id", .str (s.save a).2.hex),
          ("new_nodes", Cli.num ((s.save a).1.nodes.size - a.nodes.size)), ("nodes", Cli.num (s.save a).1.nodes.size),
          ("size", Cli.num s.size), ("status", .str "ok")])
        failure := none } ∧
      (s.size < 2 ^ 64 → (∀ v ∈ s.toList, LawfulBinary.Fits v) → ArchiveFile.Encodable (s.save a).1 →
        NoCollision Id.blake3 (a.SavedHashed .blake3 .set s.trie) →
        ∀ j : Cli.Invocation, j.command = .load (s.save a).2.hex →
          let after := Cli.Stored.content (ArchiveFile.encode (.ofArchive (s.save a).1) i.encoding)
          (a.Admits .blake3 .set s.trie → Cli.run j after = Cli.loaded j (s.save a).2 s) ∧
          (¬ a.Admits .blake3 .set s.trie → (Cli.run j after).failure.isSome))) := by
  refine ⟨?_, ?_, ?_, ?_⟩
  · intro a s reachable short fits encodable unique
    have canonical : s.trie.Canonical TrieSet.scheme.toLayout := reachable.canonical
    obtain ⟨exact, same⟩ := Archive.load_save_iff_of_wraps canonical
      LawfulBinary.delimits unique fits (Archive.legible_of_encodable encodable) TrieSet.load TrieSet.trie
      (fun _ _ => rfl) (fun _ => rfl) TrieSet.layout_lawful short
    exact ⟨exact, fun t loaded => ⟨same t loaded, (same t loaded).same⟩⟩
  · intro a m reachable short fits encodable unique
    have canonical : m.trie.Canonical TrieMap.scheme.toLayout := reachable.canonical
    obtain ⟨exact, same⟩ := Archive.load_save_iff_of_wraps canonical
      LawfulBinary.delimits unique fits (Archive.legible_of_encodable encodable) TrieMap.load TrieMap.trie
      (fun _ _ => rfl) (fun _ => rfl) TrieMap.layout_lawful short
    exact ⟨exact, fun n loaded => ⟨same n loaded, (same n loaded).same⟩⟩
  · exact fun path file t e => Cli.saveStart_content
  · intro i values base stored a start save started
    have reachable : TrieSet.Reachable (.frozen (start.transient.extend values).persistent) :=
      (((Cli.reachable_of_saveStart started).edit .transient).edit (.extend values)).edit .persistent
    refine ⟨Cli.run_save_ok save started, fun short fits encodable unique j load => ?_⟩
    exact Cli.run_load_saved reachable short fits encodable unique load i.encoding

/-- Two keys beside an entry that is not in order, a pair in an archive of its own, and two texts that the program saves
in a new file. -/
theorem resumed_saves_load_exactly_foreign_entry :
    let s := TrieSet.ofList [(0 : UInt32), 1]
    let a : Archive UInt32 := ⟨(∅ : Std.ExtTreeMap Id (Description UInt32)).insert (Id.blake3 []) (.collision []), ∅⟩
    let m := TrieMap.ofList [((0 : UInt32), 'a')]
    let u := TrieSet.ofList ["b", "a"]
    let i : Cli.Invocation := ⟨"archive", .json, .binary, .save ["b", "a"] none⟩
    let j : Cli.Invocation := ⟨"archive", .json, .binary, .load (u.save .empty).2.hex⟩
    (∃ t, (TrieSet.load (.ofArchive (s.save a).1) (s.save a).2).1 = .ok t ∧ s.trie.Matches t.trie) ∧
      (∃ n : TrieMap UInt32 Char, (TrieMap.load (.ofArchive (m.save .empty).1) (m.save .empty).2).1 = .ok n ∧
        m.trie.Matches n.trie) ∧
      ∀ fault, ∃ file, (Cli.run i (.absent fault)).write = some file ∧
        Cli.run j (.content file) = Cli.loaded j (u.save .empty).2 u := by
  intro s a m u i j
  obtain ⟨sets, maps, -, calls⟩ := resumed_saves_load_exactly (α := UInt32) (κ := UInt32) (β := Char)
  refine ⟨?_, ?_, fun fault => ?_⟩
  · have saveable : s.Saveable := TrieSet.saveable_ofList (by decide) fun _ _ => trivial
    have evaluated : ((s.trie.hashed .blake3 .set).map Id.blake3).Nodup ∧
        (∀ entry ∈ (s.trie.root.manifest .blake3).2, (a.node? entry.1).isNone) ∧ (s.save a).1.Counted := by
      decide +kernel
    obtain ⟨digests, unused, counted⟩ := evaluated
    clear_value s
    have free : a.Free .blake3 .set s.trie :=
      ⟨fun entry member => Option.isNone_iff_eq_none.mp (unused entry member), by simp [Archive.root?, a]⟩
    have entry : LawfulBinary.Fits (Description.collision ([] : List UInt32)) :=
      ⟨⟨by decide, fun _ _ => trivial⟩, by decide⟩
    have before : ArchiveFile.Encodable a := ⟨LawfulBinary.fits_insert_empty _ entry, LawfulBinary.fits_empty⟩
    obtain ⟨exact, same⟩ := sets a s saveable.reachable saveable.short saveable.fits
      (Archive.encodable_save (saveable.storable fun _ _ => trivial) (Archive.encodable_iff.mp before).2 counted)
      (free.noCollision (S := TrieSet.scheme) saveable.canonical saveable.short digests)
    obtain ⟨t, loaded⟩ := exact.mpr free.admits
    exact ⟨t, loaded, (same t loaded).1⟩
  · have saveable : m.Saveable := TrieMap.saveable_ofList (by decide) fun _ _ => ⟨trivial, trivial⟩
    have evaluated : ((m.trie.hashed .blake3 .map).map Id.blake3).Nodup ∧ (m.save .empty).1.Counted := by
      decide +kernel
    obtain ⟨digests, counted⟩ := evaluated
    clear_value m
    have free := Archive.free_empty .blake3 .map m.trie
    obtain ⟨exact, same⟩ := maps .empty m saveable.reachable saveable.short saveable.fits
      (Archive.encodable_save_new (saveable.storable fun _ _ => trivial) counted)
      (free.noCollision (S := TrieMap.scheme) saveable.canonical saveable.short digests)
    obtain ⟨n, loaded⟩ := exact.mpr free.admits
    exact ⟨n, loaded, (same n loaded).1⟩
  · obtain ⟨ran, loads⟩ := calls i ["b", "a"] none (.absent fault) .empty .empty rfl rfl
    have lengths : ∀ v ∈ ["b", "a"], (Bytes.ofText v).length < 2 ^ 64 := by decide +kernel
    have saveable : u.Saveable := TrieSet.saveable_ofList (by decide) lengths
    have evaluated : ((u.trie.hashed .blake3 .set).map Id.blake3).Nodup ∧ (u.save .empty).1.Counted := by
      decide +kernel
    obtain ⟨digests, counted⟩ := evaluated
    have free := Archive.free_empty .blake3 .set u.trie
    obtain ⟨answers, -⟩ := loads saveable.short saveable.fits
      (Archive.encodable_save_new (saveable.storable fun _ _ => trivial) counted)
      (free.noCollision (S := TrieSet.scheme) saveable.canonical saveable.short digests) j rfl
    exact ⟨_, congrArg Cli.Outcome.write ran, answers free.admits⟩

/-- An archive that has a collision of no values under the id of the empty tree. It can be read from a file, the empty
set is saved into it, and the id that the program prints is not loaded. -/
theorem save_under_taken_id :
    let s : TrieSet String := .empty
    let taken : Description String := .collision []
    let a : Archive String := ⟨(∅ : Std.ExtTreeMap Id (Description String)).insert (s.trie.root.identity .blake3) taken, ∅⟩
    let file := ArchiveFile.encode (.ofArchive a) .json
    let i : Cli.Invocation := ⟨"archive", .json, .json, .save [] none⟩
    let j : Cli.Invocation := ⟨"archive", .json, .json, .load (s.save a).2.hex⟩
    ArchiveFile.decode file = .ok (.ofArchive a, .json) ∧ TrieSet.Reachable (.frozen s) ∧
      NoCollision Id.blake3 (a.SavedHashed .blake3 .set s.trie) ∧
      (¬ ∃ t, (TrieSet.load (.ofArchive (s.save a).1) (s.save a).2).1 = .ok t) ∧
      Cli.run i (.content file) = Cli.saved i a s ∧
      (Cli.run j (.content (ArchiveFile.encode (.ofArchive (s.save a).1) .json))).failure.isSome := by
  intro s taken a file i j
  have notBinary {P : Prop} (binary : Encoding.json = .binary) : P := nomatch binary
  have decoded : ArchiveFile.decode file = .ok (.ofArchive a, .json) := Cli.decode_encode_texts notBinary
  have refused : ¬ ∃ t, (TrieSet.load (.ofArchive (s.save a).1) (s.save a).2).1 = .ok t := by decide +kernel
  refine ⟨decoded, .empty, ?_, refused, ?_, ?_⟩
  · have digests : (((s.trie.hashed .blake3 .set ++ taken.hashed .blake3).dedup).map Id.blake3).Nodup := by
      decide +kernel
    refine .of_nodup digests fun x hashed => ?_
    rcases hashed with own | ⟨root, stored, checked⟩
    · exact List.mem_append_left _ own
    · have none (id : Id) : a.root? id = none := by simp [Archive.root?, a]
      rw [Archive.root?_save, none, Option.none_or] at stored
      obtain rfl := (Option.ite_some_none_eq_some.mp stored).2
      rcases checked with rfl | ⟨y, d, reached, there, inside⟩
      · exact List.mem_append_left _ List.mem_cons_self
      · have own : (s.save a).1.node? (s.trie.root.identity .blake3) = some taken := by
          refine (Archive.node?_save ..).trans ?_
          have first : a.node? (s.trie.root.identity .blake3) = some taken := by simp [Archive.node?, a]
          rw [first, Option.some_or]
        obtain rfl := reached.eq_of_no_children own rfl
        obtain rfl := Option.some.inj (own.symm.trans there)
        exact List.mem_append_right _ inside
  · have save : i.command = .save [] none := rfl
    exact Cli.run_save_ok save (Cli.saveStart_content decoded)
  · cases found : (TrieSet.load (.ofArchive (s.save a).1) (s.save a).2).1 with
    | ok t => exact absurd ⟨t, found⟩ refused
    | error e =>
      have load : j.command = .load (s.save a).2.hex := rfl
      rw [Cli.run_load_error load (Cli.openArchive_encode notBinary _) found]
      rfl

end TrieArchive
