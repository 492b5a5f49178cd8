import TrieArchive.Proofs.Cli.Files
import TrieArchive.Proofs.Cli.Texts

/-! Calls of the program, one after another, on one archive file. What they print follows from a list of the sets of
texts that were saved, and this list from the calls and their exit codes. -/
namespace TrieArchive.Cli

/-- The texts that a save is asked for: the given ones and, with a base, those of an earlier save under this id. -/
def asked (saved : List Texts) (values : List String) : Option String → Option Texts
  | none => some (.ofList values)
  | some base => do
    let id ← (Id.parse base).toOption
    let texts ← saved.find? (·.id = id)
    return texts.insertMany values

/-- A call of the program, and what goes wrong with it. -/
structure Call where
  args : List String
  faults : Faults

/-- The call has done what it was to do, or it broke off where it was to print that. -/
def Reply.Done (reply : Reply) : Prop := reply.code = 0 ∨ reply.code = 101

instance (reply : Reply) : Decidable reply.Done := inferInstanceAs (Decidable (_ ∨ _))

/-- The sets of texts that have been saved, the latest first, with those of one more call. -/
def recorded (saved : List Texts) (args : List String) (reply : Reply) : List Texts :=
  match (parse args).map Invocation.command with
  | .ok (.save values base) => if reply.Done then (asked saved values base).toList ++ saved else saved
  | _ => saved

section Steps

variable [Compression]

def step (s : Directory × List Texts) (c : Call) : Directory × List Texts :=
  ((s.1.callUnder c.faults c.args).2, recorded s.2 c.args (s.1.callUnder c.faults c.args).1)

/-- The directory that some calls leave, and the sets of texts that they have saved. -/
def after (d : Directory) (calls : List Call) : Directory × List Texts := calls.foldl step (d, [])

end Steps

section Reports

variable (format : OutputFormat) (saved : List Texts)

/-- What is printed when a set of texts is saved beside others. -/
def saveReport (t : Texts) : Bytes :=
  render format (.obj [("id", .str t.id.hex),
    ("new_nodes", num ((archiveOf (t :: saved)).nodes.size - (archiveOf saved).nodes.size)),
    ("nodes", num (archiveOf (t :: saved)).nodes.size), ("size", num t.size), ("status", .str "ok")])

def loadReport (t : Texts) : Bytes :=
  render format (.obj [("id", .str t.id.hex), ("size", num t.size), ("values", .arr (t.toList.map .str))])

def inspectReport (roots : List Json) : Bytes :=
  render format (.obj [("nodes", num (archiveOf saved).nodes.size), ("roots", .arr roots),
    ("version", num formatVersion.toNat)])

def verifyReport : Bytes :=
  render format (.obj [("nodes", num (archiveOf saved).nodes.size), ("roots", num saved.dedup.length),
    ("status", .str "ok")])

end Reports

/-- A call that is understood as a command on the archive at a path. -/
structure Asks (path : String) (args : List String) (i : Invocation) : Prop where
  parsed : parse args = .ok i
  archive : i.archive = path

/-- What calls answer and leave where these sets of texts have been saved, whatever goes wrong with them. -/
structure Serves [Compression] (path : String) (d : Directory) (saved : List Texts) : Prop where
  saves : ∀ f args i values base, Asks path args i → i.command = .save values base →
    (d.callUnder f args).1.code = 0 →
    ∃ t, asked saved values base = some t ∧ (d.callUnder f args).1 = ⟨0, saveReport i.format saved t, none⟩
  accepts : ∀ args i values base place, Asks path args i → i.command = .save values base →
    (asked saved values base).isSome → d.locate true path = .ok (.place place) → (d.call args).1.code = 0
  loads : ∀ t ∈ saved, ∀ f args i, Asks path args i → i.command = .load t.id.hex → f.read = none → f.print = false →
    d.callUnder f args = (⟨0, loadReport i.format t, none⟩, d)
  inspects : saved ≠ [] → ∃ roots, roots.length = saved.dedup.length ∧ ∀ f args i, Asks path args i →
    i.command = .inspect → f.read = none → f.print = false →
    d.callUnder f args = (⟨0, inspectReport i.format saved roots, none⟩, d)
  verifies : saved ≠ [] → ∀ f args i, Asks path args i → i.command = .verify → f.read = none → f.print = false →
    d.callUnder f args = (⟨0, verifyReport i.format saved, none⟩, d)
  /-- Only saves write. -/
  keeps : ∀ f args, (∀ i values base, parse args = .ok i → i.command ≠ .save values base) →
    (d.callUnder f args).2 = d
  /-- Calls that fail leave all files as they were, unless one has been opened and does not take what is written. -/
  fails : ∀ f args, f.Stores → ¬ (d.callUnder f args).1.Done → (d.callUnder f args).2 = d
  /-- In any case nothing is left but the files as they were or, in the file's place, what a save had to write, of which
  an end is missing only if the file does not take it. -/
  leaves : ∀ f args i, Asks path args i → (d.callUnder f args).2 = d ∨
    ∃ values base t a place front, i.command = .save values base ∧ asked saved values base = some t ∧
      Keeps a (t :: saved) ∧ d.locate true path = .ok (.place place) ∧ (d.callUnder f args).2 = d.insert place front ∧
      front <+: ArchiveFile.encode (.ofArchive a) i.encoding ∧
      (f.write = none → front = ArchiveFile.encode (.ofArchive a) i.encoding)
  names : ∀ t ∈ saved, ∀ u ∈ saved, t.id = u.id → t = u

variable {d : Directory} {f : Faults} {path : String} {args : List String} {i : Invocation} {values : List String}
  {base : Option String}

/-- What does not begin like an option is a value. -/
theorem ofArgument_eq {s : String} (plain : s.toList.head? ≠ some '-') : Word.ofArgument s = .value s := by
  unfold Word.ofArgument
  split <;> simp_all

section Performing

variable [Compression]

theorem Asks.call_eq (asks : Asks path args i) : d.callUnder f args = d.perform f i := by
  rw [Directory.callUnder, asks.parsed]

theorem perform_of_kept (kept : (run i (d.found f i.archive)).write = none) :
    d.perform f i = ((run i (d.found f i.archive)).reply f, d) := by
  simp only [Directory.perform, kept]

theorem perform_printed {value : Json} (ran : run i (d.stored i.archive) = printed i.format value)
    (read : f.read = none) (print : f.print = false) : d.perform f i = (⟨0, render i.format value, none⟩, d) := by
  rw [← Directory.found_of_read read] at ran
  rw [perform_of_kept (by rw [ran]; rfl), ran, Outcome.reply, print]
  rfl

omit [Compression] in
theorem exists_of_write {attempt : Attempt Outcome} {bytes : Bytes}
    (write : (match attempt with
      | .ok outcome => outcome
      | .error failure => ⟨none, [], some failure⟩ : Outcome).write = some bytes) :
    ∃ o, attempt = .ok o ∧ o.write = some bytes := by
  cases attempt with
  | ok o => exact ⟨o, rfl, write⟩
  | error e => cases write

theorem write_of_load {id : String} {stored : Stored} {o : Outcome} (ran : Cli.load i id stored = .ok o) :
    o.write = none := by
  obtain ⟨_, -, ran⟩ := Except.bind_eq_ok_iff.mp ran
  obtain ⟨_, -, ran⟩ := Except.bind_eq_ok_iff.mp ran
  obtain ⟨_, -, ran⟩ := Except.bind_eq_ok_iff.mp ran
  cases ran
  rfl

theorem write_of_inspect {stored : Stored} {o : Outcome} (ran : Cli.inspect i stored = .ok o) : o.write = none := by
  obtain ⟨_, -, ran⟩ := Except.bind_eq_ok_iff.mp ran
  cases ran
  rfl

theorem write_of_verify {stored : Stored} {o : Outcome} (ran : Cli.verify i stored = .ok o) : o.write = none := by
  obtain ⟨a, -, ran⟩ := Except.bind_eq_ok_iff.mp ran
  split at ran
  · cases ran
    rfl
  · cases ran
    rfl

/-- Only a save has something to write, and a place and a set to start from. -/
theorem exists_start_of_write {stored : Stored} {bytes : Bytes} (write : (run i stored).write = some bytes) :
    ∃ values base a start, i.command = .save values base ∧ saveStart i.archive base stored = .ok (a, start) ∧
      run i stored = saved i a (start.transient.extend values).persistent := by
  have writes := write
  rw [run] at writes
  obtain ⟨o, ran, written⟩ := exists_of_write writes
  cases command : i.command with
  | save values base =>
    cases started : saveStart i.archive base stored with
    | ok found => exact ⟨values, base, found.1, found.2, rfl, started, run_save_ok command started⟩
    | error e =>
      rw [run_save_error command started] at write
      cases write
  | load id =>
    rw [command] at ran
    exact absurd ((write_of_load ran).symm.trans written) (by simp)
  | inspect =>
    rw [command] at ran
    exact absurd ((write_of_inspect ran).symm.trans written) (by simp)
  | verify =>
    rw [command] at ran
    exact absurd ((write_of_verify ran).symm.trans written) (by simp)

theorem not_ok_of_unreadable {fault : IoFault} {a : Archive String} {s : TrieSet String} :
    saveStart path base (.unreadable fault) ≠ .ok (a, s) := by
  cases base <;> exact fun started => nomatch started

/-- What a save starts from was read. -/
theorem found_eq_of_start {a : Archive String} {s : TrieSet String}
    (started : saveStart path base (d.found f path) = .ok (a, s)) : d.found f path = d.stored path := by
  rcases d.found_cases f path with same | ⟨fault, unreadable⟩
  · exact same
  · exact absurd (unreadable ▸ started) not_ok_of_unreadable

/-- What a save comes to that has an archive and a set to write. -/
structure Writes (d : Directory) (f : Faults) (i : Invocation) (a : Archive String) (s : TrieSet String) : Prop where
  replies : (d.write f i.archive (ArchiveFile.encode (.ofArchive (s.save a).1) i.encoding)).1 = .ok () →
    (d.perform f i).1 = (saved i a s).reply f
  refuses : ∀ fault, (d.write f i.archive (ArchiveFile.encode (.ofArchive (s.save a).1) i.encoding)).1 = .error fault →
    (d.perform f i).1 = ⟨1, [], some (writeFailure fault)⟩
  leaves : (d.perform f i).2 = (d.write f i.archive (ArchiveFile.encode (.ofArchive (s.save a).1) i.encoding)).2

/-- All that a call comes to: what its command answers, or a save that has been started. -/
theorem perform_cases (d : Directory) (f : Faults) (i : Invocation) :
    ((run i (d.found f i.archive)).write = none ∧ d.perform f i = ((run i (d.found f i.archive)).reply f, d)) ∨
    ∃ values base a start, i.command = .save values base ∧
      saveStart i.archive base (d.stored i.archive) = .ok (a, start) ∧
      Writes d f i a (start.transient.extend values).persistent := by
  cases write : (run i (d.found f i.archive)).write with
  | none => exact .inl ⟨rfl, perform_of_kept write⟩
  | some bytes =>
    obtain ⟨values, base, a, start, save, started, ran⟩ := exists_start_of_write write
    rw [ran] at write
    cases write
    refine .inr ⟨values, base, a, start, save, found_eq_of_start started ▸ started, ?_⟩
    cases wrote : d.write f i.archive (ArchiveFile.encode
      (.ofArchive ((start.transient.extend values).persistent.save a).1) i.encoding) with
    | mk answer d' =>
      have performed : d.perform f i = (match answer with
          | .ok _ => ((saved i a (start.transient.extend values).persistent).reply f, d')
          | .error fault => (⟨1, [], some (writeFailure fault)⟩, d')) := by
        simp only [Directory.perform, ran, saved, wrote]
        cases answer <;> rfl
      constructor
      case replies =>
        rw [wrote, performed]
        rintro rfl
        rfl
      case refuses =>
        rw [wrote, performed]
        rintro fault rfl
        rfl
      case leaves =>
        rw [wrote, performed]
        cases answer <;> rfl

theorem done_of_saved (a : Archive String) (s : TrieSet String) : ((saved i a s).reply f).Done := by
  rw [Outcome.reply]
  split
  · exact .inr rfl
  · exact .inl rfl

omit [Compression] in
theorem not_done_of_failure (e : Failure) : ¬ (Outcome.reply ⟨none, [], some e⟩ f).Done := by
  rw [Outcome.reply, if_neg fun broken => broken.2 rfl]
  exact fun done => done.elim nofun nofun

/-- A save that is done has found where to start and has written its file. -/
theorem perform_save (save : i.command = .save values base) (done : (d.perform f i).1.Done) :
    ∃ a start place, saveStart i.archive base (d.stored i.archive) = .ok (a, start) ∧
      d.locate true i.archive = .ok (.place place) ∧
      d.perform f i = ((saved i a (start.transient.extend values).persistent).reply f, d.insert place
        (ArchiveFile.encode (.ofArchive ((start.transient.extend values).persistent.save a).1) i.encoding)) := by
  rcases perform_cases d f i with ⟨kept, performed⟩ | ⟨values', base', a, start, save', started, writes⟩
  · cases started : saveStart i.archive base (d.found f i.archive) with
    | ok found =>
      rw [run_save_ok save started] at kept
      cases kept
    | error e =>
      rw [performed, run_save_error save started] at done
      exact absurd done (not_done_of_failure e)
  · obtain ⟨rfl, rfl⟩ : values' = values ∧ base' = base := by simpa using save'.symm.trans save
    cases answer : (d.write f i.archive (ArchiveFile.encode
      (.ofArchive ((start.transient.extend values').persistent.save a).1) i.encoding)).1 with
    | error fault =>
      rw [writes.refuses fault answer] at done
      exact done.elim nofun nofun
    | ok =>
      rcases d.write_cases f i.archive (ArchiveFile.encode
        (.ofArchive ((start.transient.extend values').persistent.save a).1) i.encoding) with
        ⟨fault, refused⟩ | ⟨place, front, place?, put, -, whole, -⟩
      · rw [refused] at answer
        cases answer
      · rw [whole (.inr answer)] at put
        exact ⟨a, start, place, started, place?, Prod.ext (writes.replies answer) (writes.leaves.trans put)⟩

/-- A call that is no save leaves all files as they were. -/
theorem snd_of_no_save (others : ∀ i values base, parse args = .ok i → i.command ≠ .save values base) :
    (d.callUnder f args).2 = d := by
  cases parsed : parse args with
  | error stop =>
    rw [Directory.callUnder, parsed]
    cases stop <;> rfl
  | ok i =>
    rw [Asks.call_eq ⟨parsed, rfl⟩]
    rcases perform_cases d f i with ⟨-, performed⟩ | ⟨values, base, _, _, save, -⟩
    · rw [performed]
    · exact absurd save (others i values base parsed)

/-- So does one that fails, if an opened file takes what is written. -/
theorem snd_of_not_done (stores : f.Stores) (fails : ¬ (d.callUnder f args).1.Done) : (d.callUnder f args).2 = d := by
  cases parsed : parse args with
  | error stop =>
    rw [Directory.callUnder, parsed]
    cases stop <;> rfl
  | ok i =>
    rw [Asks.call_eq ⟨parsed, rfl⟩] at fails ⊢
    rcases perform_cases d f i with ⟨-, performed⟩ | ⟨values, base, a, start, -, -, writes⟩
    · rw [performed]
    · rw [writes.leaves]
      rcases d.write_cases f i.archive _ with ⟨fault, refused⟩ | ⟨_, _, -, -, -, -, written⟩
      · rw [refused]
      · rw [writes.replies (written stores)] at fails
        exact absurd (done_of_saved ..) fails

end Performing

/-- A base names the set of texts that was saved under its id. -/
theorem Admissible.asked_base_iff {saved : List Texts} (admissible : Admissible saved) {base : String} {u : Texts} :
    asked saved values (some base) = some u ↔
      ∃ t ∈ saved, Id.parse base = .ok t.id ∧ t.insertMany values = u := by
  constructor
  · intro found
    obtain ⟨id, parsed, found⟩ := Option.bind_eq_some_iff.mp found
    obtain ⟨t, first, found⟩ := Option.bind_eq_some_iff.mp found
    cases found
    obtain rfl : t.id = id := by simpa using List.find?_some first
    refine ⟨t, List.mem_of_find?_eq_some first, ?_, rfl⟩
    cases read : Id.parse base with
    | ok id =>
      rw [read] at parsed
      exact congrArg Except.ok (Option.some.inj parsed)
    | error fault =>
      rw [read] at parsed
      cases parsed
  · rintro ⟨t, member, parsed, rfl⟩
    have named : (saved.find? (·.id = t.id)).isSome := List.find?_isSome.mpr ⟨t, member, by simp⟩
    obtain ⟨t', first⟩ := Option.isSome_iff_exists.mp named
    have same := admissible.eq_of_id (List.mem_of_find?_eq_some first) member (by simpa using List.find?_some first)
    subst same
    simp [asked, parsed, first, Except.toOption]

section Starting

variable [Compression] {bytes : Bytes} {a : Archive String}

theorem saveStart_new (opened : openArchive path (.content bytes) = .ok a) :
    saveStart path none (.content bytes) = .ok (a, .empty) := by
  simp only [saveStart, opened, bind, Except.bind]
  rfl

/-- A save with a base starts from the set that is loaded for it. -/
theorem saveStart_base (opened : openArchive path (.content bytes) = .ok a) {base : String} {b : Archive String}
    {s : TrieSet String} : saveStart path (some base) (.content bytes) = .ok (b, s) ↔
      a = b ∧ ∃ id, Id.parse base = .ok id ∧ (TrieSet.load (.ofArchive a) id).1 = .ok s := by
  simp only [saveStart, opened, bind, Except.bind, parseId]
  cases parsed : Id.parse base with
  | error fault => simp [fail]
  | ok id =>
    simp only [loadFrom_eq]
    cases loaded : (TrieSet.load (.ofArchive a) id).1 with
    | error fault => simp [Except.mapError, loaded]
    | ok s' => simp [Except.mapError, loaded, pure, Except.pure]

end Starting

section Filing

variable [Compression]

/-- The file at a path between calls: none, or an archive that these sets of texts have been saved into. -/
inductive Filed (path : String) (d : Directory) : List Texts → Prop where
  | fresh (nothing : ∀ bytes, d.stored path ≠ .content bytes) : Filed path d []
  | archive {saved : List Texts} {a : Archive String} {e : Encoding} {place : String} (keeps : Keeps a saved)
      (content : d.stored path = .content (ArchiveFile.encode (.ofArchive a) e))
      (writable : d.locate true path = .ok (.place place)) : Filed path d saved

namespace Filed

variable [LawfulCompression] {saved : List Texts} (filed : Filed path d saved) (admissible : Admissible saved)

include filed admissible

/-- A save starts from what was saved before. -/
theorem asked_of_start {a : Archive String} {s : TrieSet String}
    (started : saveStart path base (d.stored path) = .ok (a, s)) :
    Keeps a saved ∧ s.trie.Canonical TrieSet.layout ∧
      ∀ values, asked saved values base = some (s.texts.insertMany values) := by
  have canonical := (reachable_of_saveStart started).canonical
  have empty (values : List String) : asked saved values none = some (TrieSet.empty.texts.insertMany values) := by
    refine congrArg some (Std.ExtTreeSet.ext_mem fun v => ?_)
    rw [Std.ExtTreeSet.mem_ofList, Std.ExtTreeSet.mem_insertMany_list, TrieSet.mem_texts]
    exact ⟨.inr, fun either => either.elim (fun member => nomatch member) fun member => member⟩
  cases filed with
  | fresh nothing =>
    cases stored : d.stored path with
    | content bytes => exact absurd stored (nothing bytes)
    | unreadable fault => exact absurd (stored ▸ started) not_ok_of_unreadable
    | absent fault =>
      rw [stored] at started
      cases base with
      | some base => cases started
      | none =>
        cases started
        exact ⟨keeps_empty, canonical, empty⟩
  | @archive _ a' e place keeps content writable =>
    have opened := openArchive_encode (e := e) (fun _ => keeps.encodable admissible) path
    rw [content] at started
    cases base with
    | none =>
      rw [saveStart_new opened] at started
      cases started
      exact ⟨keeps, canonical, empty⟩
    | some base =>
      rw [saveStart_base opened] at started
      obtain ⟨rfl, id, parsed, loaded⟩ := started
      obtain ⟨t, member, rfl, rfl⟩ := keeps.exists_of_load admissible loaded
      exact ⟨keeps, canonical, fun values => admissible.asked_base_iff.mpr ⟨_, member, parsed, rfl⟩⟩

/-- What is asked for can be saved where a file can be made. -/
theorem exists_start {place : String} (possible : (asked saved values base).isSome)
    (writable : d.locate true path = .ok (.place place)) :
    ∃ a s, saveStart path base (d.stored path) = .ok (a, s) := by
  cases filed with
  | fresh nothing =>
    cases base with
    | some base =>
      obtain ⟨u, found⟩ := Option.isSome_iff_exists.mp possible
      obtain ⟨t, member, -⟩ := admissible.asked_base_iff.mp found
      cases member
    | none =>
      rcases Directory.stored_of_place writable with ⟨bytes, stored⟩ | stored
      · exact absurd stored (nothing bytes)
      · exact ⟨.empty, .empty, by rw [stored]; rfl⟩
  | @archive _ a e place keeps content writable =>
    have opened := openArchive_encode (e := e) (fun _ => keeps.encodable admissible) path
    rw [content]
    cases base with
    | none => exact ⟨a, .empty, saveStart_new opened⟩
    | some base =>
      obtain ⟨u, found⟩ := Option.isSome_iff_exists.mp possible
      obtain ⟨t, member, parsed, -⟩ := admissible.asked_base_iff.mp found
      obtain ⟨s, loaded, -⟩ := keeps.exists_load admissible member
      exact ⟨a, s, (saveStart_base opened).mpr ⟨rfl, t.id, parsed, loaded⟩⟩

/-- A save that has been started writes the texts that it was asked for beside those saved before. -/
theorem keeps_of_start {a : Archive String} {start : TrieSet String}
    (started : saveStart path base (d.stored path) = .ok (a, start)) (values : List String) :
    ∃ t, asked saved values base = some t ∧ Keeps ((start.transient.extend values).persistent.save a).1 (t :: saved) ∧
      ∀ i, (Cli.saved i a (start.transient.extend values).persistent).output = saveReport i.format saved t := by
  obtain ⟨keeps, canonical, texts⟩ := filed.asked_of_start admissible started
  have grown : (start.transient.extend values).persistent.texts = start.texts.insertMany values :=
    TrieSet.texts_extend canonical values
  have canonical' : (start.transient.extend values).persistent.trie.Canonical TrieSet.layout :=
    (TrieSet.Transient.extend_represents canonical.represents values).canonical
  generalize (start.transient.extend values).persistent = s at grown canonical'
  have after := keeps.save canonical'
  refine ⟨s.texts, grown ▸ texts values, after, fun i => ?_⟩
  rw [saveReport, ← after.size_nodes, ← keeps.size_nodes, TrieSet.size_texts canonical', ← Texts.save_snd canonical' a]
  rfl

/-- A save that is done prints the id of the texts that it was asked for, unless it cannot, and has saved them. -/
theorem perform_save_eq (archive : i.archive = path) (save : i.command = .save values base)
    (done : (d.perform f i).1.Done) : ∃ t, asked saved values base = some t ∧
      ((d.perform f i).1.code = 0 → (d.perform f i).1 = ⟨0, saveReport i.format saved t, none⟩) ∧
      Filed path (d.perform f i).2 (t :: saved) := by
  subst archive
  obtain ⟨a, start, place, started, writable, performed⟩ := perform_save save done
  obtain ⟨t, found, keeps, report⟩ := filed.keeps_of_start admissible started values
  refine ⟨t, found, fun succeeds => ?_, ?_⟩
  · rw [performed] at succeeds ⊢
    rw [← report i]
    unfold Outcome.reply at succeeds ⊢
    split
    next broken =>
      rw [if_pos broken] at succeeds
      cases succeeds
    next => rfl
  · rw [performed]
    exact .archive keeps (Directory.stored_insert writable _) (Directory.locate_of_making writable true)

theorem perform_save_code {place : String} (archive : i.archive = path) (save : i.command = .save values base)
    (possible : (asked saved values base).isSome) (writable : d.locate true path = .ok (.place place)) :
    (d.perform .none i).1.code = 0 := by
  subst archive
  obtain ⟨a, s, started⟩ := filed.exists_start admissible possible writable
  rw [← Directory.found_of_read (f := .none) rfl] at started
  have ran := run_save_ok save started
  rcases perform_cases d .none i with ⟨kept, -⟩ | ⟨_, _, _, _, -, -, writes⟩
  · rw [ran] at kept
    cases kept
  · rcases d.write_cases .none i.archive _ with ⟨fault, refused⟩ | ⟨_, _, -, -, -, -, written⟩
    · unfold Directory.write at refused
      rw [writable] at refused
      cases refused
    · rw [writes.replies (written ⟨rfl, rfl⟩)]
      rfl

/-- Where something has been saved the file is opened. -/
theorem exists_opened (some : saved ≠ []) :
    ∃ a, Keeps a saved ∧ openArchive path (d.stored path) = .ok a := by
  cases filed with
  | fresh => contradiction
  | @archive _ a e _ keeps content =>
    exact ⟨a, keeps, content ▸ openArchive_encode (fun _ => keeps.encodable admissible) path⟩

/-- What a call may leave, whatever goes wrong with it. -/
theorem call_leaves (f : Faults) (asks : Asks path args i) : (d.callUnder f args).2 = d ∨
    ∃ values base t a place front, i.command = .save values base ∧ asked saved values base = some t ∧
      Keeps a (t :: saved) ∧ d.locate true path = .ok (.place place) ∧ (d.callUnder f args).2 = d.insert place front ∧
      front <+: ArchiveFile.encode (.ofArchive a) i.encoding ∧
      (f.write = none → front = ArchiveFile.encode (.ofArchive a) i.encoding) := by
  rw [asks.call_eq]
  obtain ⟨-, rfl⟩ := asks
  rcases perform_cases d f i with ⟨-, performed⟩ | ⟨values, base, a, start, save, started, writes⟩
  · exact .inl (congrArg Prod.snd performed)
  · rw [writes.leaves]
    obtain ⟨t, found, keeps, -⟩ := filed.keeps_of_start admissible started values
    rcases d.write_cases f i.archive (ArchiveFile.encode
      (.ofArchive ((start.transient.extend values).persistent.save a).1) i.encoding) with
      ⟨fault, refused⟩ | ⟨place, front, writable, put, part, whole, -⟩
    · exact .inl (congrArg Prod.snd refused)
    · exact .inr ⟨values, base, t, _, place, front, save, found, keeps, writable, put, part, fun all => whole (.inl all)⟩

theorem serves : Serves path d saved where
  saves f args i values base asks save succeeds := by
    rw [asks.call_eq] at succeeds ⊢
    obtain ⟨t, found, reply, -⟩ := filed.perform_save_eq admissible asks.archive save (.inl succeeds)
    exact ⟨t, found, reply succeeds⟩
  accepts args i values base place asks save possible writable := by
    rw [Directory.call, asks.call_eq]
    exact filed.perform_save_code admissible asks.archive save possible writable
  loads t member f args i asks load read print := by
    obtain ⟨a, keeps, opened⟩ := filed.exists_opened admissible (List.ne_nil_of_mem member)
    obtain ⟨s, found, rfl⟩ := keeps.exists_load admissible member
    obtain ⟨parsed, rfl⟩ := asks
    have canonical : s.trie.Canonical TrieSet.layout := (TrieSet.Reachable.load .fresh found).canonical
    rw [Asks.call_eq ⟨parsed, rfl⟩, perform_printed (run_load_ok load opened found) read print, loadReport,
      TrieSet.size_texts canonical]
    rfl
  inspects some := by
    obtain ⟨a, keeps, opened⟩ := filed.exists_opened admissible some
    refine ⟨rootListing a, ?_, fun f args i asks inspect read print => ?_⟩
    · rw [rootListing, List.length_map, Std.ExtTreeMap.length_toList, keeps.size_roots admissible]
    · obtain ⟨parsed, rfl⟩ := asks
      rw [Asks.call_eq ⟨parsed, rfl⟩, perform_printed (run_inspect_ok inspect opened) read print, inspectReport,
        keeps.size_nodes]
  verifies some f args i asks verify read print := by
    obtain ⟨a, keeps, opened⟩ := filed.exists_opened admissible some
    obtain ⟨parsed, rfl⟩ := asks
    obtain ⟨l, all, nodes⟩ := keeps.exists_loadAll admissible
    rw [Asks.call_eq ⟨parsed, rfl⟩, perform_printed (run_verify_ok verify opened all) read print, verifyReport, nodes,
      keeps.size_nodes, keeps.size_roots admissible]
  keeps f args others := snd_of_no_save others
  fails f args stores fails := snd_of_not_done stores fails
  leaves f args i asks := filed.call_leaves admissible f asks
  names t member u member' := admissible.eq_of_id member member'

end Filed

section Runs

variable {s : Directory × List Texts} {calls : List Call} {c : Call}

theorem after_concat_snd (d : Directory) (calls : List Call) (c : Call) :
    (after d (calls ++ [c])).2 = recorded (after d calls).2 c.args ((after d calls).1.callUnder c.faults c.args).1 := by
  rw [after, List.foldl_append]
  rfl

theorem suffix_step : s.2 <:+ (step s c).2 := by
  unfold step recorded
  split
  · split
    · exact List.suffix_append ..
    · exact List.suffix_rfl
  · exact List.suffix_rfl

theorem suffix_foldl_step : s.2 <:+ (calls.foldl step s).2 := by
  induction calls generalizing s with
  | nil => exact List.suffix_rfl
  | cons c rest ih => exact suffix_step.trans ih

omit [Compression] in
theorem recorded_save {saved : List Texts} {reply : Reply} {t : Texts} (parsed : parse args = .ok i)
    (save : i.command = .save values base) (done : reply.Done) (found : asked saved values base = some t) :
    recorded saved args reply = t :: saved := by
  simp [recorded, parsed, Except.map, save, done, found]

omit [Compression] in
theorem recorded_other {saved : List Texts} {reply : Reply} (others : ∀ i values base, parse args = .ok i →
    i.command = .save values base → ¬ reply.Done) : recorded saved args reply = saved := by
  unfold recorded
  split
  · next values base command =>
    obtain ⟨i, parsed, save⟩ := Except.map_eq_ok_iff.mp command
    exact if_neg (others i values base parsed save)
  · rfl

variable [LawfulCompression]

/-- A call keeps the file in order: a save that is done adds its texts, and any other call changes nothing. -/
theorem Filed.step (filed : Filed path s.1 s.2) (admissible : Admissible s.2) (stores : c.faults.Stores)
    (here : ∀ i, parse c.args = .ok i → i.archive = path) : Filed path (Cli.step s c).1 (Cli.step s c).2 := by
  by_cases saves : ∃ i values base, parse c.args = .ok i ∧ i.command = .save values base ∧
      (s.1.callUnder c.faults c.args).1.Done
  · obtain ⟨i, values, base, parsed, save, done⟩ := saves
    have call : s.1.callUnder c.faults c.args = s.1.perform c.faults i := Asks.call_eq ⟨parsed, rfl⟩
    obtain ⟨t, found, -, next⟩ := filed.perform_save_eq admissible (here i parsed) save (call ▸ done)
    rwa [Cli.step, recorded_save parsed save done found, call]
  · have others (i : Invocation) (values : List String) (base : Option String) (parsed : parse c.args = .ok i)
        (save : i.command = .save values base) : ¬ (s.1.callUnder c.faults c.args).1.Done :=
      fun done => saves ⟨i, values, base, parsed, save, done⟩
    have same : (s.1.callUnder c.faults c.args).2 = s.1 := by
      by_cases done : (s.1.callUnder c.faults c.args).1.Done
      · exact snd_of_no_save fun i values base parsed save => others i values base parsed save done
      · exact snd_of_not_done stores done
    rwa [Cli.step, recorded_other others, same]

theorem Filed.foldl_step (filed : Filed path s.1 s.2) (admissible : Admissible (calls.foldl Cli.step s).2)
    (stores : ∀ c ∈ calls, c.faults.Stores) (here : ∀ c ∈ calls, ∀ i, parse c.args = .ok i → i.archive = path) :
    Filed path (calls.foldl Cli.step s).1 (calls.foldl Cli.step s).2 := by
  induction calls generalizing s with
  | nil => exact filed
  | cons c rest ih =>
    have kept : s.2 <:+ ((c :: rest).foldl Cli.step s).2 := suffix_step.trans suffix_foldl_step
    have before : Admissible s.2 := admissible.of_subset fun t member => kept.subset member
    exact ih (filed.step before (stores c List.mem_cons_self) (here c List.mem_cons_self)) admissible
      (fun c' member => stores c' (List.mem_cons_of_mem _ member)) fun c' member => here c' (List.mem_cons_of_mem _ member)

end Runs

end Filing

end TrieArchive.Cli
