import TrieArchive.Cli.Arguments
import TrieArchive.Archive.Container
import Std.Data.ExtTreeSet

/-! What the commands do with an archive of sets of texts. A command sees the archive file as it is
found and answers what to write to it and what to print. -/
namespace TrieArchive.Cli

/-- The archive file as a command finds it. -/
inductive Stored where
  /-- Nothing is there, and opening it fails. -/
  | absent (fault : IoFault)
  | unreadable (fault : IoFault)
  | content (bytes : Bytes)

structure Failure where
  message : String
  cause : Option String

/-- The lines that report a failure. -/
def Failure.report (f : Failure) : String :=
  "Error: " ++ f.message ++ "\n" ++
    match f.cause with
    | some cause => "\nCaused by:\n    " ++ cause ++ "\n"
    | none => ""

structure Outcome where
  /-- The new content of the file, if it is to be written. -/
  write : Option Bytes
  /-- What is printed once the file is written. -/
  output : Bytes
  failure : Option Failure

abbrev Attempt := Except Failure

def fail {α : Type} (message : String) : Attempt α := .error ⟨message, none⟩

variable [Compression]

/-- The archive in the file at `path`. -/
def openArchive (path : String) (stored : Stored) : Attempt (Archive String) := do
  let read (e : FileError) : Failure := ⟨"Failed to read archive " ++ path, some e.message⟩
  let bytes ← match stored with
    | .absent fault | .unreadable fault => throw (read (.io fault))
    | .content bytes => pure bytes
  let (snapshot, _) ← (ArchiveFile.decode (α := String) bytes).mapError read
  return snapshot.toArchive

def parseId (s : String) : Attempt Id :=
  match Id.parse s with
  | .ok id => .ok id
  | .error _ => fail ("Invalid container id: " ++ s)

def loadFrom (l : Loader String) (id : Id) : Attempt (TrieSet String) × Loader String :=
  let (result, l) := TrieSet.load l id
  (result.mapError fun e => ⟨e.message, none⟩, l)

def render (format : OutputFormat) (value : Json) : Bytes :=
  (match format with
  | .json => value.compact
  | .text => value.pretty 0) ++ [0x0a]

def num (n : Nat) : Json := .num n

def printed (format : OutputFormat) (value : Json) : Outcome := ⟨none, render format value, none⟩

/-- The archive to save into and the set to start from. -/
def saveStart (path : String) (base : Option String) (stored : Stored) :
    Attempt (Archive String × TrieSet String) :=
  match stored, base with
  | .absent _, none => return (.empty, .empty)
  | .absent _, some base => fail ("No archive at " ++ path ++ " to read base " ++ base ++ " from")
  | stored, none => do return (← openArchive path stored, .empty)
  | stored, some base => do
    let archive ← openArchive path stored
    let id ← parseId base
    let set ← (loadFrom (.ofArchive archive) id).1
    return (archive, set)

def save (i : Invocation) (values : List String) (base : Option String) (stored : Stored) :
    Attempt Outcome := do
  let (archive, set) ← saveStart i.archive base stored
  let set := (set.transient.extend values).persistent
  let (saved, id) := set.save archive
  return {
    write := some (ArchiveFile.encode (.ofArchive saved) i.encoding)
    output := render i.format (.obj [("id", .str id.hex),
      ("new_nodes", num (saved.nodes.size - archive.nodes.size)), ("nodes", num saved.nodes.size),
      ("size", num set.size), ("status", .str "ok")])
    failure := none }

/-- A set holds no text twice, so a tree of its texts lists them all, in order. -/
def load (i : Invocation) (id : String) (stored : Stored) : Attempt Outcome := do
  let id ← parseId id
  let archive ← openArchive i.archive stored
  let set ← (loadFrom (.ofArchive archive) id).1
  let values := (Std.ExtTreeSet.ofList set.toList).toList
  return printed i.format (.obj [("id", .str id.hex), ("size", num set.size),
    ("values", .arr (values.map .str))])

def inspect (i : Invocation) (stored : Stored) : Attempt Outcome := do
  let archive ← openArchive i.archive stored
  let roots := archive.roots.toList.map fun (id, root) =>
    Json.obj [("id", .str id.hex), ("kind", .str root.kind.name), ("node", .str root.node.hex),
      ("size", num root.size.toNat)]
  return printed i.format (.obj [("nodes", num archive.nodes.size), ("roots", .arr roots),
    ("version", num formatVersion.toNat)])

/-- Loads the containers in order with one loader, up to the first that fails. -/
def loadAll : List Id → Loader String → Except (Id × Failure) (Loader String)
  | [], l => .ok l
  | id :: rest, l =>
    match loadFrom l id with
    | (.ok _, l) => loadAll rest l
    | (.error e, _) => .error (id, e)

def verify (i : Invocation) (stored : Stored) : Attempt Outcome := do
  let archive ← openArchive i.archive stored
  match loadAll archive.rootIds (.ofArchive archive) with
  | .ok l =>
    return printed i.format (.obj [("nodes", num l.cache.size), ("roots", num archive.roots.size),
      ("status", .str "ok")])
  | .error (id, e) =>
    return {
      write := none
      output := render i.format (.obj [("error", .str e.message), ("id", .str id.hex),
        ("status", .str "error")])
      failure := some ⟨"Archive " ++ i.archive ++ " failed verification", none⟩ }

def run (i : Invocation) (stored : Stored) : Outcome :=
  let attempt := match i.command with
    | .save values base => save i values base stored
    | .load id => load i id stored
    | .inspect => inspect i stored
    | .verify => verify i stored
  match attempt with
  | .ok outcome => outcome
  | .error failure => ⟨none, [], some failure⟩

/-- The failure to report when the file cannot be written. -/
def writeFailure (fault : IoFault) : Failure := ⟨"IO error: " ++ fault.message, some fault.message⟩

def versionLine : String := "champ-archive 0.1.0\n"

def usageText : String :=
  "Usage: champ-archive [OPTIONS] <COMMAND>\n\nCommands:\n  save     \n  load     \n  inspect  \n  verify   \n\n" ++
  "Options:\n  -a, --archive <ARCHIVE>    [default: archive.champ]\n  -f, --format <FORMAT>      [default: json]\n" ++
  "  -e, --encoding <ENCODING>  [default: binary]\n  -h, --help\n  -V, --version\n"

end TrieArchive.Cli
