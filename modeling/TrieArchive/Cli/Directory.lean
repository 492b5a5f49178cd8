import TrieArchive.Cli.Command
import TrieArchive.Frame.Basic
import Std.Data.ExtTreeMap

/-! Calls of the command line in a directory of files that is held in memory. A call may fail for more
than what the files bring about: files that cannot be read or written to their end, and output that
nobody takes. -/
namespace TrieArchive.Cli

/-- The files of one directory, and of those above it, by their shortest paths. There are no
directories below it. -/
abbrev Directory := Std.ExtTreeMap String Bytes

/-- What goes wrong with a call. -/
structure Faults where
  /-- The archive file is there and cannot be read. -/
  read : Option IoFault
  /-- The archive file cannot be opened to be written. -/
  create : Option IoFault
  /-- The file takes that many bytes and no more. -/
  write : Option (Nat × IoFault)
  /-- All bytes are written, but not for certain. -/
  sync : Option IoFault
  /-- Nothing can be printed. -/
  print : Bool

namespace Faults

def none : Faults := ⟨.none, .none, .none, .none, false⟩

def shown (f : Faults) (text : Bytes) : Bytes := if f.print then [] else text

end Faults

/-- What a path leads to: a directory, or a place where a file is or can be. -/
inductive Target where
  | directory
  | place (path : String)

def splitPath (path : String) : List String := (splitAtSlash path.toList).map String.ofList
where
  splitAtSlash : List Char → List (List Char)
    | [] => [[]]
    | '/' :: rest => [] :: splitAtSlash rest
    | c :: rest =>
      match splitAtSlash rest with
      | [] => [[c]]
      | part :: parts => (c :: part) :: parts

/-- The longest name of a file and the longest path, in bytes. -/
def nameLimit : Nat := 255
def pathLimit : Nat := 4095

namespace Directory

variable (d : Directory)

/-- Follows the parts of a path from the directory `up` levels above. Only a file's own name may come
last; if the file is to be made, slashes behind its name ask for a directory. -/
def follow (making : Bool) : (up : Nat) → List String → Except IoFault Target
  | _, [] => .ok .directory
  | up, part :: rest =>
    if part = "" ∨ part = "." then follow making up rest
    else if part = ".." then follow making (up + 1) rest
    else if making ∧ !rest.isEmpty ∧ rest.all (· = "") then .error .isDirectory
    else if nameLimit < part.utf8ByteSize then .error .nameTooLong
    else
      let path := String.join (List.replicate up "../") ++ part
      if rest.isEmpty then .ok (.place path)
      else .error (if d.contains path then .notDirectory else .notFound)

/-- What a path leads to. Nothing is known of paths from the root but the root itself. -/
def locate (making : Bool) (path : String) : Except IoFault Target :=
  if pathLimit < path.utf8ByteSize then .error .nameTooLong
  else
    match splitPath path with
    | "" :: parts =>
      if parts.all fun part => part = "" ∨ part = "." ∨ part = ".." then .ok .directory else .error .notFound
    | parts => follow d making 0 parts

def stored (path : String) : Stored :=
  match d.locate false path with
  | .error fault => .absent fault
  | .ok .directory => .unreadable .isDirectory
  | .ok (.place path) =>
    match d.get? path with
    | some bytes => .content bytes
    | none => .absent .notFound

/-- What a call finds at a path. -/
def found (f : Faults) (path : String) : Stored :=
  match d.stored path, f.read with
  | .content _, some fault => .unreadable fault
  | stored, _ => stored

/-- Writes a file, in place of one that is there. Opening it empties it, so that bytes which cannot be
written are missing from it. -/
def write (f : Faults) (path : String) (bytes : Bytes) : Except IoFault Unit × Directory :=
  match d.locate true path with
  | .error fault => (.error fault, d)
  | .ok .directory => (.error .isDirectory, d)
  | .ok (.place path) =>
    match f.create, f.write, f.sync with
    | some fault, _, _ => (.error fault, d)
    | none, some (count, fault), _ => (.error fault, d.insert path (bytes.take count))
    | none, none, some fault => (.error fault, d.insert path bytes)
    | none, none, none => (.ok (), d.insert path bytes)

end Directory

/-- What a call leaves behind: its exit code, what it printed, and the failure it reported. -/
structure Reply where
  code : Nat
  output : Bytes
  failure : Option Failure

/-- What a call replies in the end. One that cannot print what it has to breaks off. -/
def Outcome.reply (o : Outcome) (f : Faults) : Reply :=
  if f.print ∧ o.output ≠ [] then ⟨101, [], none⟩
  else ⟨if o.failure.isSome then 1 else 0, o.output, o.failure⟩

namespace Directory

variable [Compression] (d : Directory)

/-- A file is written before anything is printed. -/
def perform (f : Faults) (i : Invocation) : Reply × Directory :=
  let outcome := run i (d.found f i.archive)
  match outcome.write with
  | none => (outcome.reply f, d)
  | some bytes =>
    match d.write f i.archive bytes with
    | (.ok _, d) => (outcome.reply f, d)
    | (.error fault, d) => (⟨1, [], some (writeFailure fault)⟩, d)

/-- A call to which these faults happen. -/
def callUnder (f : Faults) (args : List String) : Reply × Directory :=
  match parse args with
  | .ok i => d.perform f i
  | .error .version => (⟨0, f.shown (Bytes.ofText versionLine), none⟩, d)
  | .error .help => (⟨0, f.shown (Bytes.ofText usageText), none⟩, d)
  | .error .usage => (⟨2, [], none⟩, d)

def call (args : List String) : Reply × Directory := d.callUnder .none args

end Directory

end TrieArchive.Cli
