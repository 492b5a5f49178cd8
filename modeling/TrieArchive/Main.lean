import TrieArchive.Cli.Command
import TrieArchive.Frame.Basic

/-! The command line program: reads the archive file, runs one command on it, and writes what the
command answers. -/
namespace TrieArchive.Cli

def faultOf : IO.Error → IoFault
  | .noFileOrDirectory .. => .notFound
  | .inappropriateType _ 20 _ => .notDirectory
  | .inappropriateType _ 21 _ => .isDirectory
  | .invalidArgument _ 36 _ => .nameTooLong
  | _ => .other

def readStored (path : String) : IO Stored := do
  try
    return .content (← IO.FS.readBinFile path).data.toList
  catch e =>
    match faultOf e with
    | .isDirectory | .other => return .unreadable (faultOf e)
    | fault => return .absent fault

def report (failure : Failure) : IO UInt32 := do
  (← IO.getStderr).putStr failure.report
  return 1

def print (bytes : Bytes) : IO Unit := do
  (← IO.getStdout).write ⟨bytes.toArray⟩

def perform (i : Invocation) : IO UInt32 := do
  let outcome := run i (← readStored i.archive)
  if let some bytes := outcome.write then
    try
      IO.FS.writeBinFile i.archive ⟨bytes.toArray⟩
    catch e => return ← report (writeFailure (faultOf e))
  print outcome.output
  match outcome.failure with
  | some failure => report failure
  | none => return 0

end TrieArchive.Cli

open TrieArchive.Cli in
def main (args : List String) : IO UInt32 := do
  match parse args with
  | .ok i => perform i
  | .error .version => IO.print versionLine; return 0
  | .error .help => IO.print usageText; return 0
  | .error .usage => IO.eprint usageText; return 2
