import TrieArchive.File.Basic

/-! The arguments of the command line: options before the command, the command, and its own options
and values. An option's value is attached to it or is the next argument, which must not look like an
option. Behind a lone `--` everything is a value. -/
namespace TrieArchive.Cli

inductive OutputFormat where
  | json
  | text
  deriving DecidableEq, Repr

inductive Command where
  | save (values : List String) (base : Option String)
  | load (id : String)
  | inspect
  | verify
  deriving DecidableEq, Repr

structure Invocation where
  archive : String
  format : OutputFormat
  encoding : Encoding
  command : Command

/-- Arguments that name nothing to do with an archive. -/
inductive Stop where
  | usage
  | version
  | help
  deriving DecidableEq, Repr

/-- An argument by its outward form. A short option may have the rest of its argument attached. -/
inductive Word where
  | escape
  | long (name : String) (attached : Option String)
  | short (flag : Char) (attached : Option String)
  | value (text : String)

def Word.ofArgument (s : String) : Word :=
  match s.toList with
  | ['-', '-'] => .escape
  | '-' :: '-' :: rest =>
    match rest.dropWhile (· ≠ '=') with
    | [] => .long (String.ofList rest) none
    | _ :: attached => .long (String.ofList (rest.takeWhile (· ≠ '='))) (some (String.ofList attached))
  | '-' :: flag :: rest =>
    match rest with
    | [] => .short flag none
    | '=' :: attached => .short flag (some (String.ofList attached))
    | attached => .short flag (some (String.ofList attached))
  | _ => .value s

/-- The value of an option and the arguments behind it. -/
def valueOf (attached : Option String) (rest : List String) : Except Stop (String × List String) :=
  match attached, rest with
  | some text, rest => .ok (text, rest)
  | none, next :: rest =>
    match Word.ofArgument next with
    | .value text => .ok (text, rest)
    | _ => .error .usage
  | none, [] => .error .usage

/-- Options that come before the command, as far as they are given. -/
structure Options where
  archive : Option String
  format : Option OutputFormat
  encoding : Option Encoding

def OutputFormat.ofText? (s : String) : Option OutputFormat :=
  if s = "json" then some .json else if s = "text" then some .text else none

def encodingOfText? (s : String) : Option Encoding :=
  if s = "binary" then some .binary else if s = "json" then some .json else none

/-- An option is given at most once. -/
def setOnce {α : Type} (current : Option α) (new : Option α) : Except Stop (Option α) :=
  match current, new with
  | none, some a => .ok (some a)
  | _, _ => .error .usage

inductive OptionName where
  | archive
  | format
  | encoding

def Options.set (o : Options) (name : OptionName) (text : String) : Except Stop Options :=
  match name with
  | .archive => do
    return { o with archive := ← setOnce o.archive (if text.isEmpty then none else some text) }
  | .format => do return { o with format := ← setOnce o.format (OutputFormat.ofText? text) }
  | .encoding => do return { o with encoding := ← setOnce o.encoding (encodingOfText? text) }

/-- The values and the base of a save command. -/
def saveArguments : (bound : List String) → (args values : List String) → (base : Option String) →
    Except Stop Command
  | _, [], values, base => .ok (.save values base)
  | [], _ :: _, _, _ => .error .usage
  | _ :: bound, arg :: rest, values, base => do
    match Word.ofArgument arg with
    | .escape => return .save (values ++ rest) base
    | .value text => saveArguments bound rest (values ++ [text]) base
    | .long "base" attached | .short 'b' attached =>
      let (text, rest) ← valueOf attached rest
      saveArguments bound rest values (← setOnce base (some text))
    | .long "help" none | .short 'h' _ => throw .help
    | _ => throw .usage

/-- The values of a command that has no options and takes at most `limit` of them. The first value too
many is refused before what follows it is looked at. -/
def plainValues : (limit : Nat) → List String → Except Stop (List String)
  | _, [] => .ok []
  | limit, arg :: rest =>
    match Word.ofArgument arg, limit with
    | .escape, limit => if rest.length ≤ limit then .ok rest else .error .usage
    | .value text, limit + 1 => (text :: ·) <$> plainValues limit rest
    | .long "help" none, _ | .short 'h' _, _ => .error .help
    | _, _ => .error .usage

def commandNames : List String := ["save", "load", "inspect", "verify", "help"]

def command (name : String) (args : List String) : Except Stop Command := do
  match name with
  | "save" => saveArguments args args [] none
  | "load" =>
    match ← plainValues 1 args with
    | [id] => return .load id
    | _ => throw .usage
  | "inspect" => let _ ← plainValues 0 args; return .inspect
  | "verify" => let _ ← plainValues 0 args; return .verify
  | "help" => throw (if args.length ≤ 1 ∧ args.all commandNames.contains then .help else .usage)
  | _ => throw .usage

def invocation : (bound : List String) → (args : List String) → Options → Except Stop Invocation
  | [], _, _ => .error .usage
  | _, [], _ => .error .usage
  | _ :: bound, arg :: rest, o => do
    match Word.ofArgument arg with
    | .escape => throw .usage
    | .value name =>
      return {
        archive := o.archive.getD "archive.champ"
        format := o.format.getD .json
        encoding := o.encoding.getD .binary
        command := ← command name rest }
    | .long "version" none | .short 'V' _ => throw .version
    | .long "help" none | .short 'h' _ => throw .help
    | .long "archive" attached | .short 'a' attached =>
      let (text, rest) ← valueOf attached rest
      invocation bound rest (← o.set .archive text)
    | .long "format" attached | .short 'f' attached =>
      let (text, rest) ← valueOf attached rest
      invocation bound rest (← o.set .format text)
    | .long "encoding" attached | .short 'e' attached =>
      let (text, rest) ← valueOf attached rest
      invocation bound rest (← o.set .encoding text)
    | _ => throw .usage

def parse (args : List String) : Except Stop Invocation := invocation args args ⟨none, none, none⟩

end TrieArchive.Cli
