import TrieArchive.Bytes

/-! JSON values and their text, as UTF-8 bytes: compact, or spread over lines. -/
namespace TrieArchive

inductive Json where
  | null
  | bool (b : Bool)
  | num (n : Int)
  | str (s : String)
  | arr (items : List Json)
  | obj (fields : List (String × Json))

namespace Json

/-- How a byte of a string is written. Bytes of longer characters are written as they are. -/
def escape (b : UInt8) : Bytes :=
  if b = 0x22 then [0x5c, 0x22]
  else if b = 0x5c then [0x5c, 0x5c]
  else if b = 0x08 then Bytes.ofText "\\b"
  else if b = 0x09 then Bytes.ofText "\\t"
  else if b = 0x0a then Bytes.ofText "\\n"
  else if b = 0x0c then Bytes.ofText "\\f"
  else if b = 0x0d then Bytes.ofText "\\r"
  else if b < 0x20 then Bytes.ofText "\\u00" ++ Bytes.ofText (Bytes.hex [b])
  else [b]

def quote (s : String) : Bytes := 0x22 :: (Bytes.ofText s).flatMap escape ++ [0x22]

mutual
def compact : Json → Bytes
  | .null => Bytes.ofText "null"
  | .bool b => Bytes.ofText (if b then "true" else "false")
  | .num n => Bytes.ofText (toString n)
  | .str s => quote s
  | .arr items => 0x5b :: compactItems items ++ [0x5d]
  | .obj fields => 0x7b :: compactFields fields ++ [0x7d]
def compactItems : List Json → Bytes
  | [] => []
  | [item] => item.compact
  | item :: rest => item.compact ++ 0x2c :: compactItems rest
def compactFields : List (String × Json) → Bytes
  | [] => []
  | [(name, item)] => quote name ++ 0x3a :: item.compact
  | (name, item) :: rest => quote name ++ 0x3a :: item.compact ++ 0x2c :: compactFields rest
end

/-- A new line indented by two blanks a level. -/
def newline (level : Nat) : Bytes := 0x0a :: List.replicate (2 * level) 0x20

mutual
/-- One line for each item and field; what is empty stays on its line. -/
def pretty (level : Nat) : Json → Bytes
  | .arr [] => [0x5b, 0x5d]
  | .obj [] => [0x7b, 0x7d]
  | .arr items => 0x5b :: prettyItems (level + 1) items ++ newline level ++ [0x5d]
  | .obj fields => 0x7b :: prettyFields (level + 1) fields ++ newline level ++ [0x7d]
  | other => other.compact
def prettyItems (level : Nat) : List Json → Bytes
  | [] => []
  | [item] => newline level ++ item.pretty level
  | item :: rest => newline level ++ item.pretty level ++ 0x2c :: prettyItems level rest
def prettyFields (level : Nat) : List (String × Json) → Bytes
  | [] => []
  | [(name, item)] => newline level ++ quote name ++ 0x3a :: 0x20 :: item.pretty level
  | (name, item) :: rest =>
    newline level ++ quote name ++ 0x3a :: 0x20 :: item.pretty level ++ 0x2c :: prettyFields level rest
end

end Json

end TrieArchive
