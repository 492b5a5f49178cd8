import TrieArchive.Text.Quoted
import TrieArchive.Bytes

/-! How values and containers of them are listed for people. -/
namespace TrieArchive

class Listing (α : Type) where
  text : α → String

namespace Listing

instance : Listing UInt8 := ⟨fun n => toString n.toNat⟩
instance : Listing UInt16 := ⟨fun n => toString n.toNat⟩
instance : Listing UInt32 := ⟨fun n => toString n.toNat⟩
instance : Listing UInt64 := ⟨fun n => toString n.toNat⟩
instance : Listing Int8 := ⟨fun n => toString n.toInt⟩
instance : Listing Int16 := ⟨fun n => toString n.toInt⟩
instance : Listing Int32 := ⟨fun n => toString n.toInt⟩
instance : Listing Int64 := ⟨fun n => toString n.toInt⟩
instance : Listing Bool := ⟨fun b => if b then "true" else "false"⟩
instance : Listing Char := ⟨Text.quotedChar⟩
instance : Listing String := ⟨Text.quoted⟩
instance : Listing Unit := ⟨fun _ => "()"⟩

variable {α β : Type} [Listing α] [Listing β]

def separated (items : List String) : String := ", ".intercalate items

instance : Listing (List α) := ⟨fun l => "[" ++ separated (l.map text) ++ "]"⟩

instance : Listing (α × β) := ⟨fun p => "(" ++ text p.1 ++ ", " ++ text p.2 ++ ")"⟩

instance : Listing (Option α) where
  text
    | none => "None"
    | some a => "Some(" ++ text a ++ ")"

/-- A record by its name and fields. -/
def record (name : String) (fields : List (String × String)) : String :=
  name ++ " \x7b " ++ separated (fields.map fun (field, value) => field ++ ": " ++ value) ++ " \x7d"

/-- A record of which only some fields are shown. -/
def openRecord (name : String) (fields : List (String × String)) : String :=
  name ++ " \x7b " ++ separated ((fields.map fun (field, value) => field ++ ": " ++ value) ++ [".."]) ++ " \x7d"

def braced (items : List String) : String := "\x7b" ++ separated items ++ "\x7d"

end Listing

end TrieArchive
