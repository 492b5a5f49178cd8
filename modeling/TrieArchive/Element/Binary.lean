import TrieArchive.Bytes

/-! The compact binary form of values. Numbers have a fixed width and stand low byte first, texts
and lists follow their length as eight bytes, and an alternative follows its index. Readers leave
the bytes behind a value alone. -/
namespace TrieArchive

namespace Binary

inductive Fault where
  /-- The bytes ended early. -/
  | truncated
  | invalidUtf8
  | invalidBool
  | invalidChar
  | invalidTag
  /-- The bytes are in order but the value they give is refused. -/
  | refused
  deriving DecidableEq, Repr

abbrev Reader := StateT Bytes (Except Fault)

end Binary

class Binary (α : Type) where
  encode : α → Bytes
  decode : Binary.Reader α

namespace Binary

def take (n : Nat) : Reader Bytes := fun s =>
  match Bytes.split? n s with
  | some result => .ok result
  | none => .error .truncated

def word (width : Nat) : Reader Nat := Bytes.value <$> take width

/-- That many values in a row. -/
def many {α : Type} (item : Reader α) : (count : Nat) → Reader (List α)
  | 0 => pure []
  | count + 1 => do
    let a ← item
    let rest ← many item count
    return a :: rest

instance : Binary UInt8 := ⟨fun n => Bytes.word 1 n.toNat, UInt8.ofNat <$> word 1⟩
instance : Binary UInt16 := ⟨fun n => Bytes.word 2 n.toNat, UInt16.ofNat <$> word 2⟩
instance : Binary UInt32 := ⟨fun n => Bytes.word 4 n.toNat, UInt32.ofNat <$> word 4⟩
instance : Binary UInt64 := ⟨fun n => Bytes.word 8 n.toNat, UInt64.ofNat <$> word 8⟩
instance : Binary Int8 := ⟨fun n => encode n.toUInt8, UInt8.toInt8 <$> decode⟩
instance : Binary Int16 := ⟨fun n => encode n.toUInt16, UInt16.toInt16 <$> decode⟩
instance : Binary Int32 := ⟨fun n => encode n.toUInt32, UInt32.toInt32 <$> decode⟩
instance : Binary Int64 := ⟨fun n => encode n.toUInt64, UInt64.toInt64 <$> decode⟩
instance : Binary Unit := ⟨fun _ => [], pure ()⟩

instance : Binary Bool where
  encode b := [if b then 1 else 0]
  decode := do
    match ← word 1 with
    | 0 => return false
    | 1 => return true
    | _ => throw .invalidBool

/-- The number of bytes of the character that starts with `b`, 0 where none does. -/
def charWidth (b : UInt8) : Nat :=
  if b < 0x80 then 1
  else if b < 0xc2 then 0
  else if b < 0xe0 then 2
  else if b < 0xf0 then 3
  else if b < 0xf5 then 4
  else 0

/-- A character is its bytes of UTF-8, the first of which tells how many follow. -/
instance : Binary Char where
  encode c := Bytes.ofText c.toString
  decode := do
    match ← take 1 with
    | [first] =>
      let rest ← fun s =>
        match charWidth first with
        | 0 => .error Fault.invalidChar
        | width + 1 =>
          match Bytes.split? width s with
          | some result => .ok result
          | none => .error Fault.invalidChar
      match (Bytes.text? (first :: rest)).map String.toList with
      | some [c] => return c
      | _ => throw .invalidChar
    | _ => throw .truncated

instance : Binary String where
  encode s := Bytes.word 8 (Bytes.ofText s).length ++ Bytes.ofText s
  decode := do
    let length ← word 8
    match Bytes.text? (← take length) with
    | some s => return s
    | none => throw .invalidUtf8

variable {α β : Type} [Binary α] [Binary β]

instance : Binary (List α) where
  encode l := Bytes.word 8 l.length ++ l.flatMap encode
  decode := do many decode (← word 8)

instance : Binary (α × β) where
  encode p := encode p.1 ++ encode p.2
  decode := do return (← decode, ← decode)

instance : Binary (Option α) where
  encode
    | none => [0]
    | some a => 1 :: encode a
  decode := do
    match ← word 1 with
    | 0 => return none
    | 1 => return some (← decode)
    | _ => throw .invalidTag

/-- Reads one value from the front of the bytes. -/
def read (α : Type) [Binary α] (s : Bytes) : Except Fault α := Prod.fst <$> (decode : Reader α).run s

end Binary

end TrieArchive
