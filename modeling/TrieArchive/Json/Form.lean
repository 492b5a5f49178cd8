import TrieArchive.Json.Value
import TrieArchive.Json.Skip

/-! The JSON form of values: how they are written, and readers for lists, records, alternatives and
objects keyed by text. A record is also read from the list of its fields. Readers are told how many
brackets they may open inside each other. -/
namespace TrieArchive

class JsonForm (α : Type) where
  toJson : α → Json
  read : (depth : Nat) → Json.Reader α

namespace Json

namespace Reader

variable {α β σ : Type}

/-- How many brackets of a text may be open at once. Those that are skipped do not count. -/
def nestingLimit : Nat := 127

/-- Opens a bracket if one may still be opened. -/
def nested (depth : Nat) (inside : (depth : Nat) → Reader α) : Reader α :=
  match depth with
  | 0 => throw .malformed
  | depth + 1 => inside depth

/-- A value of another shape is read before it is refused, so that what is wrong inside it shows. -/
def mismatch : Reader α := do
  let b ← start
  if b = 0x6e then skip; word ull
  else if b = 0x74 then skip; word rue
  else if b = 0x66 then skip; word alse
  else if b = 0x2d ∨ isDigit b then let _ ← Number.number b
  else if b = 0x22 then skip; let _ ← Text.body
  else if b = 0x5b ∨ b = 0x7b then pure ()
  else throw .malformed
  throw .unfit

def anyNumber : Reader Number := do
  let b ← start
  if b = 0x2d ∨ isDigit b then Number.number b else mismatch

/-- A whole number of at most `max`. -/
def whole (max : Nat) : Reader Nat := do
  match ← anyNumber with
  | .whole n => if n ≤ max then return n else throw .unfit
  | _ => throw .unfit

/-- A whole number of a signed width, given by its largest number. -/
def signed (max : Nat) : Reader Int := do
  match ← anyNumber with
  | .whole n => if n ≤ max then return n else throw .unfit
  | .negative n => if n ≤ max + 1 then return -n else throw .unfit
  | .fraction => throw .unfit

def bool : Reader Bool := do
  let b ← start
  if b = 0x74 then skip; word rue; return true
  else if b = 0x66 then skip; word alse; return false
  else mismatch

def null : Reader Unit := do
  if (← start) = 0x6e then skip; word ull
  else mismatch

def text : Reader String := do
  if (← start) = 0x22 then skip; Text.body
  else mismatch

/-- Whether another item follows in a list, with the comma before it taken. -/
def hasItem (first : Bool) : Reader Bool := do
  let b ← start
  if b = 0x5d then return false
  else if first then return true
  else if b = 0x2c then
    skip
    if (← start) = 0x5d then throw .malformed
    return true
  else throw .malformed

def endList : Reader Unit := do
  if (← start) = 0x5d then skip else throw .malformed

/-- The items up to the end of a list. Each takes a byte, so the bytes of the text bound them. -/
def items (item : Reader α) : (bound : Bytes) → (first : Bool) → Reader (List α)
  | [], _ => throw .truncated
  | _ :: bound, first => do
    if ← hasItem first then
      let a ← item
      let rest ← items item bound false
      return a :: rest
    else return []

def list (item : (depth : Nat) → Reader α) (depth : Nat) : Reader (List α) := do
  if (← start) = 0x5b then
    nested depth fun depth => do
      skip
      let l ← items (item depth) (← get) true
      endList
      return l
  else mismatch

/-- The next item of a list that must not end yet. -/
def required (first : Bool) (item : Reader α) : Reader α := do
  if ← hasItem first then item else throw .unfit

def pair (a : (depth : Nat) → Reader α) (b : (depth : Nat) → Reader β) (depth : Nat) : Reader (α × β) := do
  if (← start) = 0x5b then
    nested depth fun depth => do
      skip
      let first ← required true (a depth)
      let second ← required false (b depth)
      endList
      return (first, second)
  else mismatch

/-- Whether another member follows in an object, with the comma before it taken. -/
def hasMember (first : Bool) : Reader Bool := do
  let b ← start
  if b = 0x7d then return false
  else if first then
    if b = 0x22 then return true else throw .malformed
  else if b = 0x2c then
    skip
    if (← start) = 0x22 then return true else throw .malformed
  else throw .malformed

def memberName : Reader String := do skip; Text.body

def colon : Reader Unit := do
  if (← start) = 0x3a then skip else throw .malformed

def endObject : Reader Unit := do
  if (← start) = 0x7d then skip else throw .malformed

/-- The members up to the end of an object whose names are all of one kind. -/
def members (key : String → Option α) (value : Reader β) :
    (bound : Bytes) → (first : Bool) → Reader (List (α × β))
  | [], _ => throw .truncated
  | _ :: bound, first => do
    if ← hasMember first then
      match key (← memberName) with
      | none => throw .unfit
      | some a =>
        colon
        let b ← value
        let rest ← members key value bound false
        return (a, b) :: rest
    else return []

def object (key : String → Option α) (value : (depth : Nat) → Reader β) (depth : Nat) :
    Reader (List (α × β)) := do
  if (← start) = 0x7b then
    nested depth fun depth => do
      skip
      let l ← members key (value depth) (← get) true
      endObject
      return l
  else mismatch

/-- A field of a record that is filled in step by step. -/
structure Field (σ : Type) where
  name : String
  filled : σ → Bool
  fill : σ → Reader σ

/-- The named fields of a record, in any order. None may occur twice; others are skipped. -/
def fields (known : List (Field σ)) : (bound : Bytes) → (first : Bool) → σ → Reader σ
  | [], _, _ => throw .truncated
  | _ :: bound, first, s => do
    if ← hasMember first then
      let name ← memberName
      match known.find? (·.name == name) with
      | none =>
        colon
        Skip.value
        fields known bound false s
      | some field =>
        if field.filled s then throw .unfit
        colon
        fields known bound false (← field.fill s)
    else return s

/-- The fields of a record as items of a list, in order. -/
def positional : (known : List (Field σ)) → (first : Bool) → σ → Reader σ
  | [], _, s => return s
  | field :: rest, first, s => do positional rest false (← required first (field.fill s))

/-- A record by name or by position. `finish` fails where a field is missing. -/
def record (known : (depth : Nat) → List (Field σ)) (unfilled : σ) (finish : σ → Option α) (depth : Nat) :
    Reader α := do
  let b ← start
  if b = 0x5b then
    nested depth fun depth => do
      skip
      let s ← positional (known depth) true unfilled
      let a ← match finish s with
        | some a => pure a
        | none => throw .unfit
      endList
      return a
  else if b = 0x7b then
    nested depth fun depth => do
      skip
      let s ← fields (known depth) (← get) true unfilled
      let a ← match finish s with
        | some a => pure a
        | none => throw .unfit
      endObject
      return a
  else mismatch

/-- One alternative: read from its name alone, or from an object that maps the name to its content. -/
structure Case (α : Type) where
  name : String
  alone : Option α
  content : Reader α

def case? (known : List (Case α)) (name : String) : Reader (Case α) :=
  match known.find? (·.name == name) with
  | some c => return c
  | none => throw .unfit

def alternative (known : (depth : Nat) → List (Case α)) (depth : Nat) : Reader α := do
  let b ← start
  if b = 0x7b then
    nested depth fun depth => do
      skip
      if (← start) ≠ 0x22 then throw .malformed
      let c ← case? (known depth) (← memberName)
      colon
      let a ← c.content
      endObject
      return a
  else if b = 0x22 then
    let c ← case? (known depth) (← text)
    match c.alone with
    | some a => return a
    | none => throw .unfit
  else throw .malformed

/-- A whole text, which holds one value and blanks. -/
def document (value : Reader α) (s : Bytes) : Except Fault α := do
  let (a, rest) ← value.run s
  if (rest.dropWhile isBlank).isEmpty then return a else throw .malformed

end Reader

end Json

namespace JsonForm

open Json.Reader

instance : JsonForm UInt8 := ⟨fun n => .num n.toNat, fun _ => UInt8.ofNat <$> whole (2 ^ 8 - 1)⟩
instance : JsonForm UInt16 := ⟨fun n => .num n.toNat, fun _ => UInt16.ofNat <$> whole (2 ^ 16 - 1)⟩
instance : JsonForm UInt32 := ⟨fun n => .num n.toNat, fun _ => UInt32.ofNat <$> whole (2 ^ 32 - 1)⟩
instance : JsonForm UInt64 := ⟨fun n => .num n.toNat, fun _ => UInt64.ofNat <$> whole (2 ^ 64 - 1)⟩
instance : JsonForm Int8 := ⟨fun n => .num n.toInt, fun _ => Int8.ofInt <$> signed (2 ^ 7 - 1)⟩
instance : JsonForm Int16 := ⟨fun n => .num n.toInt, fun _ => Int16.ofInt <$> signed (2 ^ 15 - 1)⟩
instance : JsonForm Int32 := ⟨fun n => .num n.toInt, fun _ => Int32.ofInt <$> signed (2 ^ 31 - 1)⟩
instance : JsonForm Int64 := ⟨fun n => .num n.toInt, fun _ => Int64.ofInt <$> signed (2 ^ 63 - 1)⟩
instance : JsonForm Bool := ⟨.bool, fun _ => bool⟩
instance : JsonForm String := ⟨.str, fun _ => text⟩
instance : JsonForm Unit := ⟨fun _ => .null, fun _ => null⟩

instance : JsonForm Char where
  toJson c := .str c.toString
  read _ := do
    match (← text).toList with
    | [c] => return c
    | _ => throw .unfit

variable {α β : Type} [JsonForm α] [JsonForm β]

instance : JsonForm (List α) := ⟨fun l => .arr (l.map toJson), list read⟩

instance : JsonForm (α × β) := ⟨fun p => .arr [toJson p.1, toJson p.2], pair read read⟩

instance : JsonForm (Option α) where
  toJson
    | none => .null
    | some a => toJson a
  read depth := do
    if (← start) = 0x6e then null; return none
    else return some (← read depth)

/-- The compact text of a value. -/
def write (a : α) : Bytes := (toJson a).compact

def parse (α : Type) [JsonForm α] (s : Bytes) : Except Json.Fault α := document (read nestingLimit : Json.Reader α) s

end JsonForm

end TrieArchive
