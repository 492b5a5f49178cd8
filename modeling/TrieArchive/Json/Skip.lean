import TrieArchive.Json.Text
import TrieArchive.Json.Number

/-! Skipping a value of any shape and depth, such as that of a field nobody asked for. -/
namespace TrieArchive.Json.Skip

open Reader

inductive Bracket where
  | list
  | object
  deriving DecidableEq

/-- The name of a field and the colon behind it. -/
def fieldName : Reader Unit := do
  skipBlanks
  match ← peek with
  | some 0x22 => skip
  | some _ => throw .malformed
  | none => throw .truncated
  Text.skip
  skipBlanks
  match ← peek with
  | some 0x3a => skip
  | some _ => throw .malformed
  | none => throw .truncated

/-- A value without items: its bytes are skipped, and the answer is `none`. Of a list or object the
bracket is skipped. -/
def head : Reader (Option Bracket) := do
  let b ← start
  if b = 0x6e then skip; word ull; return none
  else if b = 0x74 then skip; word rue; return none
  else if b = 0x66 then skip; word alse; return none
  else if b = 0x22 then skip; Text.skip; return none
  else if b = 0x5b then skip; return some .list
  else if b = 0x7b then skip; return some .object
  else if b = 0x2d ∨ isDigit b then Number.skipNumber b; return none
  else throw .malformed

def closes (b : UInt8) : Bracket → Bool
  | .list => b == 0x5d
  | .object => b == 0x7d

/-- Skips the rest of the brackets that are open, innermost first: at a value, or behind one. Each
step takes a byte, so the bytes of the text bound the steps. -/
def rest : (bound : Bytes) → (inside : List Bracket) → (behind : Bool) → Reader Unit
  | [], _, _ => throw .truncated
  | _ :: bound, inside, false => do
    match ← head with
    | none => rest bound inside true
    | some bracket =>
      skipBlanks
      match ← peek with
      | none => throw .truncated
      | some b =>
        if closes b bracket then
          skip
          rest bound inside true
        else
          if bracket = .object then fieldName
          rest bound (bracket :: inside) false
  | _ :: _, [], true => pure ()
  | _ :: bound, bracket :: inside, true => do
    skipBlanks
    match ← peek with
    | none => throw .truncated
    | some b =>
      if closes b bracket then
        skip
        rest bound inside true
      else if b = 0x2c then
        skip
        if bracket = .object then fieldName
        rest bound (bracket :: inside) false
      else throw .malformed

def value : Reader Unit := do rest (0 :: (← get)) [] false

end TrieArchive.Json.Skip
