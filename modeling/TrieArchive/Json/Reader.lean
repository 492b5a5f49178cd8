import TrieArchive.Bytes

/-! Reading JSON byte by byte. What is wrong is found in reading order, and falls into three
classes: text that is not JSON, JSON that is not the value wanted, and text that ends early. -/
namespace TrieArchive.Json

inductive Fault where
  | malformed
  | unfit
  | truncated
  deriving DecidableEq, Repr

abbrev Reader := StateT Bytes (Except Fault)

namespace Reader

def isBlank (b : UInt8) : Bool := b == 0x20 || b == 0x0a || b == 0x09 || b == 0x0d

def isDigit (b : UInt8) : Bool := 0x30 ≤ b && b ≤ 0x39

def skipBlanks : Reader Unit := modify (·.dropWhile isBlank)

/-- The next byte, which is left in place. -/
def peek : Reader (Option UInt8) := return (← get).head?

/-- Drops the next byte. -/
def skip : Reader Unit := modify List.tail

/-- The next byte, which is taken. -/
def next : Reader UInt8 := fun
  | b :: rest => .ok (b, rest)
  | [] => .error .truncated

/-- The first byte behind any blanks; the text must not end there. -/
def start : Reader UInt8 := do
  skipBlanks
  match ← peek with
  | some b => return b
  | none => throw .truncated

/-- Takes these bytes and no others. -/
def word : Bytes → Reader Unit
  | [] => pure ()
  | b :: rest => do
    if (← next) ≠ b then throw .malformed
    word rest

def ull : Bytes := [0x75, 0x6c, 0x6c]
def rue : Bytes := [0x72, 0x75, 0x65]
def alse : Bytes := [0x61, 0x6c, 0x73, 0x65]

end Reader

end TrieArchive.Json
