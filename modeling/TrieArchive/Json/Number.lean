import TrieArchive.Json.Reader

/-! Numbers of JSON. Whole numbers are exact up to 64 bits; a fraction, an exponent or more digits
make a number a fraction, whose value no reader here wants, but which must lie in the range of a
double. -/
namespace TrieArchive.Json

inductive Number where
  | whole (n : Nat)
  | negative (n : Nat)
  | fraction
  deriving DecidableEq, Repr

namespace Number

open Reader

def digitValue (b : UInt8) : Nat := b.toNat - 0x30

/-- Takes digits while the number they add to still fits 64 bits, and counts them. -/
def absorb : (n taken : Nat) → Bytes → Nat × Nat × Bytes
  | n, taken, b :: rest =>
    if isDigit b ∧ n * 10 + digitValue b < 2 ^ 64 then absorb (n * 10 + digitValue b) (taken + 1) rest
    else (n, taken, b :: rest)
  | n, taken, [] => (n, taken, [])

/-- The nearest number with 53 binary digits, a half going to the even neighbour. -/
def roundToDouble (n : Nat) : Nat :=
  let drop := n.log2 - 52
  let kept := n >>> drop
  let lost := n % 2 ^ drop
  let half := 2 ^ drop / 2
  let up := drop ≠ 0 ∧ (half < lost ∨ (half = lost ∧ kept % 2 = 1))
  (if up then kept + 1 else kept) <<< drop

/-- Whether `n * 10 ^ exponent` is too large for a double: both factors are rounded, and so is their
product. -/
def outOfRange (n : Nat) (exponent : Int) : Bool :=
  match exponent with
  | .negSucc _ => false
  | .ofNat e =>
    n ≠ 0 && (308 < e || 2 ^ 1024 - 2 ^ 970 ≤ roundToDouble n * roundToDouble (10 ^ e))

def inRange (n : Nat) (exponent : Int) : Reader Number :=
  if outOfRange n exponent then throw .malformed else return .fraction

def skipDigits : Reader Unit := modify (·.dropWhile isDigit)

def isExponentMark (b : Option UInt8) : Bool := b == some 0x65 || b == some 0x45

/-- The exponent from its mark on; `scale` is the exponent of the digits before it. -/
def exponent (n : Nat) (scale : Int) : Reader Number := do
  skip
  let sign ← peek
  if sign == some 0x2b || sign == some 0x2d then skip
  let first ← next
  if !isDigit first then throw .malformed
  let digits := (← get).takeWhile isDigit
  skipDigits
  let e : Nat := digits.foldl (fun e b => e * 10 + digitValue b) (digitValue first)
  inRange n (if sign == some 0x2d then scale - e else scale + e)

/-- The decimals from the point on. -/
def decimals (n : Nat) (scale : Int) : Reader Number := do
  skip
  let (n, taken, rest) := absorb n 0 (← get)
  set rest
  let following ← peek
  if following.any isDigit then skipDigits
  else if taken = 0 then
    throw (if following.isSome then .malformed else .truncated)
  if isExponentMark (← peek) then exponent n (scale - taken) else inRange n (scale - taken)

/-- A number behind its sign. No digit may follow a leading zero. -/
def unsigned (positive : Bool) : Reader Number := do
  let first ← next
  if !isDigit first then throw .malformed
  if first = 0x30 ∧ (← peek).any isDigit then throw .malformed
  let (n, _, rest) := absorb (digitValue first) 0 (← get)
  set rest
  let long := (← get).takeWhile isDigit
  skipDigits
  let following ← peek
  if following == some 0x2e then decimals n long.length
  else if isExponentMark following then exponent n long.length
  else if !long.isEmpty then inRange n long.length
  else if positive then return .whole n
  else if 1 ≤ n ∧ n ≤ 2 ^ 63 then return .negative n
  else return .fraction

/-- A number that starts with the byte `first`, still to be taken. -/
def number (first : UInt8) : Reader Number :=
  if first = 0x2d then do skip; unsigned false else unsigned true

def skipExponent : Reader Unit := do
  skip
  let sign ← peek
  if sign == some 0x2b || sign == some 0x2d then skip
  if !(← peek).any isDigit then throw .malformed
  skipDigits

/-- Skips a number whose value does not matter; one that ends early is malformed. -/
def skipNumber (first : UInt8) : Reader Unit := do
  if first = 0x2d then skip
  match ← peek with
  | some b =>
    if !isDigit b then throw .malformed
    skip
    if b = 0x30 then
      if (← peek).any isDigit then throw .malformed
    else skipDigits
  | none => throw .malformed
  let following ← peek
  if following == some 0x2e then
    skip
    if !(← peek).any isDigit then throw .malformed
    skipDigits
    if isExponentMark (← peek) then skipExponent
  else if isExponentMark following then skipExponent

end Number

end TrieArchive.Json
