import TrieArchive.Json.Reader

/-! Strings of JSON: escapes, pairs of surrogates, and the check that the bytes are UTF-8. -/
namespace TrieArchive.Json.Text

/-- The code unit written by four hexadecimal digits. -/
def codeUnit (a b c d : UInt8) : Option Nat := do
  let a ← Bytes.hexValue? a
  let b ← Bytes.hexValue? b
  let c ← Bytes.hexValue? c
  let d ← Bytes.hexValue? d
  return ((a * 16 + b) * 16 + c) * 16 + d

/-- The byte that a one-letter escape stands for. -/
def simpleEscape? (b : UInt8) : Option UInt8 :=
  if b = 0x22 ∨ b = 0x5c ∨ b = 0x2f then some b
  else if b = 0x62 then some 0x08
  else if b = 0x66 then some 0x0c
  else if b = 0x6e then some 0x0a
  else if b = 0x72 then some 0x0d
  else if b = 0x74 then some 0x09
  else none

def utf8 (n : Nat) : Bytes := Bytes.ofText (Char.ofNat n).toString

def isLeading (n : Nat) : Bool := 0xd800 ≤ n && n ≤ 0xdbff
def isTrailing (n : Nat) : Bool := 0xdc00 ≤ n && n ≤ 0xdfff

/-- The character of a surrogate pair. -/
def joined (leading trailing : Nat) : Nat := 0x10000 + (leading - 0xd800) * 0x400 + (trailing - 0xdc00)

/-- The bytes of a string up to its closing quote, and what follows it. A surrogate must be the
first of a pair. -/
def content : Bytes → Except Fault (Bytes × Bytes)
  | [] => .error .truncated
  | 0x22 :: rest => .ok ([], rest)
  | 0x5c :: 0x75 :: a :: b :: c :: d :: rest =>
    match codeUnit a b c d with
    | none => .error .malformed
    | some n =>
      if isTrailing n then .error .malformed
      else if isLeading n then
        match rest with
        | 0x5c :: 0x75 :: a :: b :: c :: d :: rest =>
          match codeUnit a b c d with
          | none => .error .malformed
          | some m =>
            if isTrailing m then do
              let (tail, rest) ← content rest
              return (utf8 (joined n m) ++ tail, rest)
            else .error .malformed
        | [] => .error .truncated
        | [0x5c] => .error .truncated
        | 0x5c :: 0x75 :: _ => .error .truncated
        | _ => .error .malformed
      else do
        let (tail, rest) ← content rest
        return (utf8 n ++ tail, rest)
  | 0x5c :: 0x75 :: _ => .error .truncated
  | [0x5c] => .error .truncated
  | 0x5c :: e :: rest =>
    match simpleEscape? e with
    | none => .error .malformed
    | some b => do
      let (tail, rest) ← content rest
      return (b :: tail, rest)
  | b :: rest =>
    if b < 0x20 then .error .malformed
    else do
      let (tail, rest) ← content rest
      return (b :: tail, rest)

/-- What follows the closing quote of a string whose characters do not matter. -/
def skipped : Bytes → Except Fault Bytes
  | [] => .error .truncated
  | 0x22 :: rest => .ok rest
  | 0x5c :: 0x75 :: a :: b :: c :: d :: rest =>
    if (codeUnit a b c d).isSome then skipped rest else .error .malformed
  | 0x5c :: 0x75 :: _ => .error .truncated
  | [0x5c] => .error .truncated
  | 0x5c :: e :: rest => if (simpleEscape? e).isSome then skipped rest else .error .malformed
  | b :: rest => if b < 0x20 then .error .malformed else skipped rest

/-- A string, behind its opening quote. -/
def body : Reader String := fun s => do
  let (bytes, rest) ← content s
  match Bytes.text? bytes with
  | some text => return (text, rest)
  | none => throw .malformed

/-- Skips a string, behind its opening quote. -/
def skip : Reader Unit := fun s => do return ((), ← skipped s)

end TrieArchive.Json.Text
