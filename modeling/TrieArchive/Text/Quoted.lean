import TrieArchive.Text.Printable

/-! Characters and texts as they are shown between quotes in listings. -/
namespace TrieArchive.Text

def hexDigits (n : Nat) : String := String.ofList (Nat.toDigits 16 n)

/-- How one character is shown; the quote that delimits the text is `delimiter`. -/
def escape (delimiter c : Char) : String :=
  if c = '\x00' then "\\0"
  else if c = '\t' then "\\t"
  else if c = '\n' then "\\n"
  else if c = '\r' then "\\r"
  else if c = '\\' then "\\\\"
  else if c = delimiter then "\\" ++ delimiter.toString
  else if isPrintable c then c.toString
  else "\\u\x7b" ++ hexDigits c.toNat ++ "\x7d"

def quotedChar (c : Char) : String := "'" ++ escape '\'' c ++ "'"

def quoted (s : String) : String := "\"" ++ String.join (s.toList.map (escape '"')) ++ "\""

end TrieArchive.Text
