/-!
# Quoted text

A text in quotes, with the quote, the backslash and control characters escaped. Everything else stands for itself, so a
quoted text without escapes is the text between two quotes.
-/

namespace Statics.Text

/-- Lowercase hexadecimal digits of a natural number. -/
def hex (n : Nat) : String :=
  String.ofList (Nat.toDigits 16 n)

/-- Control characters: the first 32 codes, the delete character and the 32 codes after it. -/
def isControl (c : Char) : Bool :=
  c.toNat < 0x20 || (0x7f ≤ c.toNat && c.toNat < 0xa0)

/-- A character as it stands inside quotes. Only controls are escaped, not what is blank or combines with a letter. -/
def escaped (c : Char) : String :=
  if c == '\x22' then "\\\""
  else if c == '\\' then "\\\\"
  else if c == '\n' then "\\n"
  else if c == '\t' then "\\t"
  else if c == '\r' then "\\r"
  else if c == '\x00' then "\\0"
  else if isControl c then "\\u\x7b" ++ hex c.toNat ++ "\x7d"
  else String.ofList [c]

/-- The text in quotes. -/
def quoted (s : String) : String :=
  "\"" ++ String.join (s.toList.map escaped) ++ "\""

end Statics.Text
