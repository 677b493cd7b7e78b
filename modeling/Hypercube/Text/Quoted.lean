import Hypercube.Text.Invisible

/-!
# Quoted text

Text in quotation marks, in which every character can be told from every other: quotation marks and
backslashes are escaped, and characters that cannot be seen are written by name or by code point.
-/

set_option autoImplicit false

namespace Hypercube.Text

/-- Hexadecimal digits of a code point. -/
def hexDigits (n : Nat) : String :=
  String.ofList (Nat.toDigits 16 n)

/-- A character as it is written inside quotation marks. -/
def quoteChar (c : Char) : String :=
  if c = '\x00' then "\\0"
  else if c = '\t' then "\\t"
  else if c = '\r' then "\\r"
  else if c = '\n' then "\\n"
  else if c = '"' then "\\\""
  else if c = '\\' then "\\\\"
  else if isInvisible c then "\\u\x7b" ++ hexDigits c.toNat ++ "\x7d"
  else c.toString

/-- A text in quotation marks. -/
def quote (s : String) : String :=
  "\"" ++ String.join (s.toList.map quoteChar) ++ "\""

end Hypercube.Text
