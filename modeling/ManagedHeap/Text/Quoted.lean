/-
# Quoted texts

How a message quotes a text it was given: in double quotes, with `"` and `\` marked by a
backslash, the usual short forms for NUL, tab, line feed and carriage return, and any other
character that would not be seen as itself written by its code point.
-/
import ManagedHeap.Address
import ManagedHeap.Text.Visible

namespace ManagedHeap.Text

/-- One character inside quotes. -/
def quoteChar (c : Char) : String :=
  if c = '"' then "\\\""
  else if c = '\\' then "\\\\"
  else if c = '\x00' then "\\0"
  else if c = '\t' then "\\t"
  else if c = '\n' then "\\n"
  else if c = '\r' then "\\r"
  else if isVisible c && !isExtender c then String.singleton c
  else "\\u\x7b" ++ hexDigits c.toNat ++ "\x7d"

/-- A text in quotes. -/
def quoted (s : String) : String :=
  "\"" ++ String.join (s.toList.map quoteChar) ++ "\""

end ManagedHeap.Text
