import HostScript.Text.Hidden

/-!
# Quoted text

Text as it appears inside messages: between quotes, with short escapes for the common controls and
numbers for characters that would not show.
-/

namespace HostScript.Text

/-- The braces around a character number, as text. -/
def byNumber (c : Char) : String :=
  "\\u\x7b" ++ String.ofList (Nat.toDigits 16 c.toNat) ++ "\x7d"

def quotedChar (c : Char) : String :=
  if c == '\x00' then "\\0"
  else if c == '\t' then "\\t"
  else if c == '\r' then "\\r"
  else if c == '\n' then "\\n"
  else if c == '"' then "\\\""
  else if c == '\\' then "\\\\"
  else if isHidden c then byNumber c
  else c.toString

def quoted (text : String) : String :=
  "\"" ++ String.join (text.toList.map quotedChar) ++ "\""

end HostScript.Text
