import PathQuery.Text.Quoted

/-!
# JSON strings

A text as a JSON string: only quotes, backslashes and control characters are escaped.

* names: `jsonChar`, `jsonQuoted`.
-/

namespace PathQuery.Text

/-- One character of a JSON string. -/
def jsonChar (c : Char) : String :=
  if c == '"' then "\\\""
  else if c == '\\' then "\\\\"
  else if c.toNat == 8 then "\\b"
  else if c.toNat == 12 then "\\f"
  else if c == '\n' then "\\n"
  else if c == '\r' then "\\r"
  else if c == '\t' then "\\t"
  else if c.toNat < 0x10 then "\\u000" ++ hex c.toNat
  else if c.toNat < 0x20 then "\\u00" ++ hex c.toNat
  else c.toString

/-- The text as a JSON string. -/
def jsonQuoted (s : String) : String := "\"" ++ String.join (s.toList.map jsonChar) ++ "\""

end PathQuery.Text
