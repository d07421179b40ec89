import PathQuery.Text.Visible

/-!
# Quoted text

How a text is shown in diagnostics: between double quotes, with a backslash before a quote or
backslash, short escapes for the common controls, and the code in braces for every other character
that cannot be seen on its own.

* names: `hex`, `escapeChar`, `quoted`.
-/

namespace PathQuery.Text

/-- A number in lower-case hexadecimal. -/
def hex (n : Nat) : String := String.ofList (Nat.toDigits 16 n)

/-- One character of a quoted text. -/
def escapeChar (c : Char) : String :=
  if c == '"' then "\\\""
  else if c == '\\' then "\\\\"
  else if c == '\t' then "\\t"
  else if c == '\r' then "\\r"
  else if c == '\n' then "\\n"
  else if c.toNat == 0 then "\\0"
  else if isCombining c || !isVisible c then "\\u\x7b" ++ hex c.toNat ++ "\x7d"
  else c.toString

/-- The text between double quotes. -/
def quoted (s : String) : String :=
  "\"" ++ String.join (s.toList.map escapeChar) ++ "\""

end PathQuery.Text
