/-!
# Spans of character codes

A class of characters is given as a list of closed intervals of code points.

* names: `Spans`, `Spans.has`.
-/

namespace PathQuery.Text

/-- Closed intervals of code points, in ascending order. -/
abbrev Spans := List (Nat × Nat)

/-- The character lies in one of the intervals. -/
def Spans.has (spans : Spans) (c : Char) : Bool :=
  spans.any fun span => span.1 ≤ c.toNat && c.toNat ≤ span.2

end PathQuery.Text
