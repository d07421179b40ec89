import PathQuery.Number.Double
import PathQuery.Text.Blank

/-!
# Decimal literals

Digits with an optional fraction, or a fraction with a leading point. Exponents and signs are no
part of a literal; numbers read from text at run time may have one minus sign and blanks around.

* names: `Literal`, `Literal.read?`, `Literal.value`, `parse`.
-/

namespace PathQuery.Number

/-- A decimal literal: the digits before and after the point. -/
structure Literal where
  whole : List Char
  fraction : List Char
deriving DecidableEq

/-- The number that a run of digits denotes. -/
def digitsValue (digits : List Char) : Nat :=
  digits.foldl (fun n c => 10 * n + (c.toNat - '0'.toNat)) 0

/-- The double nearest to a literal. -/
def Literal.value (l : Literal) : Float :=
  nearest (digitsValue (l.whole ++ l.fraction)) (Nat.pow 10 l.fraction.length)

/-- The longest literal at the front of a text, and the text after it. A fraction after whole digits
counts only if more text follows it: at the end of the text it is read over. -/
def Literal.read? (cs : List Char) : Option (Literal × List Char) :=
  let whole := cs.takeWhile Char.isDigit
  match whole, cs.dropWhile Char.isDigit with
  | [], '.' :: rest =>
    let fraction := rest.takeWhile Char.isDigit
    if fraction.isEmpty then none else some (⟨[], fraction⟩, rest.dropWhile Char.isDigit)
  | [], _ => none
  | _ :: _, '.' :: rest =>
    match rest.dropWhile Char.isDigit with
    | [] => some (⟨whole, []⟩, [])
    | after => some (⟨whole, rest.takeWhile Char.isDigit⟩, after)
  | _ :: _, rest => some (⟨whole, []⟩, rest)

/-- The value of an unsigned text: digits and at most one point, and not the point alone. -/
def parseUnsigned? (cs : List Char) : Option Float :=
  let wellFormed := !cs.isEmpty && cs.all (fun c => c.isDigit || c == '.') &&
    cs.count '.' ≤ 1 && cs != ['.']
  if wellFormed then
    some (Literal.value ⟨cs.takeWhile (· != '.'), (cs.dropWhile (· != '.')).drop 1⟩)
  else none

/-- The number written in a text, with blanks around and one minus sign allowed; not-a-number if it
is no number. -/
def parse (s : String) : Float :=
  match Text.trim s.toList with
  | '-' :: cs => ((parseUnsigned? cs).map (- ·)).getD (0.0 / 0.0)
  | cs => (parseUnsigned? cs).getD (0.0 / 0.0)

end PathQuery.Number
