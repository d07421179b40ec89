import PathQuery.Number.Shortest

/-!
# Number notations

A notation says how the shortest decimal of a double is laid out: which magnitudes are written with
all their places, whether an integer shows a fraction, and the names of the values that are no
numbers.

* names: `Style`, `Style.plain`, `Style.precise`, `Style.json`, `Style.render`, `text`.
* **`text`** is the notation of query results: all places, no fraction on integers, no sign on
  zero.
-/

namespace PathQuery.Number

/-- A layout of numbers. A magnitude below `10 ^ point`, with `least ≤ point ≤ most`, is written
with all its places, any other with an exponent; `plus` is the sign of an exponent that is not
negative. -/
structure Style where
  least : Option Int
  most : Option Int
  fraction : Bool
  plus : String
  tie : Tie
  nan : String
  infinity : String
  negativeInfinity : String

/-- All places, however many. -/
def Style.plain : Style := ⟨none, none, false, "", .up, "NaN", "inf", "-inf"⟩

/-- An integer shows that it is a double; very large and very small numbers have exponents. -/
def Style.precise : Style := ⟨some (-3), some 16, true, "", .up, "NaN", "inf", "-inf"⟩

/-- The numbers of JSON text, which has no infinity. -/
def Style.json : Style := ⟨some (-4), some 16, true, "+", .even, "null", "null", "null"⟩

/-- The digits of a decimal with all places; the point stands after the first `point` digits. -/
def positional (digits : List Char) (point : Int) (fraction : Bool) : List Char :=
  let zeros (n : Int) := List.replicate n.toNat '0'
  if point ≤ 0 then ['0', '.'] ++ zeros (-point) ++ digits
  else if (digits.length : Int) ≤ point then
    digits ++ zeros (point - digits.length) ++ if fraction then ['.', '0'] else []
  else digits.take point.toNat ++ '.' :: digits.drop point.toNat

/-- The digits of a decimal with one place before the point, and an exponent. -/
def scientific (digits : List Char) (point : Int) (plus : String) : List Char :=
  let tail := digits.drop 1
  let exponent := point - 1
  let sign := if exponent < 0 then "-" else plus
  digits.take 1 ++ (if tail.isEmpty then [] else '.' :: tail) ++
    'e' :: sign.toList ++ Nat.toDigits 10 exponent.natAbs

/-- A magnitude in the layout of a style. -/
def Style.magnitude (style : Style) (d : Dyadic) : List Char :=
  if d.mantissa = 0 then if style.fraction then ['0', '.', '0'] else ['0']
  else
    let decimal := shortest d.mantissa d.exponent style.tie
    let digits := Nat.toDigits 10 decimal.digits
    let point := digits.length + decimal.exponent
    if style.least.all (· ≤ point) && style.most.all (point ≤ ·) then
      positional digits point style.fraction
    else scientific digits point style.plus

/-- A double in the layout of a style. -/
def Style.render (style : Style) (x : Float) : String :=
  match Dyadic.ofFloat? x with
  | some d => String.ofList ((if d.negative then ['-'] else []) ++ style.magnitude d)
  | none =>
    if x.isNaN then style.nan else if x < 0 then style.negativeInfinity else style.infinity

/-- The text of a number as a query result. -/
def text (x : Float) : String :=
  if x == 0 then "0"
  else if x.isInf then if x < 0 then "-Infinity" else "Infinity"
  else Style.plain.render x

end PathQuery.Number
