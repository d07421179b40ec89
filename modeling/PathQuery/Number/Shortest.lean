import PathQuery.Number.Double

/-!
# Shortest decimals

The shortest decimal that reads back as a given positive double: on the coarsest decimal grid with
a point among the reals that round to the double, the point nearest to it. A point of a grid lies
among those reals only if one of the two neighbours of the double on that grid does.

* names: `Decimal`, `Tie`, `Neighbourhood`, `shortest`.
-/

namespace PathQuery.Number

/-- `digits · 10 ^ exponent`. -/
structure Decimal where
  digits : Nat
  exponent : Int
deriving DecidableEq

/-- Which of two equally near decimals is taken. -/
inductive Tie where
  | up
  | even
deriving DecidableEq

/-- The reals that round to a double, over a common denominator: from `low` to `high` around
`value`, the ends included if `closed`. -/
structure Neighbourhood where
  low : Nat
  value : Nat
  high : Nat
  den : Nat
  closed : Bool

/-- The reals that round to `mantissa · 2 ^ exponent`. The gap below a power of two is half the gap
above it. -/
def Neighbourhood.ofDyadic (mantissa : Nat) (exponent : Int) : Neighbourhood :=
  let below := if mantissa = Nat.pow 2 52 && exponent != -1074 then 1 else 2
  let closed := mantissa % 2 == 0
  if 2 ≤ exponent then
    let unit := Nat.pow 2 (exponent - 2).toNat
    ⟨(4 * mantissa - below) * unit, 4 * mantissa * unit, (4 * mantissa + 2) * unit, 1, closed⟩
  else
    ⟨4 * mantissa - below, 4 * mantissa, 4 * mantissa + 2, Nat.pow 2 (2 - exponent).toNat, closed⟩

/-- The neighbourhood in units of `10 ^ t`. -/
def Neighbourhood.inUnits (n : Neighbourhood) (t : Int) : Neighbourhood :=
  if 0 ≤ t then { n with den := n.den * Nat.pow 10 t.toNat }
  else
    let unit := Nat.pow 10 (-t).toNat
    { n with low := n.low * unit, value := n.value * unit, high := n.high * unit }

/-- The integer `d` lies in the neighbourhood. -/
def Neighbourhood.has (n : Neighbourhood) (d : Nat) : Bool :=
  if n.closed then n.low ≤ d * n.den && d * n.den ≤ n.high
  else n.low < d * n.den && d * n.den < n.high

/-- The integer of the neighbourhood nearest to its value. -/
def Neighbourhood.nearest? (n : Neighbourhood) (tie : Tie) : Option Nat :=
  let d := n.value / n.den
  let left := n.value - d * n.den
  let right := (d + 1) * n.den - n.value
  match n.has d, n.has (d + 1) with
  | true, true =>
    if left < right then some d
    else if right < left then some (d + 1)
    else match tie with
      | .up => some (d + 1)
      | .even => some (if d % 2 = 0 then d else d + 1)
  | true, false => some d
  | false, true => some (d + 1)
  | false, false => none

/-- The first grid with a point in the neighbourhood, from `10 ^ t` downwards. -/
def Neighbourhood.search (n : Neighbourhood) (tie : Tie) : Nat → Int → Decimal
  | 0, t => ⟨(n.inUnits t).value / (n.inUnits t).den, t⟩
  | steps + 1, t =>
    match (n.inUnits t).nearest? tie with
    | some d => ⟨d, t⟩
    | none => n.search tie steps (t - 1)

/-- The least number of decimal digits that holds `n`. -/
def digitCount (n : Nat) : Nat := (Nat.toDigits 10 n).length

/-- **The shortest decimal that reads back** as `mantissa · 2 ^ exponent`, for a positive
mantissa. -/
def shortest (mantissa : Nat) (exponent : Int) (tie : Tie) : Decimal :=
  let n := Neighbourhood.ofDyadic mantissa exponent
  let top : Int :=
    if n.den ≤ n.value then digitCount (n.value / n.den)
    else 1 - (digitCount (n.den / n.value) : Int)
  n.search tie 24 top

end PathQuery.Number
