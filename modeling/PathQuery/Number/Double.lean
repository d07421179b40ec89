/-!
# Doubles as exact numbers

A finite double is `± mantissa · 2 ^ exponent`. Rounding, remainders and conversions are exact
integer arithmetic on that form.

* names: `Dyadic`, `Dyadic.ofFloat?`, `nearest`, `floor`, `ceiling`, `roundToInt`, `remainder`,
  `exactInt?`.
* **`nearest`** is the double closest to a ratio of natural numbers, a tie going to the even
  mantissa.
-/

namespace PathQuery.Number

/-- `± mantissa · 2 ^ exponent`. -/
structure Dyadic where
  negative : Bool
  mantissa : Nat
  exponent : Int
deriving DecidableEq

/-- The exact value of a finite double, none for infinities and not-a-number. -/
def Dyadic.ofFloat? (x : Float) : Option Dyadic :=
  let bits := x.toBits.toNat
  let field : Nat := bits / Nat.pow 2 52 % Nat.pow 2 11
  let fraction : Nat := bits % Nat.pow 2 52
  let negative := bits / Nat.pow 2 63 == 1
  if field = 2047 then none
  else if field = 0 then some ⟨negative, fraction, -1074⟩
  else some ⟨negative, Nat.pow 2 52 + fraction, (field : Int) - 1075⟩

/-- The bits of positive infinity, the least pattern above all finite ones. -/
def infinityBits : Nat := 0x7FF0000000000000

/-- `num / den`, rounded to the nearest integer, a tie to the even one. -/
def divNearestEven (num den : Nat) : Nat :=
  let q := num / den
  let r := num % den
  if den < 2 * r || (den == 2 * r && q % 2 == 1) then q + 1 else q

/-- The ratio `num / den` divided by `2 ^ e`, as a ratio. -/
def scaleDown (num den : Nat) (e : Int) : Nat × Nat :=
  if 0 ≤ e then (num, den * Nat.pow 2 e.toNat) else (num * Nat.pow 2 (-e).toNat, den)

/-- The exponent of the last mantissa bit of a double near `num / den`. -/
def ulpExponent (num den : Nat) : Int :=
  let guess : Int := (num.log2 : Int) - den.log2 - 52
  let (n, d) := scaleDown num den guess
  max (-1074) (if n / d < Nat.pow 2 52 then guess - 1 else guess)

/-- The bits of the double nearest to `num / den`. -/
def nearestBits (num den : Nat) : Nat :=
  if num = 0 then 0
  else
    let e := ulpExponent num den
    let (n, d) := scaleDown num den e
    min ((e + 1074).toNat * Nat.pow 2 52 + divNearestEven n d) infinityBits

/-- **The double nearest to `num / den`.** -/
def nearest (num den : Nat) : Float := Float.ofBits (UInt64.ofNat (nearestBits num den))

/-- The double with the given sign and magnitude. -/
def signed (negative : Bool) (x : Float) : Float := if negative then -x else x

/-- The double of an integer, nearest if there is none. -/
def ofNat (n : Nat) : Float := nearest n 1

/-- The greatest integral double that is at most `x`; a zero keeps its sign. -/
def floor (x : Float) : Float :=
  match Dyadic.ofFloat? x with
  | none => x
  | some d =>
    if 0 ≤ d.exponent then x
    else
      let unit := Nat.pow 2 (-d.exponent).toNat
      let whole := d.mantissa / unit
      let up := d.negative && d.mantissa % unit != 0
      signed d.negative (ofNat (if up then whole + 1 else whole))

/-- The least integral double that is at least `x`; a zero keeps its sign. -/
def ceiling (x : Float) : Float := -floor (-x)

/-- The bound of a signed 64-bit word: no magnitude in it is greater. -/
def wordBound : Int := Nat.pow 2 63

/-- The nearest integer, a half going away from zero, held between the bounds of a signed 64-bit
word; `0` for not-a-number. -/
def roundToInt (x : Float) : Int :=
  match Dyadic.ofFloat? x with
  | none => if x.isNaN then 0 else if x < 0 then -wordBound else wordBound - 1
  | some d =>
    let magnitude :=
      if 0 ≤ d.exponent then d.mantissa * Nat.pow 2 d.exponent.toNat
      else
        let unit := Nat.pow 2 (-d.exponent).toNat
        (2 * d.mantissa + unit) / (2 * unit)
    let value : Int := if d.negative then -magnitude else magnitude
    max (-wordBound) (min value (wordBound - 1))

/-- The remainder of a division that truncates; it has the sign of the dividend. -/
def remainder (x y : Float) : Float :=
  match Dyadic.ofFloat? x, Dyadic.ofFloat? y with
  | none, _ => 0.0 / 0.0
  | some _, none => if y.isNaN then y else x
  | some a, some b =>
    if b.mantissa = 0 then 0.0 / 0.0
    else
      let e := min a.exponent b.exponent
      let atUnit (d : Dyadic) := d.mantissa * Nat.pow 2 (d.exponent - e).toNat
      let r := atUnit a % atUnit b
      signed a.negative
        (if 0 ≤ e then nearest (r * Nat.pow 2 e.toNat) 1 else nearest r (Nat.pow 2 (-e).toNat))

/-- The integer that the double is exactly, if it is one. -/
def exactInt? (x : Float) : Option Int :=
  match Dyadic.ofFloat? x with
  | none => none
  | some d =>
    let magnitude? :=
      if 0 ≤ d.exponent then some (d.mantissa * Nat.pow 2 d.exponent.toNat)
      else
        let unit := Nat.pow 2 (-d.exponent).toNat
        if d.mantissa % unit = 0 then some (d.mantissa / unit) else none
    magnitude?.map fun m => if d.negative then -(m : Int) else m

end PathQuery.Number
