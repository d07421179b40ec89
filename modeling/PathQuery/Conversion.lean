import PathQuery.Number.Double
import PathQuery.Number.Literal
import PathQuery.Store.Json

/-!
# Conversions

What a value is as a truth value, a number and a text, and the conversion of a query result to the
type a caller asks for.

* names: `Store.toBool`, `Store.toNumber`, `Store.toText`; `Target`, `Converted`, `convert?`.
* Lists stand for their first item and cells for their contents; every other object has no number.
* **`convert?`** never guesses: a text is a number only if all of it is one, and a number is an
  integer only if it has no fraction and fits in 64 bits.
-/

namespace PathQuery

/-- The text of a truth value. -/
def boolText (b : Bool) : String := if b then "true" else "false"

/-- The number of a truth value. -/
def boolNumber (b : Bool) : Float := if b then 1.0 else 0.0

/-- The value that is no number. -/
def notANumber : Float := 0.0 / 0.0

/-- The truth value of a number. -/
def numberTruth (x : Float) : Bool := x != 0 && !x.isNaN

namespace Store

/-- The truth value of a value. -/
def toBool (s : Store) : Value → Bool
  | .null => false
  | .bool b => b
  | .number x => numberTruth x
  | .text t => !t.isEmpty
  | .list l => !(s.lists.get l).isEmpty
  | _ => true

/-- The number of a value inside at most `n` lists and cells. -/
def toNumberUpTo (s : Store) : Nat → Value → Float
  | _, .bool b => boolNumber b
  | _, .number x => x
  | _, .text t => Number.parse t
  | n + 1, .list l => match s.lists.get l with
    | v :: _ => s.toNumberUpTo n v
    | [] => notANumber
  | n + 1, .cell c => s.toNumberUpTo n (s.cells.get c)
  | _, _ => notANumber

/-- The number of a value. -/
def toNumber (s : Store) (v : Value) : Float := s.toNumberUpTo s.objectCount v

/-- The text of a value inside at most `n` lists and cells. -/
def toTextUpTo (s : Store) : Nat → Value → String
  | _, .null => ""
  | _, .bool b => boolText b
  | _, .number x => Number.text x
  | _, .text t => t
  | _, .foreign f => "<" ++ (s.foreigns.get f).kind ++ ">"
  | n + 1, .list l => match s.lists.get l with
    | v :: _ => s.toTextUpTo n v
    | [] => ""
  | n + 1, .cell c => s.toTextUpTo n (s.cells.get c)
  | _, v => s.jsonText v

/-- The text of a value. -/
def toText (s : Store) (v : Value) : String := s.toTextUpTo s.objectCount v

end Store

/-! ## Conversion to an asked type -/

/-- A type a caller may ask for. -/
inductive Target where
  | text | number | integer | boolean | list | map | vector | value
deriving DecidableEq

/-- The name of a type in messages. -/
def Target.name : Target → String
  | .text => "string"
  | .number => "number"
  | .integer => "integer"
  | .boolean => "boolean"
  | .list => "list"
  | .map => "map"
  | .vector => "vector"
  | .value => "value"

/-- A value of an asked type. -/
inductive Converted where
  | text (s : String)
  | number (x : Float)
  | integer (n : Int)
  | boolean (b : Bool)
  | items (vs : List Value)
  | value (v : Value)

/-- The number that a boolean, number or text is. -/
def Value.asNumber? : Value → Option Float
  | .number x => some x
  | .bool b => some (boolNumber b)
  | .text t =>
    let x := Number.parse t
    if x.isNaN then none else some x
  | _ => none

/-- The truth value that a boolean or number is, or that a text names. -/
def Value.asBool? : Value → Option Bool
  | .bool b => some b
  | .number x => some (numberTruth x)
  | .text t =>
    let name := t.toList.map Char.toLower
    if name == "true".toList then some true
    else if name == "false".toList then some false
    else none
  | _ => none

/-- The integer that a number is, if 64 bits hold it. -/
def asInteger? (x : Float) : Option Int :=
  (Number.exactInt? x).bind fun n => if n.natAbs < Nat.pow 2 63 then some n else none

/-- The value as the asked type, if it has one. -/
def convert? (s : Store) : Target → Value → Option Converted
  | .text, v => if v.isScalar then some (.text (s.toText v)) else none
  | .number, v => v.asNumber?.map .number
  | .integer, v => (v.asNumber?.bind asInteger?).map .integer
  | .boolean, v => v.asBool?.map .boolean
  | .list, v => match v with
    | .list _ => some (.value v)
    | _ => none
  | .map, v => match v with
    | .map _ => some (.value v)
    | _ => none
  | .vector, v => match v with
    | .list l => some (.items (s.lists.get l))
    | v => if v.isScalar then some (.items [v]) else none
  | .value, v => some (.value v)

end PathQuery
