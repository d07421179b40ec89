/-!
# Values

A value of an object graph is a scalar or the number of an object in a store. Two values with the
same number are one object: whoever holds the number sees every change.

* names: `Value`, `Value.isNull`, `Value.isScalar`, `Value.same`.
* **`Value.same`** is identity for objects and equality for scalars; not-a-number is the same as
  itself, and both zeros are the same.
-/

namespace PathQuery

/-- A scalar, or the number of an object. -/
inductive Value where
  | null
  | bool (b : Bool)
  | number (x : Float)
  | text (s : String)
  /-- An ordered collection. -/
  | list (id : Nat)
  /-- An open map: any name may be read, written or added. -/
  | map (id : Nat)
  /-- An object with a declared set of properties. -/
  | bean (id : Nat)
  /-- A holder of one value that navigation looks through. -/
  | cell (id : Nat)
  /-- A value only its own pointer factory understands. -/
  | foreign (id : Nat)
deriving DecidableEq, Inhabited

namespace Value

/-- The value is absent. -/
def isNull : Value → Bool
  | null => true
  | _ => false

/-- The value is a boolean, number or text. -/
def isScalar : Value → Bool
  | bool _ | number _ | text _ => true
  | _ => false

/-- Identity for objects, equality for scalars. -/
def same : Value → Value → Bool
  | number x, number y => x == y || (x.isNaN && y.isNaN)
  | v, w => v == w

end Value

end PathQuery
