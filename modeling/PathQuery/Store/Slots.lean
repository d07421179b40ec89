import PathQuery.Store

/-!
# Slots and items

What the objects of a store hold: the values in the slots of maps and beans, and the items of lists.

* names: `Store.slots`, `Store.slot`, `Store.items?`, `Store.select`.
* Any value counts as a list of itself where one element is asked for.
-/

namespace PathQuery

namespace Store

/-- The slots of an object. -/
def slots (s : Store) : Holder → Table Value
  | .map id => s.maps.get id
  | .bean id => (s.beans.get id).properties

/-- The value in a slot, null if there is no such slot. -/
def slot (s : Store) (h : Holder) (name : String) : Value := ((s.slots h).get? name).getD .null

/-- The items of a list, however many cells it is wrapped in. -/
def items? (s : Store) (v : Value) : Option (List Value) :=
  match s.unwrap v with
  | .list l => some (s.lists.get l)
  | _ => none

/-- What an index selects of a value. A value that is no list counts as its own first element. -/
def select (s : Store) (v : Value) (index : Index) : Value :=
  match index, index.place? with
  | .whole, _ => v
  | _, none => .null
  | _, some i =>
    match s.items? v with
    | some items => (items[i]?).getD .null
    | none => if i = 0 then v else .null

end Store

end PathQuery
