import PathQuery.Store

/-!
# Equality by content

Two lists, maps or cells are equal if they are one object or have equal contents, maps in the same
order; beans and foreign values are equal only to themselves.

* names: `Store.equal`.
-/

namespace PathQuery

namespace Store

/-- The lists have the same length and equal items. -/
def equalItems (eq : Value → Value → Bool) : List Value → List Value → Bool
  | [], [] => true
  | v :: vs, w :: ws => eq v w && equalItems eq vs ws
  | _, _ => false

/-- The values are equal, looked at to a depth of `n` nested objects. -/
def equalUpTo (s : Store) : Nat → Value → Value → Bool
  | n + 1, .list a, .list b => a == b || equalItems (s.equalUpTo n) (s.lists.get a) (s.lists.get b)
  | n + 1, .map a, .map b =>
    a == b ||
      ((s.maps.get a).keys == (s.maps.get b).keys &&
        equalItems (s.equalUpTo n) ((s.maps.get a).entries.map (·.2))
          ((s.maps.get b).entries.map (·.2)))
  | n + 1, .cell a, .cell b => a == b || s.equalUpTo n (s.cells.get a) (s.cells.get b)
  | _, .number x, .number y => x == y
  | _, v, w => v.same w

/-- The values are equal by content. -/
def equal (s : Store) (v w : Value) : Bool := s.equalUpTo (s.objectCount + 1) v w

end Store

end PathQuery
