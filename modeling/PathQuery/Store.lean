import PathQuery.Pointer.Basic
import PathQuery.Pool
import PathQuery.Table
import PathQuery.Template

/-!
# The store

The objects of a graph and the variable scopes, each kind in its own pool, so that a write to an
object of one kind leaves every object of the other kinds as it was. Beside them a store keeps the
time, by which pointers are told apart, and what pointers have settled about their roots.

* names: `Bean`, `Bean.assign`, `BeanFault`, `Element`, `Foreign`, `Store`, `Store.on`,
  `Store.tick`, `Store.unwrap`, `Store.kind`, `Store.objectCount`; `add…` makes an object, `set…`
  writes one.
-/

namespace PathQuery

/-! ## Beans -/

/-- Why a property was not assigned. -/
inductive BeanFault where
  | unknown (type property : String)
  | readOnly (type property : String)
  | rejected (property kind reason : String)
deriving DecidableEq

/-- The text of a fault. -/
def BeanFault.message : BeanFault → String
  | unknown type property => s!"no property '{property}' on {type}"
  | readOnly type property => s!"property '{property}' on {type} is read-only"
  | rejected property kind reason => s!"cannot assign {kind} to property '{property}': {reason}"

/-- An object with declared properties. -/
structure Bean where
  type : String := ""
  properties : Table Value := .empty
  /-- What a fresh value of a property is made from. -/
  makers : Table Template := .empty
  readOnly : List String := []
  /-- Properties that take values of one kind only. -/
  typed : List (String × String) := []

instance : Inhabited Bean := ⟨{}⟩

/-- The bean with a property set to a value of the given kind. A read-only property is refused
first, then a value of the wrong kind, then a property that was not declared. -/
def Bean.assign (b : Bean) (name kind : String) (v : Value) : Except BeanFault Bean :=
  if b.readOnly.contains name then .error (.readOnly b.type name)
  else
    match b.typed.find? fun (p, k) => p == name && k != kind with
    | some (_, k) => .error (.rejected name kind s!"expected {k}")
    | none =>
      if b.properties.has name then .ok { b with properties := b.properties.insert name v }
      else .error (.unknown b.type name)

/-! ## Foreign values -/

/-- A node of a markup tree; its children are the numbers of foreign values. -/
structure Element where
  name : QName
  bindings : List (String × String)
  defaultUri : Option String
  attributes : List (QName × String)
  text : Option String
  children : List Nat

/-- A foreign value: its kind and, for markup, its node. -/
structure Foreign where
  kind : String := ""
  element : Option Element := none

instance : Inhabited Foreign := ⟨{}⟩

/-! ## Stores -/

/-- The objects of a graph, the variable scopes and the book-keeping of pointers. -/
structure Store where
  lists : Pool (List Value) := {}
  maps : Pool (Table Value) := {}
  beans : Pool Bean := {}
  cells : Pool Value := {}
  foreigns : Pool Foreign := {}
  scopes : Pool (Table Value) := {}
  /-- The occasion on which the store is looked at; what is found in it is found then. -/
  now : Occasion := {}
  /-- The values at the roots of the pointers that were asked for them. -/
  roots : List (Pointer × Value) := []

instance : Inhabited Store := ⟨{}⟩

namespace Store

/-- The store as it is on another occasion. -/
def on (s : Store) (o : Occasion) : Store := { s with now := o }

/-- The store at the start of the next action. -/
def tick (s : Store) : Store := s.on { clock := s.now.clock + 1 }

/-- How many wrappers are looked through before a graph counts as malformed. -/
def maxIndirections : Nat := 1024

/-- The value inside at most `n` cells. -/
def unwrapUpTo (s : Store) : Nat → Value → Value
  | n + 1, .cell c => s.unwrapUpTo n (s.cells.get c)
  | _, v => v

/-- The value inside any number of cells. -/
def unwrap (s : Store) (v : Value) : Value := s.unwrapUpTo maxIndirections v

/-- The name of a value's kind, for diagnostics. -/
def kind (s : Store) : Value → String
  | .null => "null"
  | .bool _ => "boolean"
  | .number _ => "number"
  | .text _ => "string"
  | .list _ => "list"
  | .map _ => "map"
  | .bean b => "bean " ++ (s.beans.get b).type
  | .cell _ => "cell"
  | .foreign f => (s.foreigns.get f).kind

/-- The number of objects. A walk that meets no object twice is no longer. -/
def objectCount (s : Store) : Nat :=
  s.lists.size + s.maps.size + s.beans.size + s.cells.size + s.foreigns.size

/-- The number of a new list. -/
def addList (s : Store) (items : List Value) : Nat × Store :=
  let (id, lists) := s.lists.add items
  (id, { s with lists })

/-- The number of a new map. -/
def addMap (s : Store) (entries : Table Value) : Nat × Store :=
  let (id, maps) := s.maps.add entries
  (id, { s with maps })

/-- The number of a new bean. -/
def addBean (s : Store) (bean : Bean) : Nat × Store :=
  let (id, beans) := s.beans.add bean
  (id, { s with beans })

/-- The number of a new cell. -/
def addCell (s : Store) (content : Value) : Nat × Store :=
  let (id, cells) := s.cells.add content
  (id, { s with cells })

/-- The number of a new foreign value. -/
def addForeign (s : Store) (foreign : Foreign) : Nat × Store :=
  let (id, foreigns) := s.foreigns.add foreign
  (id, { s with foreigns })

/-- The number of a new variable scope. -/
def addScope (s : Store) (scope : Table Value) : Nat × Store :=
  let (id, scopes) := s.scopes.add scope
  (id, { s with scopes })

/-- The store with other items in a list. -/
def setList (s : Store) (id : Nat) (items : List Value) : Store :=
  { s with lists := s.lists.set id items }

/-- The store with other entries in a map. -/
def setMap (s : Store) (id : Nat) (entries : Table Value) : Store :=
  { s with maps := s.maps.set id entries }

/-- The store with another state of a bean. -/
def setBean (s : Store) (id : Nat) (bean : Bean) : Store :=
  { s with beans := s.beans.set id bean }

/-- The store with another value in a cell. -/
def setCell (s : Store) (id : Nat) (content : Value) : Store :=
  { s with cells := s.cells.set id content }

/-- The store with other bindings in a variable scope. -/
def setScope (s : Store) (id : Nat) (scope : Table Value) : Store :=
  { s with scopes := s.scopes.set id scope }

end Store

end PathQuery
