import PathQuery.QName
import PathQuery.Value

/-!
# Nodes

The places of a graph that an expression can select.

* names: `Index`, `Holder`, `Node`; `kind`, `name?`, `index`, `isAttribute`, `isContainer`,
  `atIndex?`.
* A node is either a *link* (a slot of a map or bean, a variable, one item of a list) or the
  *value* at the end of a link.
-/

namespace PathQuery

/-! ## Indices -/

/-- A whole collection, or one of its elements counted from zero. An element need not exist. -/
inductive Index where
  | whole
  | element (i : Int)
deriving DecidableEq, Inhabited

namespace Index

/-- The place in a list, unless the index is negative or the whole. -/
def place? : Index → Option Nat
  | whole => none
  | element i => if 0 ≤ i then some i.toNat else none

/-- The whole comes before its elements. -/
def compare : Index → Index → Ordering
  | whole, whole => .eq
  | whole, element _ => .lt
  | element _, whole => .gt
  | element i, element j => Ord.compare i j

/-- The number of an element, counted from one, in brackets. -/
def text : Index → String
  | whole => ""
  | element i => "[" ++ toString (i + 1) ++ "]"

end Index

/-! ## Slots -/

/-- An object with named slots. -/
inductive Holder where
  | map (id : Nat)
  | bean (id : Nat)
deriving DecidableEq, Inhabited

/-- The object as a value. -/
def Holder.value : Holder → Value
  | map id => .map id
  | bean id => .bean id

/-! ## Nodes -/

/-- A link of a chain. -/
inductive Node where
  /-- A slot of an object, or one element of the list in it. -/
  | slot (holder : Holder) (name : QName) (index : Index) (isAttribute : Bool)
  /-- A slot that did not exist when the pointer was made. -/
  | missing (name : QName) (index : Index) (isAttribute : Bool)
  /-- A variable of a scope, or one element of the list in it. -/
  | var (scope : Nat) (name : QName) (index : Index)
  /-- A list that is no slot's own value, or one of its items. -/
  | items (list : Nat) (name : Option QName) (index : Index)
  | map (id : Nat) (name : Option QName)
  | bean (id : Nat) (name : Option QName)
  /-- A cell; navigation looks through it. -/
  | cell (id : Nat) (name : Option QName)
  | leaf (value : Value) (name : Option QName)
  | null (name : Option QName)
  /-- A markup element, with its place among its siblings. -/
  | element (foreign : Nat) (name : QName) (position : Nat)
  /-- An attribute or a namespace binding of a markup element. -/
  | markupText (name : QName) (text : String) (position : Nat) (isAttribute : Bool)
deriving DecidableEq

instance : Inhabited Node := ⟨.null none⟩

namespace Node

/-- The kind of a node, in messages. -/
def kind : Node → String
  | slot .. => "property"
  | missing .. => "null-property"
  | var .. => "variable"
  | items .. => "collection"
  | map .. => "map"
  | bean .. => "bean"
  | cell .. => "container"
  | leaf .. => "leaf"
  | null .. => "null"
  | element .. | markupText .. => "element"

/-- The name of a node. -/
def name? : Node → Option QName
  | slot _ name _ _ | missing name _ _ | var _ name _ => some name
  | items _ name _ | map _ name | bean _ name | cell _ name | leaf _ name | null name => name
  | element _ name _ | markupText name _ _ _ => some name

/-- The index of a node; only links to collections have one. -/
def index : Node → Index
  | slot _ _ index _ | missing _ index _ | var _ _ index | items _ _ index => index
  | _ => .whole

/-- The node is an attribute of its parent. -/
def isAttribute : Node → Bool
  | slot _ _ _ isAttribute | missing _ _ isAttribute | markupText _ _ _ isAttribute => isAttribute
  | _ => false

/-- No test selects the node; tests look at what is in it. -/
def isContainer : Node → Bool
  | var .. | cell .. => true
  | _ => false

/-- The node at another index of the same collection. -/
def atIndex? (index : Index) : Node → Option Node
  | slot holder name _ isAttribute => some (slot holder name index isAttribute)
  | missing name _ isAttribute => some (missing name index isAttribute)
  | var scope name _ => some (var scope name index)
  | items list name _ => some (items list name index)
  | _ => none

end Node

end PathQuery
