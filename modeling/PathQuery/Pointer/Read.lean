import PathQuery.Registry

/-!
# Reading through a pointer

What a pointer shows in a store: the value of its node, the value at the end of its chain of value
pointers, whether it exists, and its path as text.

* names: `base`, `immediate`, `length`, `isCollection`, `isLeaf`, `isActual`, `position?`, `path`;
  `origin`, `settledRoot?`, `atIndex?`, `elements`; `next?`, `valuePointer`, `value`.
* The *value pointer* of a link is the pointer that a registry makes for the value in it; a chain
  of cells is followed to its end.
-/

namespace PathQuery

namespace Node

variable (s : Store)

/-- The value a node names, before any index. -/
def base : Node → Value
  | slot holder name _ _ => s.slot holder name.text
  | missing .. => .null
  | var scope name _ => ((s.scopes.get scope).get? name.text).getD .null
  | items list _ _ => .list list
  | map id _ => .map id
  | bean id _ => .bean id
  | cell id _ => s.cells.get id
  | leaf value _ => value
  | null _ => .null
  | element foreign _ _ => .foreign foreign
  | markupText _ text _ _ => .text text

/-- The value at a node's index. -/
def immediate : Node → Value
  | node@(element foreign _ _) =>
    match (s.foreigns.get foreign).element.bind Element.text with
    | some text => .text text
    | none => node.base s
  | items list _ index =>
    match index, index.place? with
    | .whole, _ => .list list
    | _, none => .null
    | _, some i => ((s.lists.get list)[i]?).getD .null
  | node => s.select (node.base s) node.index

/-- The node names a collection. -/
def isCollection : Node → Bool
  | node@(slot ..) | node@(var ..) => (s.items? (node.base s)).isSome
  | items .. => true
  | _ => false

/-- The number of elements that a node names. -/
def length : Node → Nat
  | node@(slot ..) =>
    match s.unwrap (node.base s) with
    | .list l => (s.lists.get l).length
    | .null => 0
    | _ => 1
  | node@(var ..) => ((s.items? (node.base s)).map List.length).getD 1
  | items list _ _ => (s.lists.get list).length
  | missing .. | null _ => 0
  | _ => 1

/-- The node shows a scalar or nothing. -/
def isLeaf : Node → Bool
  | missing .. | null _ | leaf .. => true
  | map .. | bean .. => false
  | node => (node.immediate s).isScalar

/-- The index is the whole or that of an element that exists. -/
def inRange (node : Node) : Bool :=
  match node.index with
  | .whole => true
  | .element i => 0 ≤ i && i < node.length s

/-- The node exists. -/
def isActual : Node → Bool
  | missing .. => false
  | node@(var scope name _) => (s.scopes.get scope).has name.text && node.inRange s
  | node => node.inRange s

/-- The place of a node among the slots of its owner. -/
def position? : Node → Option Nat
  | slot holder name _ _ => (s.slots holder).position? name.text
  | element _ _ position | markupText _ _ position _ => some position
  | _ => none

/-- The text with a slash at its end. -/
def slashed (path : String) : String := if path.endsWith "/" then path else path ++ "/"

/-- The name of an attribute or child as it stands in a path. -/
def label (name : QName) (isAttribute : Bool) : String :=
  if isAttribute then "@" ++ name.text else name.text

/-- The path of a node below a parent with the given path, which is empty above a root. Values at
the end of a link add nothing to its path. -/
def pathBelow (path : String) : Node → String
  | node@(slot _ name index isAttribute) =>
    slashed path ++ label name isAttribute ++ if node.isCollection s then index.text else ""
  | missing name index isAttribute => slashed path ++ label name isAttribute ++ index.text
  | node@(var _ name index) =>
    "$" ++ name.text ++ if node.isCollection s then index.text else ""
  | items _ _ index =>
    let start := if path.isEmpty then "/" else path
    match index with
    | .whole => start
    | index => (if start.endsWith "/" then start ++ "." else start) ++ index.text
  | element _ name _ => slashed path ++ label name false
  | markupText name _ _ isAttribute => slashed path ++ label name isAttribute
  | _ => if path.isEmpty then "/" else path

end Node

namespace Pointer

variable (s : Store)

/-- The value a pointer names, before any index. -/
def base (p : Pointer) : Value := p.node.base s

/-- The value at a pointer's index. -/
def immediate (p : Pointer) : Value := p.node.immediate s

/-- The path of a pointer from its root, such as `/orders[2]/@id`. -/
def path (p : Pointer) : String := p.nodes.foldr (fun node path => node.pathBelow s path) ""

/-- The value that the root of a pointer's chain names. -/
def origin (p : Pointer) : Value := p.root.base s

/-- The path of the root of a pointer's chain. -/
def rootPath (p : Pointer) : String := p.root.pathBelow s ""

/-- The whole of a collection. -/
def isWholeCollection (p : Pointer) : Bool := p.node.index == .whole && p.node.isCollection s

/-- The value at the root of a pointer's chain, if it was settled. -/
def settledRoot? (p : Pointer) : Option Value := p.visit.settled <|> s.roots.lookup p

/-- The pointer moved to another index of the same collection. What it has settled about its root
stays settled. -/
def atIndex? (p : Pointer) (index : Index) : Option Pointer :=
  (p.node.atIndex? index).map fun node =>
    { p with visit := { node, occasion := s.now, settled := p.settledRoot? s } }

/-- The elements of a whole collection; any other pointer stands for itself. -/
def elements (p : Pointer) : List Pointer :=
  if p.isWholeCollection s then
    (List.range (p.node.length s)).filterMap fun (i : Nat) => p.atIndex? s (.element i)
  else [p]

/-! ## Value pointers -/

variable (r : Registry)

/-- The pointer to the value in a link; a value is at the end already. -/
def next? (p : Pointer) : Except PathError (Option Pointer) :=
  let follow := do
    pure (some (← r.create s p.node.name? (p.immediate s) p.locale p.chain))
  match p.node with
  | .slot .. | .var .. | .cell .. => follow
  | .items _ _ index => if index = .whole then .ok none else follow
  | _ => .ok none

/-- The end of a chain of fewer than `n` values; none if it is longer. -/
def valuePointerUpTo : Nat → Pointer → Except PathError (Option Pointer)
  | 0, _ => .ok none
  | n + 1, p => do
    match ← p.next? s r with
    | none => pure (some p)
    | some q => q.valuePointerUpTo n

/-- The pointer to the value at the end of a link. -/
def valuePointer (p : Pointer) : Except PathError Pointer := do
  match ← p.valuePointerUpTo s r Store.maxIndirections with
  | some q => pure q
  | none => throw (.tooIndirect (p.path s))

/-- The value at the end of a link. -/
def value (p : Pointer) : Except PathError Value := do
  pure ((← p.valuePointer s r).immediate s)

end Pointer

end PathQuery
