import PathQuery.Pointer.Read
import PathQuery.Store.Shown

/-!
# Pointers in diagnostics

A pointer is shown by the name of its type and its path.

* names: `Node.typeName`, `Pointer.shown`.
-/

namespace PathQuery

/-- The type of pointer to a node. -/
def Node.typeName : Node → String
  | slot .. => "PropertyPointer"
  | missing .. => "NullPropertyPointer"
  | var .. => "VariablePointer"
  | items .. => "CollectionPointer"
  | map .. => "MapPointer"
  | bean .. => "BeanPointer"
  | cell .. => "ContainerPointer"
  | leaf .. => "LeafPointer"
  | null .. => "NullPointer"
  | element .. | markupText .. => "Element"

/-- A pointer as it is shown: its type and path. -/
def Pointer.shown (s : Store) (p : Pointer) : String := p.node.typeName ++ "(" ++ p.path s ++ ")"

end PathQuery
