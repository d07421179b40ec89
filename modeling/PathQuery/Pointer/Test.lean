import PathQuery.Pointer.Navigate
import PathQuery.Syntax.Expr

/-!
# Node tests

Which nodes a step selects among its candidates.

* names: `Pointer.passes`.
* Names with different qualifiers match if the qualifiers stand for the same namespace at the node,
  or both for none.
-/

namespace PathQuery

namespace Pointer

variable (s : Store)

/-- The qualifier of a test and that of a node mean the same namespace at the node. -/
def sameNamespace (p : Pointer) (test name : QName) : Bool :=
  test.qualifier == name.qualifier ||
    let testUri := test.qualifier.bind (p.uri? s)
    let nodeUri := match name.qualifier with
      | some qualifier => p.uri? s qualifier
      | none => p.defaultUri? s
    testUri == nodeUri

/-- The node passes a test. Nothing here is text, a comment or an instruction. -/
def passes (p : Pointer) : NodeTest → Bool
  | .name test =>
    match p.node.name? with
    | some name =>
      !p.node.isContainer && p.sameNamespace s test name &&
        (test.isWildcard || test.name == name.name)
    | none => false
  | .type .node => !p.node.isContainer
  | .type _ | .target _ => false

end Pointer

end PathQuery
