import PathQuery.Store.Slots
import PathQuery.Syntax.Fault

/-!
# Errors

Everything that can go wrong when a path is compiled, read or written, and how it is put in words.

* names: `Refusal`, `CallFault`, `PathError`; `message` gives the words.
-/

namespace PathQuery

/-- Why a node cannot be changed. Paths are those of the node concerned. -/
inductive Refusal where
  | outOfBounds (number : Int) (path : String)
  | setOutsideCollection (path kind : String)
  | createOutsideCollection (path : String)
  | nullTarget (path : String)
  | unchangeable (path : String)
  | replaceRoot (thing : String)
  | removeRoot (thing : String)
  | setNullRoot
  | modifyStandalone (kind : String)
  | removeStandalone (kind : String)
  | noChild (path : String) (name : QName) (number : Int)
  | noAttribute (path : String) (name : QName)
  | noRemoval (path : String)
  | readOnlyElement
  /-- The expression in the source text has a value, but no node. -/
  | noNode (source : String)
deriving DecidableEq

/-- The words of a refusal. -/
def Refusal.message : Refusal → String
  | outOfBounds number path => s!"Index {number} is out of bounds for {path}"
  | setOutsideCollection path kind => s!"Cannot set {path}: the {kind} is not a collection"
  | createOutsideCollection path => s!"Cannot create {path}: the property is not a collection"
  | nullTarget path => s!"Cannot set property {path}, the target object is null"
  | unchangeable path =>
    s!"Cannot set property {path}, path does not match a changeable location"
  | replaceRoot thing => s!"Cannot replace the root {thing}"
  | removeRoot thing => s!"Cannot remove the root {thing}"
  | setNullRoot => "Cannot set the value of a null root"
  | modifyStandalone kind => s!"Cannot modify a standalone {kind}"
  | removeStandalone kind => s!"Cannot remove a standalone {kind}"
  | noChild path name number =>
    "Cannot create an object for path " ++ path ++ "/" ++ name.text ++ "[" ++ toString number ++
      "], operation is not allowed for this type of node"
  | noAttribute path name =>
    "Cannot create an attribute for path " ++ path ++ "/@" ++ name.text ++
      ", operation is not allowed for this type of node"
  | noRemoval path => s!"Cannot remove {path}"
  | readOnlyElement => "elements are read-only"
  | noNode source => s!"Cannot set value for xpath: {source}"

/-- Why a function gives no value. -/
inductive CallFault where
  | arity (least most given : Nat)
  | tooFew (least : Nat)
  /-- The argument, as it is shown, has no nodes. -/
  | noNodes (shown : String)
  | failed (reason : String)
deriving DecidableEq

/-- The words of a fault. -/
def CallFault.message : CallFault → String
  | arity least most given =>
    if least = most then s!"Expected {least} argument(s), got {given}"
    else s!"Expected {least} to {most} arguments, got {given}"
  | tooFew least => s!"Expected at least {least} arguments"
  | noNodes shown => s!"argument must be a node-set, got {shown}"
  | failed reason => reason

/-- A failure to compile, read or write a path. -/
inductive PathError where
  | malformed (e : SyntaxError)
  /-- No pointer factory covers a value of this kind. -/
  | unresolvable (kind : String)
  | notFound (path : String)
  | noConversion (kind target : String)
  | unknownFunction (name : String)
  /-- Only simple paths and variables can be created. -/
  | notCreatable (path : String)
  /-- A pointer of the given kind refuses a change. -/
  | refused (kind : String) (why : Refusal)
  /-- The value at the path hides behind too many wrappers. -/
  | tooIndirect (path : String)
  | incomparable (left right : String)
  | undeclared (variableName : String)
  | call (function : String) (fault : CallFault)
  | bean (type : String) (fault : BeanFault)
  /-- A context needs a node that exists. -/
  | noContext (path : String)
deriving DecidableEq

/-- The words of an error. -/
def PathError.message : PathError → String
  | malformed e => e.message
  | unresolvable kind => s!"No pointer factory can handle a value of kind '{kind}'"
  | notFound path => s!"No value for path: {path}"
  | noConversion kind target => s!"Cannot convert {kind} to {target}"
  | unknownFunction name => s!"Undefined function: {name}"
  | notCreatable path =>
    s!"Invalid path for creation: '{path}'. Only simple child and attribute paths without " ++
      "context-dependent predicates can be created"
  | refused _ why => why.message
  | tooIndirect path =>
    s!"Pointer invariant violated: value of '{path}' did not resolve within 1024 indirections"
  | incomparable left right =>
    s!"Cannot compare pointers that do not belong to the same tree: '{left}' and '{right}'"
  | undeclared variableName => s!"Undefined variable: {variableName}"
  | call function fault => s!"Function '{function}' error: {fault.message}"
  | bean type fault => s!"{type}: {fault.message}"
  | noContext path => s!"Cannot create a relative context for a non-existent node: {path}"

end PathQuery
