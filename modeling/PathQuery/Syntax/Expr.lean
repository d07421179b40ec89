import PathQuery.QName

/-!
# Expressions

The syntax trees of path expressions.

* names: `BinaryOp`, `Axis`, `NodeTest`, `Expr`, `Start`, `Step`.
* `Expr.dependsOnContext`: the value may depend on the context node, position or size.
* `Step.isSimple`, `simplePath?`: paths that lead from slot to slot and can therefore be created.
-/

namespace PathQuery

/-- A binary operator. -/
inductive BinaryOp where
  | or | and
  | equal | notEqual
  | less | lessEqual | greater | greaterEqual
  | add | subtract
  | multiply | divide | modulo
  | union
deriving DecidableEq, Inhabited

/-- The direction of a step. -/
inductive Axis where
  | child | descendant | descendantOrSelf | attribute | namespace | parent | ancestor
  | ancestorOrSelf | self | followingSibling | precedingSibling | following | preceding
deriving DecidableEq, Inhabited

namespace Axis

/-- The written name of an axis. -/
def text : Axis → String
  | .child => "child"
  | .descendant => "descendant"
  | .descendantOrSelf => "descendant-or-self"
  | .attribute => "attribute"
  | .namespace => "namespace"
  | .parent => "parent"
  | .ancestor => "ancestor"
  | .ancestorOrSelf => "ancestor-or-self"
  | .self => "self"
  | .followingSibling => "following-sibling"
  | .precedingSibling => "preceding-sibling"
  | .following => "following"
  | .preceding => "preceding"

/-- The candidates are numbered from the context node outwards. -/
def isReverse : Axis → Bool
  | .parent | .ancestor | .ancestorOrSelf | .precedingSibling | .preceding => true
  | _ => false

/-- The candidates of two different nodes may overlap. -/
def overlaps : Axis → Bool
  | .child | .attribute | .self | .namespace => false
  | _ => true

end Axis

/-- A test by node type. -/
inductive NodeType where
  | text | node | comment | instruction
deriving DecidableEq, Inhabited

/-- Which nodes of an axis a step selects. -/
inductive NodeTest where
  | name (q : QName)
  | type (t : NodeType)
  /-- A processing instruction with the given target. -/
  | target (s : String)
deriving DecidableEq, Inhabited

mutual

/-- An expression. -/
inductive Expr where
  | literal (s : String)
  | number (x : Float)
  | variable (q : QName)
  | call (f : QName) (args : List Expr)
  /-- A primary expression narrowed by predicates. -/
  | filter (base : Expr) (predicates : List Expr)
  | binary (op : BinaryOp) (left right : Expr)
  | negate (e : Expr)
  | path (start : Start) (steps : List Step)

/-- Where a location path starts. -/
inductive Start where
  /-- The context node. -/
  | here
  /-- The root of the graph. -/
  | root
  /-- The nodes of an expression. -/
  | value (e : Expr)

/-- A step of a location path. -/
inductive Step where
  | mk (axis : Axis) (test : NodeTest) (predicates : List Expr)

end

instance : Inhabited Expr := ⟨.literal ""⟩
instance : Inhabited Start := ⟨.here⟩
instance : Inhabited Step := ⟨.mk .child default []⟩

namespace Step

/-- The direction of the step. -/
def axis : Step → Axis
  | mk axis _ _ => axis

/-- The node test of the step. -/
def test : Step → NodeTest
  | mk _ test _ => test

/-- The predicates of the step, in order. -/
def predicates : Step → List Expr
  | mk _ _ predicates => predicates

/-- The step that a double slash stands for. -/
def descendants : Step := mk .descendantOrSelf (.type .node) []

end Step

/-! ## Context dependence -/

/-- Functions that read the context node when they have no argument. -/
def contextFunctions : List String :=
  ["local-name", "name", "namespace-uri", "string", "string-length", "normalize-space", "number"]

/-- A function of this name with so many arguments reads the context. -/
def readsContext (f : QName) (args : Nat) : Bool :=
  f.qualifier.isNone &&
    (["position", "last", "lang"].contains f.name ||
      (args == 0 && contextFunctions.contains f.name))

mutual

/-- The value of the expression may depend on the context node, position or size. The predicates of
a filter and the steps of a path have contexts of their own; only the steps of a path that starts
from an expression are looked at. -/
def Expr.dependsOnContext : Expr → Bool
  | .literal _ | .number _ | .variable _ => false
  | .call f args => readsContext f args.length || Expr.anyDependsOnContext args
  | .filter base _ => base.dependsOnContext
  | .binary _ left right => left.dependsOnContext || right.dependsOnContext
  | .negate e => e.dependsOnContext
  | .path (.value e) steps => e.dependsOnContext || Step.anyDependsOnContext steps
  | .path _ _ => true

/-- One of the expressions depends on the context. -/
def Expr.anyDependsOnContext : List Expr → Bool
  | [] => false
  | e :: es => e.dependsOnContext || Expr.anyDependsOnContext es

/-- A predicate of one of the steps depends on the context. -/
def Step.anyDependsOnContext : List Step → Bool
  | [] => false
  | .mk _ _ predicates :: steps =>
    Expr.anyDependsOnContext predicates || Step.anyDependsOnContext steps

end

/-! ## Simple paths -/

/-- The step selects a named child or attribute, with at most one predicate, whose value does not
depend on the context. -/
def Step.isSimple : Step → Bool
  | mk axis (.name q) predicates =>
    (axis == .child || axis == .attribute) && !q.isWildcard && predicates.length ≤ 1 &&
      !Expr.anyDependsOnContext predicates
  | _ => false

/-- One slot of a simple path: a named child or attribute, with an optional index expression. -/
structure SimpleStep where
  name : QName
  isAttribute : Bool
  index : Option Expr

/-- The slot that a simple step names. -/
def Step.simple? : Step → Option SimpleStep
  | s@(mk axis (.name q) predicates) =>
    if s.isSimple then some ⟨q, axis == .attribute, predicates.head?⟩ else none
  | _ => none

/-- The slots of a path all of whose steps are simple and that starts from no expression; with
`true` if it starts at the root. -/
def simplePath? (start : Start) (steps : List Step) : Option (Bool × List SimpleStep) :=
  match start with
  | .value _ => none
  | .root => (steps.mapM Step.simple?).map (true, ·)
  | .here => (steps.mapM Step.simple?).map (false, ·)

end PathQuery
