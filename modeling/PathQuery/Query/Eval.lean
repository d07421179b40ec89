import PathQuery.Pointer.Test
import PathQuery.Query.Axis
import PathQuery.Query.Environment
import PathQuery.Query.Operator

/-!
# Evaluation

The value of an expression at a node.

* names: `Outcome`, `Environment.compute`, `Environment.evaluate`, `Environment.narrow`,
  `Environment.advance`, `Environment.walk`.
* A location path gives a search that may fail late; everything else fails at once.
* **Steps are taken node by node**: a step searches from each node before it in turn, when a node is
  asked for.
* Predicates only ask: what functions make for them is gone when they have answered.
* Every part of an expression is an occasion of its own, so two parts that come to one node find it
  twice.
-/

namespace PathQuery

/-- The value of an expression before nodes are pulled. -/
inductive Outcome where
  | answer (a : Answer)
  | nodes (n : Search)

/-- The outcome of an answer: nodes become a search. -/
def Outcome.ofAnswer : Answer → Outcome
  | .nodes items => nodes (.ofList items)
  | a => answer a

/-- The answer of an outcome, if its nodes can all be pulled. -/
def Outcome.all : Outcome → Except PathError Answer
  | answer a => .ok a
  | nodes n => n.all.map .nodes

namespace Environment

variable (r : Registry) (env : Environment)

/-- The nodes of an outcome; a value without nodes becomes the root of a graph of its own. -/
def traverse (o : Occasion) (outcome : Outcome) : Action Search :=
  match outcome with
  | .nodes n => pure n
  | .answer a => Action.read fun s => do
    let v ← a.toValue s r
    pure (.ofList [← r.root (s.on o) v env.locale])

/-- All nodes of an outcome. -/
def collect (o : Occasion) (outcome : Outcome) : Action (List Pointer) := do
  let n ← env.traverse r o outcome
  Action.read fun _ => n.all

/-- An answer keeps a node: a number keeps the node at that place, any other answer keeps nodes if
it is true. -/
def keeps (s : Store) (focus : Focus) : Answer → Bool
  | .number x => x == Number.ofNat focus.position
  | a => a.toBool s

/-- The search of a step: what `f` finds from the nodes before it. Axes whose candidates may overlap
read one node ahead, and if there are two keep the first pointer of every path. -/
def advance (s : Store) (axis : Axis) (f : Pointer → Search) (start : Search) : Search :=
  if axis.overlaps then
    match start with
    | .ended => .ended
    | .broken e => .broken e
    | .found p more =>
      match more () with
      | .ended => f p
      | .broken e => .broken e
      | .found q rest => (Search.gather f (.found p fun _ => .found q rest)).distinct s
  else start.gather f

/-- The candidates of a step that pass its test. -/
def candidates (s : Store) (axis : Axis) (test : NodeTest) (p : Pointer) : Search :=
  .ofExcept ((p.along s r axis).map fun found => found.filter fun q => q.passes s test)

mutual

/-- The value of an expression. -/
def compute : Expr → Focus → Action Outcome
  | .literal t, _ => pure (.answer (.text t))
  | .number x, _ => pure (.answer (.number x))
  | .variable name, focus => do
    let s := (← get).on focus.occasion
    let p ← Action.read fun _ => env.variablePointer s name
    pure (.nodes (.ofList (p.elements s)))
  | .call f args, focus => do
    let args ← evaluateAll args focus
    pure (.ofAnswer (← env.call r f args focus))
  | .filter base predicates, focus => do
    let nodes ← env.collect r focus.occasion (← compute base (focus.part 0))
    pure (.nodes (.ofList (← Action.read (narrow predicates (focus.occasion.part 1) nodes))))
  | .binary .union left right, focus => do
    let left ← env.collect r (focus.occasion.part 0) (← compute left (focus.part 0))
    let right ← env.collect r (focus.occasion.part 1) (← compute right (focus.part 1))
    pure (.nodes (.ofList (← Action.read fun s => Pointer.sortUnique s (left ++ right))))
  | .binary .or left right, focus => do
    let left ← (← compute left (focus.part 0)).all
    if left.toBool (← get) then pure (.answer (.boolean true))
    else
      let right ← (← compute right (focus.part 1)).all
      pure (.answer (.boolean (right.toBool (← get))))
  | .binary .and left right, focus => do
    let left ← (← compute left (focus.part 0)).all
    if !left.toBool (← get) then pure (.answer (.boolean false))
    else
      let right ← (← compute right (focus.part 1)).all
      pure (.answer (.boolean (right.toBool (← get))))
  | .binary op left right, focus => do
    let left ← (← compute left (focus.part 0)).all
    let right ← (← compute right (focus.part 1)).all
    pure (.ofAnswer (← Action.read fun s => op.apply s r left right))
  | .negate e, focus => do
    let a ← (← compute e focus).all
    let x ← Action.read fun s => a.toNumber s r
    pure (.answer (.number (-x)))
  | .path start steps, focus => do
    let nodes ← startNodes start (focus.part 0)
    pure (.nodes (walk steps (focus.occasion.part 1) (← get) nodes))

/-- The values of expressions in order. -/
def evaluateAll : List Expr → Focus → Action (List Answer)
  | [], _ => pure []
  | e :: es, focus => do
    let a ← (← compute e (focus.part 0)).all
    let rest ← evaluateAll es (focus.part 1)
    pure (a :: rest)

/-- The nodes that each predicate in turn keeps of those left by the one before it. -/
def narrow : List Expr → Occasion → List Pointer → Store → Except PathError (List Pointer)
  | [], _, nodes, _ => pure nodes
  | predicate :: predicates, o, nodes, s => do
    let size := nodes.length
    let kept ← (nodes.zipIdx 1).filterMapM fun (node, position) => do
      let focus : Focus := { node, position, size, occasion := o.part 0 }
      let ask : Action Bool := do
        let a ← (← compute predicate focus).all
        pure (keeps (← get) focus a)
      pure (if ← ask.peek s then some node else none)
    narrow predicates (o.part 1) kept s

/-- The nodes a path starts from. -/
def startNodes : Start → Focus → Action Search
  | .here, focus => pure (.ofList [focus.node])
  | .root, _ => pure (.ofList [env.root])
  | .value e, focus => do env.traverse r focus.occasion (← compute e focus)

/-- The nodes that steps lead to from the nodes before them. -/
def walk : List Step → Occasion → Store → Search → Search
  | [], _, _, nodes => nodes
  | .mk axis test predicates :: steps, o, s, nodes =>
    let find (p : Pointer) : Search :=
      let found := candidates r (s.on (o.part 0)) axis test p
      if predicates.isEmpty then found
      else .ofExcept do
        pure (.ofList (← narrow predicates ((o.part 0).part 0) (← found.all) s))
    walk steps (o.part 1) s (advance s axis find nodes)

end

/-- The outcome of an expression that is evaluated now. -/
def begin (e : Expr) (focus : Focus) : Action Outcome := do
  env.compute r e { focus with occasion := (← get).now.part 0 }

/-- The answer of an expression. -/
def evaluate (e : Expr) (focus : Focus) : Action Answer := do
  let outcome ← env.begin r e focus
  Action.read fun _ => outcome.all

end Environment

end PathQuery
