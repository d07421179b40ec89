import PathQuery.Query.Eval

/-!
# Single results

The one node or value that an expression denotes.

* names: `Single`, `Environment.resolve`, `Environment.single`, `Single.value?`.
* **A simple path is resolved slot by slot.** A slot that does not exist gives a pointer to the
  missing node, and the slots after it pointers below that, through which they can be created.
-/

namespace PathQuery

/-- The one result of an expression. -/
inductive Single where
  | answer (a : Answer)
  | pointer (p : Pointer)
  | empty

namespace Environment

variable (r : Registry) (env : Environment)

/-- The first child or attribute that passes a name test. -/
def firstPassing (p : Pointer) (name : QName) (isAttribute : Bool) (s : Store) :
    Except PathError (Option Pointer) := do
  let candidates ←
    if isAttribute then p.attributes s r else p.children s r
  pure (candidates.find? fun q => q.passes s (.name name))

/-- A pointer to a slot that does not exist. -/
def missing (p : Pointer) (name : QName) (isAttribute : Bool) (index : Index) (s : Store) :
    Pointer :=
  p.child s.now (.missing name index isAttribute)

/-- The slot of a name: an existing one, else the first node that passes the name as a test, else
a missing one. -/
def slotOrMissing (p : Pointer) (name : QName) (isAttribute : Bool) (s : Store) :
    Except PathError Pointer := do
  match ← p.slot? s r name isAttribute with
  | some slot => pure slot
  | none =>
    let other ← firstPassing r p name isAttribute s
    pure (other.getD (missing p name isAttribute .whole s))

/-- The element of a slot at an index counted from zero. -/
def elementOf (p slot : Pointer) (name : QName) (isAttribute : Bool) (i : Int) (s : Store) :
    Pointer :=
  let moved := if slot.node.index = .whole then slot.atIndex? s (.element i) else none
  match moved with
  | some q => q
  | none =>
    if i = 0 && slot.node.isActual s then slot else missing p name isAttribute (.element i) s

/-- One slot of a simple path. -/
def resolveStep (o : Occasion) (p : Pointer) (step : SimpleStep) : Action Pointer := do
  let slot ← Action.read fun s => slotOrMissing r p step.name step.isAttribute (s.on o)
  match step.index with
  | none => pure slot
  | some e =>
    let a ← (← env.compute r e { node := p, occasion := o.part 0 }).all
    let s := (← get).on o
    match a with
    | .number x =>
      pure (elementOf p slot step.name step.isAttribute (Number.roundToInt x - 1) s)
    | a =>
      if a.toBool s then pure slot
      else pure (missing p step.name step.isAttribute (.element 0) s)

/-- The pointer that a simple path leads to. -/
def resolve (o : Occasion) (p : Pointer) : List SimpleStep → Action Pointer
  | [] => pure p
  | step :: steps => do
    let next ← env.resolveStep r (o.part 0) p step
    resolve (o.part 1) next steps

/-- The first node of an outcome, or its answer. -/
def firstOf : Outcome → Except PathError Single
  | .answer a => .ok (.answer a)
  | .nodes n => do
    match ← n.first with
    | some p => pure (.pointer p)
    | none => pure .empty

/-- The one result of an expression at a node. -/
def single (e : Expr) (focus : Focus) : Action Single := do
  let o := (← get).now.part 0
  let general := do
    let outcome ← env.begin r e focus
    Action.read fun _ => firstOf outcome
  match e with
  | .variable name =>
    pure (.pointer (← Action.read fun s => env.variablePointer (s.on o) name))
  | .path start steps =>
    match simplePath? start steps with
    | some (absolute, slots) =>
      pure (.pointer (← env.resolve r o (if absolute then env.root else focus.node) slots))
    | none => general
  | _ => general

end Environment

/-- The value of a single result. -/
def Single.value? (s : Store) (r : Registry) : Single → Except PathError (Option Value)
  | answer a => (a.toValue s r).map some
  | pointer p => (p.value s r).map some
  | empty => .ok none

end PathQuery
