import PathQuery.Context
import PathQuery.Query.Single

/-!
# Reading and writing through compiled paths

What a context does with a compiled path.

* names: `CompiledPath.getValue`, `getAs`, `getPointer`, `nodes`, `setValue`, `createPath`,
  `createAndSet`, `remove`, `removeAll`; `Nodes.values`.
* A strict context fails where nothing is found; a lenient one answers nothing.
* **Bulk removal goes from the last node to the first.** Only the first to go is removed through
  its pointer: removals move the items of lists, so every other node is found again by its path.
-/

namespace PathQuery

/-- The values of a node sequence, up to the first failure. -/
def Nodes.values (s : Store) (r : Registry) (n : Nodes) : List Value × Option PathError :=
  go n.items
where
  go : List Pointer → List Value × Option PathError
    | [] => ([], n.failure)
    | p :: ps =>
      match p.value s r with
      | .error e => ([], some e)
      | .ok v => let (vs, failure) := go ps; (v :: vs, failure)

namespace CompiledPath

variable (ctx : Context) (r : Registry) (c : CompiledPath)

/-- The failure to find anything. -/
def notFound : PathError := .notFound c.source

/-- The one result of the expression in a context. -/
def single : Action Single := ctx.env.single r c.expr.value { node := ctx.here }

/-! ## Reading -/

/-- The value of a single result; in a strict context its node must exist, and so must the value
at the end of it. -/
def valueOf (s : Store) : Single → Except PathError (Option Value)
  | .answer a => (a.toValue s r).map some
  | .pointer p => do
    let target ← p.valuePointer s r
    if !ctx.env.lenient && !(p.node.isActual s && target.node.isActual s) then throw c.notFound
    pure (some (target.immediate s))
  | .empty => if ctx.env.lenient then .ok none else .error c.notFound

/-- The value of the expression; none stands for null too. -/
def getValue : Action (Option Value) := do
  let one ← c.single ctx r
  let v ← Action.read fun s => c.valueOf ctx r s one
  pure (v.filter fun v => !v.isNull)

/-- The value of the expression as an asked type. A cell stands for its contents. -/
def getAs (target : Target) : Action (Option Converted) := do
  match ← c.getValue ctx r with
  | none => pure none
  | some v =>
    let s ← get
    let v := s.unwrapUpTo 1 v
    match convert? s target v with
    | some converted => pure (some converted)
    | none => throw (.noConversion (s.kind v) target.name)

/-- The first node of the expression; a value that is no node becomes a graph of its own. -/
def getPointer : Action Pointer := do
  let one ← c.single ctx r
  Action.read fun s =>
    match one with
    | .pointer p => if ctx.env.lenient || p.node.isActual s then .ok p else .error c.notFound
    | .empty =>
      if ctx.env.lenient then r.root s .null ctx.env.locale else .error c.notFound
    | .answer a => do r.root s (← a.toValue s r) ctx.env.locale

/-- The nodes of the expression. -/
def nodes : Action Search := do
  let outcome ← ctx.env.begin r c.expr.value { node := ctx.here }
  ctx.env.traverse r (← get).now outcome

/-! ## Writing -/

/-- Sets the value at the first node of the expression. -/
def setValue (v : Value) : Action Unit := do
  match ← c.single ctx r with
  | .pointer p => p.setValue r v
  | .empty => throw c.notFound
  | .answer _ => throw (.refused "value" (.noNode c.source))

/-- The expression can be created: it is a simple path or a variable. -/
def isCreatable : Bool :=
  match c.expr.value with
  | .variable _ => true
  | .path start steps => (simplePath? start steps).isSome
  | _ => false

/-- The node to be created. -/
def creationTarget : Action Pointer := do
  if !c.isCreatable then throw (.notCreatable c.source)
  match ← c.single ctx r with
  | .pointer p => pure p
  | _ => throw c.notFound

/-- Makes the node of the expression exist, with the nodes on the way to it. -/
def createPath : Action Pointer := do
  (← c.creationTarget ctx r).createPath r ctx.env.factory?

/-- Makes the node of the expression exist and sets its value. -/
def createAndSet (v : Value) : Action Pointer := do
  (← c.creationTarget ctx r).createAndSet r ctx.env.factory? v

/-- Removes the first node of the expression. -/
def remove : Action Unit := do
  (← c.getPointer ctx r).remove

/-- Removes nodes one after another, each found again by the path it has by then. -/
def removeByPath (ctx : Context) : List Pointer → Run Unit
  | [] => pure ()
  | p :: ps => do
    let c ← Run.compile (p.path (← get).store)
    Run.act fun r => c.remove ctx r
    removeByPath ctx ps

/-- Removes all nodes of the expression. -/
def removeAll (ctx : Context) (c : CompiledPath) : Run Unit := do
  let selected ← Run.act fun r => do
    let n ← c.nodes ctx r
    Action.read fun s => do Pointer.sortUnique s (← n.all)
  match selected.reverse with
  | [] => pure ()
  | first :: rest =>
    Run.act fun _ => first.remove
    removeByPath ctx rest

end CompiledPath

end PathQuery
