import PathQuery.Engine
import PathQuery.Pointer.Root
import PathQuery.Query.Environment

/-!
# Contexts

A context is a node of a graph with the settings under which expressions are evaluated from it. A
context derived from another starts at a node of its own, keeps the root of absolute paths, and
looks up in the frames of the other what its own frame does not have.

* names: `Context`, `Context.new`, `Context.relative`, `Context.withLocale`; `declare`,
  `undeclare`, `bind`.
-/

namespace PathQuery

/-- A node and the settings for evaluation from it. -/
structure Context where
  env : Environment
  /-- The start of relative paths. -/
  here : Pointer

namespace Context

/-- A new variable scope. -/
def newScope : Action Nat := Action.make (·.addScope .empty)

/-- A context at the root of a graph, with the lenience and locale of the engine. -/
def new (root : Value) : Run Context := do
  let settings := (← get).engine.settings
  let root ← Run.read fun r s => r.root s root settings.locale
  let scope ← Run.act fun _ => newScope
  let own : Frame := { scope, namespaceNode := some root }
  let env : Environment := { root, locale := settings.locale, lenient := settings.lenient, own }
  pure { env, here := root }

/-- A context at a node of another context's graph. -/
def relative (ctx : Context) (p : Pointer) : Run Context := do
  let v ← Run.read fun r s => p.value s r
  if v.isNull then
    throw (.noContext (p.path (← get).store))
  let origin ← Run.act fun _ => Action.rootValue p
  let root ← Run.read fun r s => r.root s origin ctx.env.locale
  let scope ← Run.act fun _ => newScope
  let own : Frame := { scope, namespaceNode := some p }
  pure { env := { ctx.env with root, own, outer := ctx.env.frames }, here := p }

/-- The context was not derived from another. -/
def isTopLevel (ctx : Context) : Bool := ctx.env.outer.isEmpty

/-- The context with another locale for the pointers made from now on; at top level it starts from
its root again, under the new locale. -/
def withLocale (ctx : Context) (locale : Locale) : Run Context := do
  if ctx.isTopLevel then
    let root ← Run.read fun r s => r.root s (ctx.env.root.base s) locale
    pure { env := { ctx.env with root, locale }, here := root }
  else pure { ctx with env := { ctx.env with locale } }

/-- The context, strict or lenient. -/
def withLenience (ctx : Context) (lenient : Bool) : Context :=
  { ctx with env := { ctx.env with lenient } }

/-- The context with its own frame changed. -/
def withOwn (ctx : Context) (f : Frame → Frame) : Context :=
  { ctx with env := { ctx.env with own := f ctx.env.own } }

/-- The context with a qualifier bound to a namespace. -/
def bind (ctx : Context) (qualifier uri : String) : Context :=
  ctx.withOwn fun own => { own with bindings := own.bindings.insert qualifier uri }

/-- The variables of the context's own scope. -/
def scope (ctx : Context) (s : Store) : Table Value := s.scopes.get ctx.env.own.scope

/-- Declares a variable in the context's own scope. -/
def declare (ctx : Context) (name : String) (v : Value) (s : Store) : Store :=
  s.setScope ctx.env.own.scope ((ctx.scope s).insert name v)

/-- Takes a variable out of the context's own scope. -/
def undeclare (ctx : Context) (name : String) (s : Store) : Store :=
  s.setScope ctx.env.own.scope ((ctx.scope s).erase name)

end Context

end PathQuery
