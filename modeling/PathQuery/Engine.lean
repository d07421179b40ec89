import PathQuery.Action
import PathQuery.Cache.Expressions
import PathQuery.Registry

/-!
# Engines

An engine holds what all contexts share: its settings, the pointer factories and the expression
cache. A world is an engine with the store of the graphs it works on.

* names: `CompiledPath`, `Engine`, `Engine.compile`, `World`, `Run`, `Run.act`, `Run.compile`.
-/

namespace PathQuery

/-- An expression with its source text. -/
structure CompiledPath where
  source : String
  expr : Shared Expr

/-- The expression is a location path. -/
def CompiledPath.isPath (c : CompiledPath) : Bool :=
  match c.expr.value with
  | .path .. => true
  | _ => false

/-- The two are one compiled expression, not merely equal ones. -/
def CompiledPath.same (a b : CompiledPath) : Bool := a.expr.id == b.expr.id

/-- Settings, pointer factories and expression cache. -/
structure Engine where
  settings : Settings
  registry : Registry
  cache : ExpressionCache

namespace Engine

/-- A new engine with the standard factories. -/
def ofSettings (settings : Settings) : Engine where
  settings
  registry := .standard
  cache := .ofSettings settings.cache

/-- The expression of a text, through the cache. -/
def compile (e : Engine) (held : Nat → Bool) (source : String) :
    Except PathError CompiledPath × Engine :=
  let (found, cache) := e.cache.compile held source
  let result := match found with
    | .ok expr => .ok { source, expr }
    | .error fault => .error (.malformed fault)
  (result, { e with cache })

end Engine

/-! ## Worlds -/

/-- An engine, the objects of its graphs, and the identities of the expressions that callers
hold. -/
structure World where
  engine : Engine
  store : Store := {}
  held : List Nat := []

/-- A computation that changes a world and may fail. -/
abbrev Run (α : Type) : Type := ExceptT PathError (StateM World) α

namespace Run

/-- An action on the store of a world, at a time of its own. -/
def act {α : Type} (f : Registry → Action α) : Run α := fun w =>
  let (result, store) := (f w.engine.registry).run.run w.store.tick
  (result, { w with store })

/-- Something that can be read off the store of a world. -/
def read {α : Type} (f : Registry → Store → Except PathError α) : Run α :=
  act fun r => Action.read (f r)

/-- The expression of a text, through the cache of the engine. -/
def compile (source : String) : Run CompiledPath := fun w =>
  let (result, engine) := w.engine.compile (fun id => w.held.contains id) source
  (result, { w with engine })

end Run

end PathQuery
