import PathQuery.Pointer.Write
import PathQuery.Query.CoreFunction

/-!
# Environments

What an expression can see besides the node it is evaluated at: the root of absolute paths, and
variables, functions, namespaces and an object factory, each looked up in the frame of the context
and then in the frames of the contexts it was derived from.

* names: `Frame`, `Environment`; `scope?`, `variablePointer?`, `function?`, `factory?`, `uri?`,
  `qualifier?`, `namespaceNode?`, `call`.
-/

namespace PathQuery

/-- The settings of one context. -/
structure Frame where
  /-- The number of the context's own variable scope. -/
  scope : Nat
  functions : Option FunctionLibrary := none
  factory : Option ObjectFactory := none
  /-- Qualifiers and the namespaces bound to them. -/
  bindings : Table String := .empty
  /-- The node at which qualifiers without a binding are looked up. -/
  namespaceNode : Option Pointer := none

/-- The settings under which expressions are evaluated. -/
structure Environment where
  /-- The start of absolute paths. -/
  root : Pointer
  locale : Locale
  /-- Missing values are answered with nothing instead of an error. -/
  lenient : Bool
  own : Frame
  /-- The frames of the contexts this one was derived from, the nearest first. -/
  outer : List Frame := []

namespace Environment

variable (env : Environment)

/-- All frames, the own one first. -/
def frames : List Frame := env.own :: env.outer

/-- The nearest scope that declares a variable. -/
def scope? (s : Store) (name : String) : Option Nat :=
  (env.frames.map Frame.scope).find? fun scope => (s.scopes.get scope).has name

/-- A pointer to a variable in the nearest scope that declares it. -/
def variablePointer? (s : Store) (name : QName) : Option Pointer :=
  (env.scope? s name.text).map fun scope =>
    { visit := { node := .var scope name .whole, occasion := s.now }, locale := env.locale }

/-- A pointer to a variable that must be declared. -/
def variablePointer (s : Store) (name : QName) : Except PathError Pointer :=
  match env.variablePointer? s name with
  | some p => .ok p
  | none => .error (.undeclared name.text)

/-- The function for a call, from the nearest library that has one. -/
def function? (name : QName) (args : Nat) : Option Function :=
  env.frames.findSome? fun frame => frame.functions.bind fun library => library.find? name args

/-- The nearest object factory. -/
def factory? : Option ObjectFactory := env.frames.findSome? Frame.factory

/-- The nearest node for the look-up of namespaces. -/
def namespaceNode? : Option Pointer := env.frames.findSome? Frame.namespaceNode

/-- The namespace of a qualifier: each frame asks its bindings and then its node. -/
def uri? (s : Store) (qualifier : String) : Option String :=
  env.frames.findSome? fun frame =>
    frame.bindings.get? qualifier <|> frame.namespaceNode.bind fun p => p.uri? s qualifier

/-- The first qualifier bound to a namespace, in the nearest frame that has one. -/
def qualifier? (uri : String) : Option String :=
  env.frames.findSome? fun frame =>
    (frame.bindings.entries.find? fun e => e.2 == uri).map Prod.fst

/-- Calls a function: of the core if it has no qualifier and a core name, else of a library. -/
def call (r : Registry) (f : QName) (args : List Answer) (focus : Focus) : Action Answer :=
  match if f.qualifier.isNone then CoreFunction.ofName? f.name else none with
  | some core => Action.read fun s => core.apply s r focus args
  | none =>
    match env.function? f args.length with
    | some g => g focus args
    | none => throw (.unknownFunction f.text)

end Environment

end PathQuery
