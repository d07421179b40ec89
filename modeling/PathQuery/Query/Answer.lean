import PathQuery.Conversion
import PathQuery.Pointer.Shown

/-!
# Answers

What an expression evaluates to: nodes in document order, a scalar, or an object of the graph that
was not reached through a node.

* names: `Answer`, `Answer.ofValue`; `toBool`, `toNumber`, `toText`, `toValue`, `shown`.
* Nodes convert by their first node, no nodes to false, no number and the empty text.
-/

namespace PathQuery

/-- The value of an expression. -/
inductive Answer where
  | nodes (items : List Pointer)
  | text (t : String)
  | number (x : Float)
  | boolean (b : Bool)
  | object (v : Value)
deriving DecidableEq

instance : Inhabited Answer := ⟨.nodes []⟩

namespace Answer

variable (s : Store) (r : Registry)

/-- A graph value as an answer; scalars are scalars. -/
def ofValue : Value → Answer
  | .bool b => boolean b
  | .number x => number x
  | .text t => text t
  | v => object v

/-- The value of the first node, if there is a node. -/
def firstValue (items : List Pointer) : Except PathError (Option Value) :=
  match items with
  | [] => .ok none
  | p :: _ => (p.value s r).map some

/-- The truth value of an answer. -/
def toBool : Answer → Bool
  | nodes items => !items.isEmpty
  | text t => !t.isEmpty
  | number x => numberTruth x
  | boolean b => b
  | object v => s.toBool v

/-- The number of an answer. -/
def toNumber : Answer → Except PathError Float
  | nodes items => do pure (((← firstValue s r items).map s.toNumber).getD notANumber)
  | text t => .ok (Number.parse t)
  | number x => .ok x
  | boolean b => .ok (boolNumber b)
  | object v => .ok (s.toNumber v)

/-- The text of an answer. -/
def toText : Answer → Except PathError String
  | nodes items => do pure (((← firstValue s r items).map s.toText).getD "")
  | text t => .ok t
  | number x => .ok (Number.text x)
  | boolean b => .ok (boolText b)
  | object v => .ok (s.toText v)

/-- The graph value of an answer. -/
def toValue : Answer → Except PathError Value
  | nodes items => do pure ((← firstValue s r items).getD .null)
  | text t => .ok (.text t)
  | number x => .ok (.number x)
  | boolean b => .ok (.bool b)
  | object v => .ok v

/-- The answer consists of nodes. -/
def isNodes : Answer → Bool
  | nodes _ => true
  | _ => false

/-- An answer as it is shown in diagnostics. -/
def shown : Answer → String
  | nodes items => "Nodes(" ++ shownList (items.map fun p => p.shown s) ++ ")"
  | text t => "String(" ++ Text.quoted t ++ ")"
  | number x => "Number(" ++ Number.Style.precise.render x ++ ")"
  | boolean b => "Boolean(" ++ boolText b ++ ")"
  | object v => "Object(" ++ s.shown v ++ ")"

end Answer

end PathQuery
