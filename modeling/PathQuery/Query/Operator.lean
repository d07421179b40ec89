import PathQuery.Pointer.Order
import PathQuery.Query.Answer
import PathQuery.Syntax.Expr

/-!
# Operators

Comparison, arithmetic, logic and union of answers.

* names: `Answer.atoms`, `equalAtoms`, `somePair`, `BinaryOp.apply`.
* **Comparisons are existential**: they hold if they hold for some pair of the values of the two
  sides. Against a boolean an equality looks at the truth value of a whole side instead.
-/

namespace PathQuery

variable (s : Store) (r : Registry)

/-- A value as a side of a comparison: cells are looked through, and null is the empty text. -/
def Store.atom (v : Value) : Value :=
  match s.unwrapUpTo s.objectCount v with
  | .null => .text ""
  | v => v

/-- The values of a side of a comparison: one for each node. -/
def Answer.atoms : Answer → Except PathError (List Value)
  | .nodes items => items.mapM fun p => (p.value s r).map s.atom
  | .object v => .ok [s.atom v]
  | .text t => .ok [.text t]
  | .number x => .ok [.number x]
  | .boolean b => .ok [.bool b]

/-- Two values are equal as truth values if one is a boolean, else as numbers if one is a number,
else as texts. -/
def equalAtoms : Value → Value → Bool
  | .bool b, w => b == s.toBool w
  | v, .bool b => s.toBool v == b
  | .number x, w => x == s.toNumber w
  | v, .number x => s.toNumber v == x
  | v, w => s.toText v == s.toText w

/-- Some pair of the values of two sides is related. -/
def somePair {α : Type} (related : α → α → Bool) (left right : List α) : Bool :=
  left.any fun a => right.any (related a)

/-- An equality, or its opposite, of two answers. -/
def compareEquality (equal : Bool) (left right : Answer) : Except PathError Bool :=
  match left, right with
  | .boolean _, _ | _, .boolean _ => .ok ((left.toBool s == right.toBool s) == equal)
  | _, _ => do
    let left ← left.atoms s r
    let right ← right.atoms s r
    pure (somePair (fun a b => equalAtoms s a b == equal) left right)

/-- An order relation of two answers, as numbers. -/
def compareNumbers (related : Float → Float → Bool) (left right : Answer) :
    Except PathError Bool := do
  let left ← left.atoms s r
  let right ← right.atoms s r
  pure (somePair related (left.map s.toNumber) (right.map s.toNumber))

/-- An arithmetic operation on two answers. -/
def arithmetic (f : Float → Float → Float) (left right : Answer) : Except PathError Answer := do
  let x ← left.toNumber s r
  let y ← right.toNumber s r
  pure (.number (f x y))

/-- The nodes of an answer; a scalar has none. -/
def Answer.items : Answer → List Pointer
  | .nodes items => items
  | _ => []

/-- The value of an operator. -/
def BinaryOp.apply (op : BinaryOp) (left right : Answer) : Except PathError Answer :=
  match op with
  | .or => .ok (.boolean (left.toBool s || right.toBool s))
  | .and => .ok (.boolean (left.toBool s && right.toBool s))
  | .equal => (compareEquality s r true left right).map .boolean
  | .notEqual => (compareEquality s r false left right).map .boolean
  | .less => (compareNumbers s r (fun x y => x < y) left right).map .boolean
  | .lessEqual => (compareNumbers s r (fun x y => x ≤ y) left right).map .boolean
  | .greater => (compareNumbers s r (fun x y => y < x) left right).map .boolean
  | .greaterEqual => (compareNumbers s r (fun x y => y ≤ x) left right).map .boolean
  | .add => arithmetic s r (· + ·) left right
  | .subtract => arithmetic s r (· - ·) left right
  | .multiply => arithmetic s r (· * ·) left right
  | .divide => arithmetic s r (· / ·) left right
  | .modulo => arithmetic s r Number.remainder left right
  | .union => (Pointer.sortUnique s (left.items ++ right.items)).map .nodes

end PathQuery
