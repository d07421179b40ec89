import PathQuery.Pointer.Read
import PathQuery.Sorting
import Std.Data.TreeSet

/-!
# Document order

Pointers into one graph are ordered as their chains lead through it: attributes before children,
slots in the order of their owner, elements by index, and a node before the nodes below it.

* names: `samePosition`, `sameParent`, `compareSiblings`, `compare`, `sorted`, `sortUnique`.
* Pointers with one parent are compared as siblings; any others level by level, where a level at
  which both chains stand at the same position decides nothing.
* Sorting fails if it compares two pointers that have no order. The order need not be a preorder:
  like-named markup siblings whose parents were found apart stand equal, whatever stands between
  them.
-/

namespace PathQuery

/-- `false` before `true`. -/
def compareBool : Bool → Bool → Ordering
  | false, true => .lt
  | true, false => .gt
  | _, _ => .eq

/-- No place comes before every place. -/
def comparePlaces : Option Nat → Option Nat → Ordering
  | none, none => .eq
  | none, some _ => .lt
  | some _, none => .gt
  | some i, some j => Ord.compare i j

namespace Node

variable (s : Store)

/-- The nodes look alike: same kind, index, name, and both attributes or neither. -/
def alike (a b : Node) : Bool :=
  a.kind == b.kind && a.index == b.index && a.isAttribute == b.isAttribute && a.name? == b.name?

/-- The order of two nodes below one parent. -/
def compareSiblings (a b : Node) : Ordering :=
  (compareBool b.isAttribute a.isAttribute).then <|
    (comparePlaces (a.position? s) (b.position? s)).then <| a.index.compare b.index

/-- The order of two chains below a level where they stand at the same position. -/
def compareChains : List Node → List Node → Ordering
  | [], [] => .eq
  | [], _ :: _ => .lt
  | _ :: _, [] => .gt
  | a :: as, b :: bs =>
    (if a.alike b then .eq else a.compareSiblings s b).then (compareChains as bs)

end Node

/-- A set of texts. -/
abbrev TextSet : Type := Std.TreeSet String

namespace Pointer

variable (s : Store)

/-- The pointers stand at the same position of their parents; roots do if they also name the same
value. -/
def samePosition (p q : Pointer) : Bool :=
  p.node.alike q.node &&
    match p.above, q.above with
    | [], [] => (p.base s).same (q.base s)
    | _ :: _, _ :: _ => true
    | _, _ => false

/-- The chains of the pointers start from the same value. -/
def sameRoot (p q : Pointer) : Bool := (p.origin s).same (q.origin s)

/-- The pointers are below one parent, found on one occasion. -/
def sameParent (p q : Pointer) : Bool := p.parent?.isSome && p.parent? == q.parent?

/-- The order of two pointers whose chains start from the same value. -/
def order (p q : Pointer) : Ordering :=
  if p.sameParent q then p.node.compareSiblings s q.node
  else
    match p.lineage, q.lineage with
    | a :: as, b :: bs =>
      (if a.alike b then .eq else a.index.compare b.index).then (Node.compareChains s as bs)
    | _, _ => .eq

/-- Document order. Pointers into different graphs have none, for want of an order of the roots. -/
def compare (p q : Pointer) : Except PathError Ordering :=
  if p.sameRoot s q then .ok (p.order s q)
  else .error (.incomparable (p.rootPath s) (q.rootPath s))

/-- The first pointer is to stand before the second. -/
def comesBefore (p q : Pointer) : Except PathError Bool := (p.compare s q).map (· == .lt)

/-- The pointers in document order; those that the order does not tell apart stay as they are. The
first comparison that fails is the failure of it all. -/
def sorted (ps : List Pointer) : Except PathError (List Pointer) :=
  (Sorting.sort ps).tried (comesBefore s)

/-! ## One pointer for each path -/

/-- The pointers of a list whose path does not occur earlier in it or in `seen`. -/
def uniqueFrom (seen : TextSet) : List Pointer → List Pointer
  | [] => []
  | p :: ps =>
    let path := p.path s
    if seen.contains path then uniqueFrom seen ps else p :: uniqueFrom (seen.insert path) ps

/-- The first pointer of every path in a list. -/
def unique (ps : List Pointer) : List Pointer := uniqueFrom s ∅ ps

/-- The pointers in document order, one for each path. -/
def sortUnique (ps : List Pointer) : Except PathError (List Pointer) :=
  (sorted s ps).map (unique s)

end Pointer

end PathQuery
