import PathQuery.Locale
import PathQuery.Pointer.Node

/-!
# Pointers

A pointer names a place in a graph by the chain of nodes that leads to it from a root. It says
where to look, not what is there: the same pointer shows another value after a change to the graph.

* names: `Occasion`, `Visit`, `Pointer`; `parent?`, `child`, `root`, `lineage`, `ancestors`.
* Children are reported below their link, so a chain of children reads root, slot, slot, without
  the values between them.
* **Pointers are told apart by when they were found.** A node that is found twice is visited twice:
  the chains through it name the same nodes and are still different pointers.
-/

namespace PathQuery

/-! ## Visits -/

/-- When a node was found: the number of an action on a store, and a part of the action. -/
structure Occasion where
  clock : Nat := 0
  trail : List Nat := []
deriving DecidableEq, Inhabited

/-- A part of what is done on an occasion, as an occasion of its own. -/
def Occasion.part (o : Occasion) (k : Nat) : Occasion := { o with trail := k :: o.trail }

/-- A node as it was found on one occasion. -/
structure Visit where
  node : Node
  occasion : Occasion
  /-- The value at the root of the chain, if that was settled when the node was found. -/
  settled : Option Value := none
deriving DecidableEq, Inhabited

/-! ## Pointers -/

/-- A visit with the chain of visits above it, the nearest first. -/
structure Pointer where
  visit : Visit
  above : List Visit := []
  /-- The language of the graph's texts. -/
  locale : Locale := {}
deriving DecidableEq, Inhabited

namespace Pointer

/-- The node that a pointer points at. -/
def node (p : Pointer) : Node := p.visit.node

/-- The visits of a pointer and its parents, the nearest first. -/
def chain (p : Pointer) : List Visit := p.visit :: p.above

/-- The nodes of a pointer and its parents, the nearest first. -/
def nodes (p : Pointer) : List Node := p.chain.map Visit.node

/-- The pointer one link up. -/
def parent? (p : Pointer) : Option Pointer :=
  match p.above with
  | [] => none
  | visit :: above => some { p with visit, above }

/-- A pointer to a node that is found below this one. -/
def child (p : Pointer) (occasion : Occasion) (node : Node) : Pointer :=
  { p with visit := { node, occasion }, above := p.chain }

/-- The first node of the chain. -/
def root (p : Pointer) : Node := (p.chain.getLast (by simp [chain])).node

/-- The nodes of the chain, the root first. -/
def lineage (p : Pointer) : List Node := p.nodes.reverse

/-- The pointers above this one, the nearest first. -/
def ancestors (p : Pointer) : List Pointer := go p.above
where
  go : List Visit → List Pointer
    | [] => []
    | visit :: above => { p with visit, above } :: go above

variable (p : Pointer) (o : Occasion) (node : Node)

@[simp] theorem node_child : (p.child o node).node = node := rfl

@[simp] theorem parent?_child : (p.child o node).parent? = some p := rfl

@[simp] theorem root_child : (p.child o node).root = p.root := by
  simp [root, child, chain]

@[simp] theorem lineage_child : (p.child o node).lineage = p.lineage ++ [node] := by
  simp [lineage, nodes, child, chain]

end Pointer

end PathQuery
