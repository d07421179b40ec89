import PathQuery.Error
import PathQuery.Sorting

/-!
# The registry of pointer factories

A factory makes nodes for the values it recognizes. The registry numbers its factories as they are
registered, asks them in ascending order, those of one order by their numbers, and takes the first
that answers.

* names: `Request`, `Factory`, `Factory.instead`, `Registered`, `Registry`, `Registry.register`,
  `Registry.ofFactories`, `Registry.create`, `Registry.standard`.
* Null needs no factory.
-/

namespace PathQuery

/-- What a factory is asked for: a node for a value, under a name if the value has one, below a
chain of visits. -/
structure Request where
  name : Option QName := none
  value : Value
  locale : Locale := {}
  above : List Visit := []

/-- A rule that makes nodes for the values it recognizes. -/
structure Factory where
  order : Int
  make : Store → Request → Option Node

/-- The node of a markup element at the root of its tree. -/
def markupNode (s : Store) (foreign : Nat) : Option Node :=
  (s.foreigns.get foreign).element.map fun e => .element foreign e.name 0

namespace Factory

/-- Lists. -/
def lists : Factory where
  order := 10
  make := fun _ q => match q.value with
    | .list id => some (.items id q.name .whole)
    | _ => none

/-- Cells. -/
def cells : Factory where
  order := 200
  make := fun _ q => match q.value with
    | .cell id => some (.cell id q.name)
    | _ => none

/-- Maps. -/
def maps : Factory where
  order := 800
  make := fun _ q => match q.value with
    | .map id => some (.map id q.name)
    | _ => none

/-- Beans. -/
def beans : Factory where
  order := 900
  make := fun _ q => match q.value with
    | .bean id => some (.bean id q.name)
    | _ => none

/-- Scalars. -/
def scalars : Factory where
  order := 950
  make := fun _ q => if q.value.isScalar then some (.leaf q.value q.name) else none

/-- Covers the values of one kind: markup becomes an element, any other value is shown as
`standIn`, which is a map whose slots can be followed or else a leaf. -/
def instead (kind : String) (order : Int) (standIn : Value) : Factory where
  order
  make := fun s q =>
    if s.kind q.value != kind then none
    else
      let element? := match q.value with
        | .foreign f => markupNode s f
        | _ => none
      match element?, standIn with
      | some node, _ => some node
      | none, .map id => some (.map id q.name)
      | none, other => some (.leaf other q.name)

end Factory

/-- A factory with the number of those that were registered before it. -/
structure Registered where
  factory : Factory
  number : Nat

/-- The first factory is asked before the second: its order is less, or it is the same and the
factory was registered earlier. -/
def Registered.before (a b : Registered) : Bool :=
  a.factory.order < b.factory.order ||
    a.factory.order == b.factory.order && decide (a.number < b.number)

/-- Factories in the order in which they are asked, and how many were registered. -/
structure Registry where
  entries : List Registered := []
  count : Nat := 0

namespace Registry

/-- The registry with one more factory; its entries are sorted anew. -/
def register (r : Registry) (f : Factory) : Registry where
  entries := (Sorting.sort (r.entries ++ [⟨f, r.count⟩])).answered Registered.before
  count := r.count + 1

/-- The factories, as they are asked. -/
def factories (r : Registry) : List Factory := r.entries.map Registered.factory

/-- The orders of the factories, as they are asked. -/
def orders (r : Registry) : List Int := r.factories.map Factory.order

/-- The registry of some factories, registered one after another. -/
def ofFactories (fs : List Factory) : Registry := fs.foldl register {}

/-- The factories for every kind of value but foreign ones. -/
def standard : Registry := ofFactories [.lists, .cells, .maps, .beans, .scalars]

/-- The node that the first factory to answer makes for a request. -/
def node? (r : Registry) (s : Store) (q : Request) : Option Node :=
  match q.value with
  | .null => some (.null q.name)
  | _ => r.factories.findSome? fun f => f.make s q

/-- A pointer to a value below a chain of visits. -/
def create (r : Registry) (s : Store) (name : Option QName) (v : Value) (locale : Locale)
    (above : List Visit) : Except PathError Pointer :=
  match r.node? s { name, value := v, locale, above } with
  | some node => .ok { visit := { node, occasion := s.now }, above, locale }
  | none => .error (.unresolvable (s.kind v))

/-- A pointer to a value as the root of a graph. -/
def root (r : Registry) (s : Store) (v : Value) (locale : Locale) : Except PathError Pointer :=
  r.create s none v locale []

example : standard.orders = [10, 200, 800, 900, 950] := by decide

end Registry

end PathQuery
