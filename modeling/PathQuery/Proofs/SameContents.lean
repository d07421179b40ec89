import PathQuery.Proofs.DocumentOrder
import PathQuery.Proofs.Ends

/-!
# Stores that hold the same

Two stores that hold the same objects and the same variables. They may differ in the time, in what
pointers have settled about their roots, and in variable scopes in which nothing is declared.

* names: `Store.SameContents`.
* Every way to look at a node or a value gives the same in both: **`SameContents.shown`**,
  `SameContents.pathBelow`, `SameContents.compareSiblings`, `SameContents.toText`.
* **`sameContents_newScope`**: a new scope changes nothing.
-/

namespace PathQuery

namespace Store

/-- The stores hold the same objects and the same variables. -/
structure SameContents (s t : Store) : Prop where
  lists : t.lists = s.lists
  maps : t.maps = s.maps
  beans : t.beans = s.beans
  cells : t.cells = s.cells
  foreigns : t.foreigns = s.foreigns
  scope (k : Nat) : t.scopes.get k = s.scopes.get k

variable {s t u : Store}

theorem SameGraph.sameContents (h : s.SameGraph t) : s.SameContents t := by
  obtain ⟨_, _, rfl⟩ := h
  exact ⟨rfl, rfl, rfl, rfl, rfl, fun _ => rfl⟩

/-- **A new scope changes nothing**: a scope that does not exist declares nothing either. -/
theorem sameContents_newScope (s : Store) : s.SameContents (s.addScope .empty).2 where
  lists := rfl
  maps := rfl
  beans := rfl
  cells := rfl
  foreigns := rfl
  scope k := by
    show (s.scopes.add .empty).2.get k = _
    by_cases hk : k < s.scopes.size
    · exact Pool.get_add_of_lt hk _
    · rw [Pool.get_of_not_lt hk]
      by_cases hsize : k = s.scopes.size
      · subst hsize
        exact Pool.get_add_self ..
      · exact Pool.get_of_not_lt (by rw [Pool.size_add]; omega)

namespace SameContents

theorem refl (s : Store) : s.SameContents s := (SameGraph.refl s).sameContents

theorem symm (h : s.SameContents t) : t.SameContents s :=
  ⟨h.lists.symm, h.maps.symm, h.beans.symm, h.cells.symm, h.foreigns.symm, fun k => (h.scope k).symm⟩

theorem trans (h : s.SameContents t) (h' : t.SameContents u) : s.SameContents u :=
  ⟨h'.lists.trans h.lists, h'.maps.trans h.maps, h'.beans.trans h.beans, h'.cells.trans h.cells,
    h'.foreigns.trans h.foreigns, fun k => (h'.scope k).trans (h.scope k)⟩

theorem on (h : s.SameContents t) (o o' : Occasion) : (s.on o).SameContents (t.on o') :=
  ((SameGraph.on s o).symm.sameContents.trans h).trans (SameGraph.on t o').sameContents

variable (h : s.SameContents t)

include h

/-! ## Objects -/

theorem objectCount : t.objectCount = s.objectCount := by
  simp only [Store.objectCount, h.lists, h.maps, h.beans, h.cells, h.foreigns]

theorem slots (holder : Holder) : t.slots holder = s.slots holder := by
  cases holder <;> simp only [Store.slots, h.maps, h.beans]

theorem items? (v : Value) : t.items? v = s.items? v := items?_congr h.lists h.cells v

theorem select (v : Value) (index : Index) : t.select v index = s.select v index :=
  select_congr h.lists h.cells v index

theorem kind (v : Value) : t.kind v = s.kind v := by
  cases v <;> simp only [Store.kind, h.beans, h.foreigns]

theorem childNodes (holder : Holder) : t.childNodes holder = s.childNodes holder := by
  simp only [Store.childNodes, Store.slotNodes, h.slots, h.items?]

theorem attributeNodes (holder : Holder) : t.attributeNodes holder = s.attributeNodes holder := by
  simp only [Store.attributeNodes, h.slots]

theorem element? (f : Nat) : t.element? f = s.element? f := by simp only [Store.element?, h.foreigns]

/-! ## Nodes -/

theorem base (node : Node) : node.base t = node.base s := by
  cases node <;> simp only [Node.base, Store.slot, h.slots, h.scope, h.cells]

theorem immediate (node : Node) : node.immediate t = node.immediate s := by
  cases node <;> simp only [Node.immediate, h.base, h.select, h.lists, h.foreigns]

theorem isCollection (node : Node) : node.isCollection t = node.isCollection s := by
  cases node <;> simp only [Node.isCollection, h.base, h.items?]

theorem length (node : Node) : node.length t = node.length s := by
  have hunwrap (v : Value) : t.unwrap v = s.unwrap v := unwrapUpTo_congr h.cells _ v
  cases node <;> simp only [Node.length, h.base, h.items?, hunwrap, h.lists]

theorem isActual (node : Node) : node.isActual t = node.isActual s := by
  cases node <;> simp only [Node.isActual, Node.inRange, h.length, h.scope]

theorem end? (node : Node) : node.end? t = node.end? s := by
  simp only [Node.end?, h.immediate, endUpTo?_congr h.cells]

theorem endOf (n : Nat) (v : Value) : t.endOf n v = s.endOf n v := by
  induction n generalizing v with
  | zero => cases v <;> simp only [Store.endOf, h.kind]
  | succ n ih => cases v <;> simp only [Store.endOf, h.kind, h.cells, ih]

/-- **A node shows the same in both stores.** -/
theorem shown (node : Node) : node.shown t = node.shown s := by
  simp only [Node.shown, h.immediate, h.endOf]

theorem pathBelow (path : String) (node : Node) : node.pathBelow t path = node.pathBelow s path := by
  cases node <;> simp only [Node.pathBelow, h.isCollection]

theorem position? (node : Node) : node.position? t = node.position? s := by
  cases node <;> simp only [Node.position?, h.slots]

theorem compareSiblings (n m : Node) : n.compareSiblings t m = n.compareSiblings s m := by
  simp only [Node.compareSiblings, h.position?]

theorem compareChains (ns ms : List Node) :
    Node.compareChains t ns ms = Node.compareChains s ns ms := by
  induction ns generalizing ms with
  | nil => cases ms <;> rfl
  | cons n ns ih => cases ms <;> simp only [Node.compareChains, h.compareSiblings, ih]

theorem below (n m : Node) : n.Below t m ↔ n.Below s m := by
  cases m <;> simp only [Node.Below, h.end?]

theorem linked {root : Node} {ns : List Node} (hns : Linked s root ns) : Linked t root ns := by
  induction hns with
  | root hv => exact .root hv
  | link hb _ ih => exact .link ((h.below _ _).2 hb) ih

theorem nearest {α : Type} (own : Element → Option α) (ns : List Node) :
    Pointer.nearest t own ns = Pointer.nearest s own ns := by
  induction ns with
  | nil => rfl
  | cons n ns ih => cases n <;> simp only [Pointer.nearest, h.element?, ih]

/-! ## Values -/

theorem jsonUpTo (n : Nat) (v : Value) : t.jsonUpTo n v = s.jsonUpTo n v := by
  induction n generalizing v with
  | zero => cases v <;> simp only [Store.jsonUpTo, h.foreigns]
  | succ n ih =>
    have hfun : t.jsonUpTo n = s.jsonUpTo n := funext ih
    cases v <;> simp only [Store.jsonUpTo, hfun, h.lists, h.maps, h.beans, h.cells, h.foreigns]

theorem toTextUpTo (n : Nat) (v : Value) : t.toTextUpTo n v = s.toTextUpTo n v := by
  have hjson (v : Value) : t.jsonText v = s.jsonText v := by
    rw [jsonText, jsonText, h.objectCount, h.jsonUpTo]
  induction n generalizing v with
  | zero => cases v <;> simp only [Store.toTextUpTo, h.foreigns, hjson]
  | succ n ih =>
    cases v <;> simp only [Store.toTextUpTo, h.lists, h.cells, h.foreigns, hjson, ih]

theorem toText (v : Value) : t.toText v = s.toText v := by
  rw [Store.toText, Store.toText, h.objectCount, h.toTextUpTo]

theorem toNumber (v : Value) : t.toNumber v = s.toNumber v := by
  have hupTo (n : Nat) (v : Value) : t.toNumberUpTo n v = s.toNumberUpTo n v := by
    induction n generalizing v with
    | zero => cases v <;> simp only [Store.toNumberUpTo]
    | succ n ih => cases v <;> simp only [Store.toNumberUpTo, h.lists, h.cells, ih]
  rw [Store.toNumber, Store.toNumber, h.objectCount, hupTo]

theorem toBool (v : Value) : t.toBool v = s.toBool v := by
  cases v <;> simp only [Store.toBool, h.lists]

theorem atom (v : Value) : t.atom v = s.atom v := by
  simp only [Store.atom, h.objectCount, unwrapUpTo_congr h.cells]

theorem shownValue (v : Value) : Store.shown t v = Store.shown s v := by
  have hupTo (n : Nat) (v : Value) : t.shownUpTo n v = s.shownUpTo n v := by
    induction n generalizing v with
    | zero => cases v <;> simp only [Store.shownUpTo, h.foreigns]
    | succ n ih =>
      have hfun : t.shownUpTo n = s.shownUpTo n := funext ih
      cases v <;>
        simp only [Store.shownUpTo, hfun, h.lists, h.maps, h.beans, h.cells, h.foreigns]
  rw [Store.shown, Store.shown, h.objectCount, hupTo]

end SameContents

end Store

end PathQuery
