import PathQuery.Pointer.Read

/-!
# Moving through a graph

The nodes below a pointer: its children, its attributes, its namespace bindings and its named slots.

* names: `children`, `attributes`, `namespaces`, `slot?`; `uri?`, `defaultUri?`, `ownUri?`.
* A slot that holds a list has one child for each item. The items of a list are no nodes of their
  own where the list stands alone: its children are those of its items.
-/

namespace PathQuery

/-! ## Nodes below an object -/

namespace Store

variable (s : Store)

/-- The nodes of one slot: one for each item of a list, else one for the slot. -/
def slotNodes (h : Holder) (name : String) (v : Value) : List Node :=
  match s.items? v with
  | some items =>
    (List.range items.length).map fun (i : Nat) => .slot h (.bare name) (.element i) false
  | none => [.slot h (.bare name) .whole false]

/-- The children of an object. -/
def childNodes (h : Holder) : List Node :=
  (s.slots h).entries.flatMap fun (name, v) => s.slotNodes h name v

/-- The attributes of an object: every slot, whole. -/
def attributeNodes (h : Holder) : List Node :=
  (s.slots h).keys.map fun name => .slot h (.bare name) .whole true

/-- The markup element that a foreign value is. -/
def element? (foreign : Nat) : Option Element := (s.foreigns.get foreign).element

/-- The children of a markup element. -/
def elementChildren (e : Element) : List Node :=
  e.children.zipIdx.filterMap fun (child, position) =>
    (s.element? child).map fun c => .element child c.name position

/-- The attributes of a markup element. -/
def elementAttributes (e : Element) : List Node :=
  e.attributes.zipIdx.map fun ((name, text), position) => .markupText name text position true

/-- The namespace bindings of a markup element. -/
def elementBindings (e : Element) : List Node :=
  e.bindings.zipIdx.map fun ((name, uri), position) => .markupText (.bare name) uri position false

end Store

/-- The object whose slots a value node shows. -/
def Node.holder? : Node → Option Holder
  | .map id _ => some (.map id)
  | .bean id _ => some (.bean id)
  | _ => none

namespace Pointer

variable (s : Store) (r : Registry)

/-- One item of a list below an owner: the owner's own element if the owner is the list. -/
def item (owner : Pointer) (list : Nat) (name : Option QName) (i : Nat) : Pointer :=
  let nested := owner.child s.now (.items list name (.element i))
  if owner.isWholeCollection s then (owner.atIndex? s (.element i)).getD nested else nested

/-- The children of a pointer, those of a list's items taken from `inner`. -/
def childrenWith (inner : Pointer → Except PathError (List Pointer)) (owner : Pointer) :
    Except PathError (List Pointer) := do
  let v ← owner.valuePointer s r
  match v.node with
  | .items list name .whole =>
    let items := (List.range (s.lists.get list).length).map (owner.item s list name)
    pure (← items.mapM inner).flatten
  | .element foreign _ _ =>
    pure (((s.element? foreign).map s.elementChildren).getD [] |>.map (owner.child s.now))
  | node => pure ((node.holder?.map s.childNodes).getD [] |>.map (owner.child s.now))

/-- The children of a pointer, through at most `n` lists that are items of lists. -/
def childrenUpTo : Nat → Pointer → Except PathError (List Pointer)
  | 0 => childrenWith s r fun _ => .ok []
  | n + 1 => childrenWith s r (childrenUpTo n)

/-- The children of a pointer. -/
def children (p : Pointer) : Except PathError (List Pointer) := p.childrenUpTo s r s.lists.size

/-- The attributes of a pointer. -/
def attributes (p : Pointer) : Except PathError (List Pointer) := do
  let v ← p.valuePointer s r
  match v.node with
  | .element foreign _ _ =>
    pure (((s.element? foreign).map Store.elementAttributes).getD [] |>.map (p.child s.now))
  | node => pure ((node.holder?.map s.attributeNodes).getD [] |>.map (p.child s.now))

/-- The namespace bindings of a pointer. -/
def namespaces (p : Pointer) : Except PathError (List Pointer) := do
  let v ← p.valuePointer s r
  match v.node with
  | .element foreign _ _ =>
    pure (((s.element? foreign).map Store.elementBindings).getD [] |>.map (p.child s.now))
  | _ => pure []

/-- The existing slot of this name. -/
def slot? (p : Pointer) (name : QName) (isAttribute : Bool) :
    Except PathError (Option Pointer) := do
  let v ← p.valuePointer s r
  match v.node.holder? with
  | some h =>
    if (s.slots h).has name.text then pure (some (p.child s.now (.slot h name .whole isAttribute)))
    else pure none
  | none => pure none

/-! ## Namespaces -/

/-- What the nearest markup element of a chain with an answer says. The chain ends at the first
node that is no markup. -/
def nearest {α : Type} (own : Element → Option α) : List Node → Option α
  | .element foreign _ _ :: above => ((s.element? foreign).bind own) <|> nearest own above
  | .markupText .. :: above => nearest own above
  | _ => none

/-- The namespace bound to a qualifier at a pointer. -/
def uri? (p : Pointer) (qualifier : String) : Option String :=
  nearest s (fun e => e.bindings.lookup qualifier) p.nodes

/-- The namespace of names without a qualifier at a pointer. -/
def defaultUri? (p : Pointer) : Option String :=
  nearest s Element.defaultUri p.nodes

/-- The namespace of a pointer's own name. -/
def ownUri? (p : Pointer) : Option String :=
  match p.node with
  | .element _ name _ | .markupText name _ _ _ =>
    match name.qualifier with
    | some qualifier => p.uri? s qualifier
    | none => p.defaultUri? s
  | _ => none

end Pointer

end PathQuery
