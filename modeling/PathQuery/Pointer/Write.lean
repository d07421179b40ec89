import PathQuery.Action
import PathQuery.Pointer.Navigate

/-!
# Writing through a pointer

Setting the value at a pointer, removing what it points at, and making the node it names exist.

* names: `ObjectFactory`; `setValue`, `remove`, `createPath`, `createAndSet`, `createChild`,
  `createAttribute`.
* A write to a slot that holds a cell goes into the cell. A write to a value goes to the link that
  leads to it. A write to an element of a list makes the list long enough.
-/

namespace PathQuery

/-- Makes the object for a missing node from the pointer above it, its name and its place in a
list, or leaves that to the object that holds it. -/
abbrev ObjectFactory : Type := Pointer → String → Option Nat → StateM Store (Option Value)

/-- The items with one more place filled, nulls in the places between. -/
def putItem (items : List Value) (i : Nat) (v : Value) : List Value :=
  (items ++ List.replicate (i + 1 - items.length) Value.null).set i v

namespace Store

/-- The number of the list that a value is, however many cells it is wrapped in. -/
def listId? (s : Store) (v : Value) : Option Nat :=
  match s.unwrap v with
  | .list l => some l
  | _ => none

/-- The store with one item of a list written. -/
def putListItem (s : Store) (l i : Nat) (v : Value) : Store :=
  s.setList l (putItem (s.lists.get l) i v)

/-- The store with a list of at least `n` items. -/
def padList (s : Store) (l n : Nat) : Store :=
  let items := s.lists.get l
  s.setList l (items ++ List.replicate (n - items.length) .null)

/-- The store with one item of a list taken out. -/
def eraseListItem (s : Store) (l i : Nat) : Store := s.setList l ((s.lists.get l).eraseIdx i)

/-- The store with a slot written: into the cell that it holds, else into the object. -/
def putSlot (s : Store) (h : Holder) (name : String) (v : Value) : Except PathError Store :=
  match s.slot h name, h with
  | .cell c, _ => .ok (s.setCell c v)
  | _, .map id => .ok (s.setMap id ((s.maps.get id).insert name v))
  | _, .bean id =>
    let bean := s.beans.get id
    match bean.assign name (s.kind v) v with
    | .ok bean => .ok (s.setBean id bean)
    | .error fault => .error (.bean bean.type fault)

/-- The store without a slot of a map, or with a slot of a bean emptied. -/
def eraseSlot (s : Store) (h : Holder) (name : String) : Except PathError Store :=
  match h with
  | .map id => .ok (s.setMap id ((s.maps.get id).erase name))
  | .bean _ => s.putSlot h name .null

end Store

namespace Action

/-- Writes a slot. -/
def putSlot (h : Holder) (name : String) (v : Value) : Action Unit := do
  set (← read fun s => s.putSlot h name v)

/-- Takes a slot away. -/
def eraseSlot (h : Holder) (name : String) : Action Unit := do
  set (← read fun s => s.eraseSlot h name)

end Action

namespace Pointer

/-! ## Refusals -/

/-- A failure of this pointer's kind. -/
def refuse {α : Type} (p : Pointer) (why : Refusal) : Action α := throw (.refused p.node.kind why)

/-- A failure of a slot, whether it exists or not. -/
def refuseSlot {α : Type} (why : Refusal) : Action α := throw (.refused "property" why)

/-- The place that the pointer's index selects; none for the whole, and no element before the
first. -/
def place (p : Pointer) (kind : String) : Action (Option Nat) := do
  match p.node.index, p.node.index.place? with
  | .whole, _ => pure none
  | _, some i => pure (some i)
  | .element i, none => throw (.refused kind (.outOfBounds (i + 1) (p.path (← get))))

/-! ## Setting -/

/-- Sets a slot or one element of the list in it. An empty slot becomes a list for any element but
the first. -/
def setSlot (p : Pointer) (h : Holder) (name : QName) (v : Value) : Action Unit := do
  let key := name.text
  match ← p.place "property" with
  | none => Action.putSlot h key v
  | some i =>
    let s ← get
    let held := s.unwrap (s.slot h key)
    match held with
    | .list l => Action.change (·.putListItem l i v)
    | _ =>
      if i = 0 then Action.putSlot h key v
      else if held.isNull then
        let l ← Action.make (·.addList [])
        Action.putSlot h key (.list l)
        Action.change (·.putListItem l i v)
      else refuseSlot (.setOutsideCollection (p.path s) "property")

/-- Sets a variable or one element of the list in it. -/
def setVariable (p : Pointer) (scope : Nat) (name : QName) (v : Value) : Action Unit := do
  let declare (s : Store) := s.setScope scope ((s.scopes.get scope).insert name.text v)
  match ← p.place "variable" with
  | none => Action.change declare
  | some i =>
    let s ← get
    match s.listId? (p.base s) with
    | some l => Action.change (·.putListItem l i v)
    | none =>
      if i = 0 then Action.change declare
      else p.refuse (.setOutsideCollection (p.path s) "variable")

/-- Sets a slot that did not exist when the pointer was made. -/
def setMissing (r : Registry) (p : Pointer) (v : Value) : Action Unit := do
  let s ← get
  match p.parent?, p.node with
  | some parent, .missing name index isAttribute =>
    if parent.node.isContainer then refuseSlot (.nullTarget (p.path s))
    else
      match ← Action.read fun s => parent.value s r with
      | .map id =>
        (parent.child s.now (.slot (.map id) name index isAttribute)).setSlot (.map id) name v
      | .null => refuseSlot (.nullTarget (p.path s))
      | _ => refuseSlot (.unchangeable (p.path s))
  | _, _ => refuseSlot (.unchangeable (p.path s))

/-- Sets the value at a visit below the chain `above`. -/
def setAt (r : Registry) (locale : Locale) (v : Value) (visit : Visit) (above : List Visit) :
    Action Unit :=
  let p : Pointer := { visit, above, locale }
  match visit.node, above with
  | .slot h name _ _, _ => p.setSlot h name v
  | .missing .., _ => p.setMissing r v
  | .var scope name _, _ => p.setVariable scope name v
  | .cell id _, _ => Action.change (·.setCell id v)
  | .element .., _ | .markupText .., _ => p.refuse .readOnlyElement
  | .items list _ (.element _), _ => do
    match ← p.place "collection" with
    | some i => Action.change (·.putListItem list i v)
    | none => pure ()
  | _, parent :: above => setAt r locale v parent above
  | .items .., [] => p.refuse (.replaceRoot "collection")
  | .map .., [] | .bean .., [] => p.refuse (.replaceRoot "object")
  | .leaf value _, [] => do p.refuse (.modifyStandalone ((← get).kind value))
  | .null _, [] => p.refuse .setNullRoot

/-- Sets the value at a pointer. -/
def setValue (r : Registry) (p : Pointer) (v : Value) : Action Unit :=
  setAt r p.locale v p.visit p.above

/-! ## Removing -/

/-- Removes a slot, or one element of the list in it. -/
def removeSlot (p : Pointer) (h : Holder) (name : QName) : Action Unit := do
  match ← p.place "property" with
  | none => Action.eraseSlot h name.text
  | some i =>
    let s ← get
    match s.listId? (s.slot h name.text) with
    | some l => Action.change (·.eraseListItem l i)
    | none => if i = 0 then Action.eraseSlot h name.text else pure ()

/-- Removes a variable, or one element of the list in it. -/
def removeVariable (p : Pointer) (scope : Nat) (name : QName) : Action Unit := do
  match ← p.place "variable" with
  | none => Action.change fun s => s.setScope scope ((s.scopes.get scope).erase name.text)
  | some i =>
    let s ← get
    match s.listId? (p.base s) with
    | some l => Action.change (·.eraseListItem l i)
    | none => pure ()

/-- Removes the node of a visit below the chain `above`. -/
def removeAt (locale : Locale) (visit : Visit) (above : List Visit) : Action Unit :=
  let p : Pointer := { visit, above, locale }
  match visit.node, above with
  | .slot h name _ _, _ => p.removeSlot h name
  | .missing .., _ => pure ()
  | .var scope name _, _ => p.removeVariable scope name
  | .cell id _, _ => Action.change (·.setCell id .null)
  | .element .., _ | .markupText .., _ => do p.refuse (.noRemoval (p.path (← get)))
  | .items list _ (.element i), _ =>
    match (Index.element i).place? with
    | some i => Action.change (·.eraseListItem list i)
    | none => pure ()
  | _, parent :: above => removeAt locale parent above
  | .items .., [] => p.refuse (.removeRoot "collection")
  | .map .., [] | .bean .., [] => p.refuse (.removeRoot "object")
  | .leaf value _, [] => do p.refuse (.removeStandalone ((← get).kind value))
  | .null _, [] => pure ()

/-- Removes what a pointer points at. -/
def remove (p : Pointer) : Action Unit := removeAt p.locale p.visit p.above

/-! ## Creating -/

/-- The object that fills an empty slot: the factory's, else the bean's own, else an empty map. -/
def newObject (factory : Option ObjectFactory) (p : Pointer) (h : Holder) (name : QName) :
    Action Value := do
  let made ← match factory, p.parent? with
    | some factory, some parent => liftM (factory parent name.name p.node.index.place?)
    | _, _ => pure none
  match made, h with
  | some v, _ => pure v
  | none, .bean id =>
    match ((← get).beans.get id).makers.get? name.text with
    | some template => liftM template.fresh
    | none => pure (.map (← Action.make (·.addMap .empty)))
  | none, .map _ => pure (.map (← Action.make (·.addMap .empty)))

/-- Fills a slot that is empty. -/
def fillSlot (factory : Option ObjectFactory) (p : Pointer) (h : Holder) (name : QName) :
    Action Unit := do
  let s ← get
  if (s.unwrap (s.slot h name.text)).isNull then
    Action.putSlot h name.text (← p.newObject factory h name)

/-- Makes a slot, or one element of the list in it, exist. -/
def createSlot (factory : Option ObjectFactory) (p : Pointer) (h : Holder) (name : QName) :
    Action Unit := do
  let key := name.text
  match ← p.place "property" with
  | none => p.fillSlot factory h name
  | some i =>
    let s ← get
    let held := s.unwrap (s.slot h key)
    match held with
    | .list l => createItem l i
    | _ =>
      if i = 0 then p.fillSlot factory h name
      else if held.isNull then
        let l ← Action.make (·.addList [])
        Action.putSlot h key (.list l)
        createItem l i
      else refuseSlot (.createOutsideCollection (p.path s))
where
  createItem (l i : Nat) : Action Unit := do
    Action.change (·.padList l (i + 1))
    if (((← get).lists.get l).getD i .null).isNull then
      let v ← p.newObject factory h name
      Action.change (·.putListItem l i v)

/-- Makes an item of a list that stands alone exist. -/
def createListItem (factory : Option ObjectFactory) (p : Pointer) (list i : Nat)
    (name : Option QName) : Action Unit := do
  Action.change (·.padList list (i + 1))
  if (((← get).lists.get list).getD i .null).isNull then
    let made ← match factory with
      | some factory => liftM (factory (p.parent?.getD p) ((name.map QName.name).getD "") (some i))
      | none => pure none
    let v ← match made with
      | some v => pure v
      | none => pure (.map (← Action.make (·.addMap .empty)))
    Action.change (·.putListItem list i v)

variable (r : Registry)

/-- Makes a child of a pointer exist, with a value if one is given. -/
def createChild (factory : Option ObjectFactory) (p : Pointer) (name : QName) (index : Index)
    (v : Option Value) : Action Pointer := do
  let target ← Action.read fun s => p.valuePointer s r
  match target.node.holder? with
  | some h =>
    if let .bean id := h then
      let bean := (← get).beans.get id
      if !bean.properties.has name.text then
        throw (.bean bean.type (.unknown bean.type name.text))
    let child := p.child (← get).now (.slot h name index false)
    match v with
    | some v => child.setSlot h name v
    | none => child.createSlot factory h name
    pure child
  | none =>
    let number := match index with
      | .whole => 1
      | .element i => i + 1
    target.refuse (.noChild (p.path (← get)) name number)

/-- Makes an attribute of a pointer exist. -/
def createAttribute (p : Pointer) (name : QName) : Action Pointer := do
  let target ← Action.read fun s => p.valuePointer s r
  match target.node.holder? with
  | some h =>
    let s ← get
    if !(s.slots h).has name.text then
      match h with
      | .map id => Action.change (·.setMap id ((s.maps.get id).insert name.text .null))
      | .bean id =>
        let bean := s.beans.get id
        throw (.bean bean.type (.unknown bean.type name.text))
    pure (p.child s.now (.slot h name .whole true))
  | none => target.refuse (.noAttribute (p.path (← get)) name)

/-- Makes the node of a visit below the chain `above` exist, and the nodes above it that do
not. -/
def createAt (factory : Option ObjectFactory) (locale : Locale) (visit : Visit)
    (above : List Visit) : Action Pointer :=
  let p : Pointer := { visit, above, locale }
  match visit.node, above with
  | .missing name index isAttribute, parent :: above => do
    let parent ← createAt factory locale parent above
    if isAttribute then parent.createAttribute r name
    else parent.createChild r factory name index none
  | .slot h name _ _, _ => do
    p.createSlot factory h name
    pure p
  | .var scope name _, _ => do
    if !((← get).scopes.get scope).has name.text then throw (.undeclared name.text)
    pure p
  | .items list name _, _ => do
    if let some i ← p.place "collection" then p.createListItem factory list i name
    pure p
  | _, _ => pure p

/-- Makes the node of a pointer exist. -/
def createPath (factory : Option ObjectFactory) (p : Pointer) : Action Pointer :=
  createAt r factory p.locale p.visit p.above

/-- Makes the node of a pointer exist and sets its value. -/
def createAndSet (factory : Option ObjectFactory) (p : Pointer) (v : Value) : Action Pointer := do
  match p.node, p.parent? with
  | .missing name index isAttribute, some parent =>
    let parent ← parent.createPath r factory
    if isAttribute then
      let created ← parent.createAttribute r name
      created.setValue r v
      pure created
    else parent.createChild r factory name index (some v)
  | _, _ =>
    p.setValue r v
    pure p

end Pointer

end PathQuery
