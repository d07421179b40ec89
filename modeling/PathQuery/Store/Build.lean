import PathQuery.Store

/-!
# Building templates

A template becomes a value by adding its objects to a store. An object is added, and its label
bound, before its contents are built, so contents can refer to the object that holds them.

* names: `Draft`, `Template.build`, `Template.fresh`.
-/

namespace PathQuery

/-- A store under construction, with the labels bound so far. -/
structure Draft where
  store : Store := {}
  labels : List (String × Value) := []

namespace Draft

/-- Adds to the store. -/
def add {α : Type} (f : Store → α × Store) : StateM Draft α :=
  modifyGet fun d => let (a, store) := f d.store; (a, { d with store })

/-- Changes the store. -/
def edit (f : Store → Store) : StateM Draft Unit := modify fun d => { d with store := f d.store }

/-- Binds a label; the latest binding of a label counts. -/
def bind (label : Option String) (v : Value) : StateM Draft Unit :=
  match label with
  | some label => modify fun d => { d with labels := (label, v) :: d.labels }
  | none => pure ()

end Draft

mutual

/-- Adds the nodes of a tree as foreign values. -/
def Markup.build : Markup → StateM Draft Nat
  | .element name bindings defaultUri attributes text children => do
    let children ← Markup.buildAll children
    let node := { name, bindings, defaultUri, attributes, text, children }
    Draft.add (·.addForeign { kind := "element", element := some node })

/-- Adds the nodes of several trees. -/
def Markup.buildAll : List Markup → StateM Draft (List Nat)
  | [] => pure []
  | m :: ms => do
    let id ← m.build
    let ids ← Markup.buildAll ms
    pure (id :: ids)

end

mutual

/-- Builds the value of a template and binds it to a label. -/
def Template.build : Template → Option String → StateM Draft Value
  | .null, label => do Draft.bind label .null; pure .null
  | .bool b, label => do Draft.bind label (.bool b); pure (.bool b)
  | .number x, label => do Draft.bind label (.number x); pure (.number x)
  | .text s, label => do Draft.bind label (.text s); pure (.text s)
  | .list items, label => do
    let id ← Draft.add (·.addList [])
    Draft.bind label (.list id)
    let items ← Template.buildAll items
    Draft.edit (·.setList id items)
    pure (.list id)
  | .map entries, label => do
    let id ← Draft.add (·.addMap .empty)
    Draft.bind label (.map id)
    let entries ← Template.buildFields entries
    Draft.edit (·.setMap id (Table.ofList entries))
    pure (.map id)
  | .cell content, label => do
    let id ← Draft.add (·.addCell .null)
    Draft.bind label (.cell id)
    let content ← content.build none
    Draft.edit (·.setCell id content)
    pure (.cell id)
  | .bean type properties nested readOnly typed, label => do
    let id ← Draft.add (·.addBean { type })
    Draft.bind label (.bean id)
    let given := Table.ofList (← Template.buildFields properties)
    let properties := nested.foldl (fun t (p, _) => if t.has p then t else t.insert p .null) given
    let makers := Table.ofList nested
    Draft.edit (·.setBean id { type, properties, makers, readOnly, typed })
    pure (.bean id)
  | .foreign kind, label => do
    let id ← Draft.add (·.addForeign { kind })
    Draft.bind label (.foreign id)
    pure (.foreign id)
  | .markup tree, label => do
    let id ← tree.build
    Draft.bind label (.foreign id)
    pure (.foreign id)
  | .ref name, label => do
    let v := ((← get).labels.lookup name).getD .null
    Draft.bind label v
    pure v
  | .labelled name t, _ => t.build (some name)

/-- Builds the values of a list of templates in order. -/
def Template.buildAll : List Template → StateM Draft (List Value)
  | [] => pure []
  | t :: ts => do
    let v ← t.build none
    let vs ← Template.buildAll ts
    pure (v :: vs)

/-- Builds named values in order. -/
def Template.buildFields : List (String × Template) → StateM Draft (List (String × Value))
  | [] => pure []
  | (name, t) :: ts => do
    let v ← t.build none
    let vs ← Template.buildFields ts
    pure ((name, v) :: vs)

end

/-- A fresh copy of a template, with no label bound before. -/
def Template.fresh (t : Template) : StateM Store Value := fun store =>
  let (v, d) := (t.build none).run { store }
  (v, d.store)

end PathQuery
