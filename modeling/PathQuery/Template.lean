import PathQuery.QName

/-!
# Templates

A template describes a value, objects and sharing included, from which any number of fresh copies
can be made. A label names the object that a part of the template becomes, so that other parts, the
contents of that object among them, can refer to it.

* names: `Markup`, `Template`.
-/

namespace PathQuery

/-- A read-only tree of elements with namespace bindings, attributes and text. -/
inductive Markup where
  | element (name : QName) (bindings : List (String × String)) (defaultUri : Option String)
      (attributes : List (QName × String)) (text : Option String) (children : List Markup)

/-- A description of a fresh value. -/
inductive Template where
  | null
  | bool (b : Bool)
  | number (x : Float)
  | text (s : String)
  | list (items : List Template)
  /-- A repeated name keeps its first place and its last value. -/
  | map (entries : List (String × Template))
  | cell (content : Template)
  /-- A bean of type `type`. The names in `nested` are declared too, and a fresh value is made for
  them when a path is created through them; those in `readOnly` cannot be assigned; those in `typed`
  take values of one kind only. -/
  | bean (type : String) (properties nested : List (String × Template)) (readOnly : List String)
      (typed : List (String × String))
  | foreign (kind : String)
  | markup (tree : Markup)
  /-- The value labelled `label`, null if there is none. -/
  | ref (label : String)
  | labelled (label : String) (t : Template)

instance : Inhabited Markup := ⟨.element default [] none [] none []⟩
instance : Inhabited Template := ⟨.null⟩

end PathQuery
