import PathQuery.Number.Notation
import PathQuery.Store
import PathQuery.Text.Quoted

/-!
# Values in diagnostics

How values are shown in error messages: the kind of a value, then its contents. A bean inside a
bean is shown by the name of its type only.

* names: `shownList`, `Store.shown`, `Store.shownContents`.
-/

namespace PathQuery

/-- Parts between brackets. -/
def shownList (parts : List String) : String := "[" ++ ", ".intercalate parts ++ "]"

/-- Named parts of a thing of a named type. -/
def shownFields (type : String) (fields : List (String × String)) : String :=
  if fields.isEmpty then type
  else
    type ++ " \x7b " ++ ", ".intercalate (fields.map fun (name, v) => name ++ ": " ++ v) ++ " \x7d"

namespace Store

/-- A value shown to a depth of `n` nested objects. -/
def shownUpTo (s : Store) : Nat → Value → String
  | _, .null => "Null"
  | _, .bool b => if b then "Bool(true)" else "Bool(false)"
  | _, .number x => "Number(" ++ Number.Style.plain.render x ++ ")"
  | _, .text t => "String(" ++ Text.quoted t ++ ")"
  | _, .foreign f => "Foreign(" ++ (s.foreigns.get f).kind ++ ")"
  | 0, _ => "..."
  | n + 1, .list l => "List(" ++ shownList ((s.lists.get l).map (s.shownUpTo n)) ++ ")"
  | n + 1, .map m =>
    let entry := fun ((k, v) : String × Value) =>
      "(" ++ Text.quoted k ++ ", " ++ s.shownUpTo n v ++ ")"
    "Map(" ++ shownList ((s.maps.get m).entries.map entry) ++ ")"
  | n + 1, .bean b =>
    let bean := s.beans.get b
    let part (v : Value) := match v with
      | .bean inner => "<" ++ (s.beans.get inner).type ++ ">"
      | v => s.shownUpTo n v
    "Bean(" ++ shownFields bean.type (bean.properties.entries.map fun (k, v) => (k, part v)) ++ ")"
  | n + 1, .cell c => "Cell(" ++ s.shownUpTo n (s.cells.get c) ++ ")"

/-- A value whose graph has no cycle, as it is shown. -/
def shown (s : Store) (v : Value) : String := s.shownUpTo s.objectCount v

/-- The contents of a list, map, cell or foreign value, as they are shown without its kind. -/
def shownContents (s : Store) : Value → Option String
  | .list l => some (shownList ((s.lists.get l).map s.shown))
  | .map m =>
    let entries := (s.maps.get m).entries
    some ("\x7b" ++
      ", ".intercalate (entries.map fun (k, v) => Text.quoted k ++ ": " ++ s.shown v) ++ "\x7d")
  | v@(.cell _) | v@(.foreign _) => some (s.shown v)
  | _ => none

end Store

end PathQuery
