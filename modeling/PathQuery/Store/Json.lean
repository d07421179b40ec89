import PathQuery.Number.Notation
import PathQuery.Store
import PathQuery.Text.JsonText

/-!
# JSON text

The compact JSON text of a value. Members are sorted by name, beans are objects of their
properties, cells are looked through, a foreign value is the name of its kind, and a number that
JSON cannot write is `null`.

* names: `Store.jsonText`.
-/

namespace PathQuery

/-- A JSON object with its members sorted by name. -/
def jsonObject (members : List (String × String)) : String :=
  let sorted := members.mergeSort fun a b => a.1 ≤ b.1
  "\x7b" ++ ",".intercalate (sorted.map fun (name, v) => Text.jsonQuoted name ++ ":" ++ v) ++ "\x7d"

namespace Store

/-- The JSON text of a value, `null` below `n` nested objects. -/
def jsonUpTo (s : Store) : Nat → Value → String
  | _, .null => "null"
  | _, .bool b => if b then "true" else "false"
  | _, .number x => Number.Style.json.render x
  | _, .text t => Text.jsonQuoted t
  | _, .foreign f => Text.jsonQuoted (s.foreigns.get f).kind
  | 0, _ => "null"
  | n + 1, .list l => "[" ++ ",".intercalate ((s.lists.get l).map (s.jsonUpTo n)) ++ "]"
  | n + 1, .map m => jsonObject ((s.maps.get m).entries.map fun (k, v) => (k, s.jsonUpTo n v))
  | n + 1, .bean b =>
    jsonObject ((s.beans.get b).properties.entries.map fun (k, v) => (k, s.jsonUpTo n v))
  | n + 1, .cell c => s.jsonUpTo n (s.cells.get c)

/-- The JSON text of a value whose graph has no cycle. -/
def jsonText (s : Store) (v : Value) : String := s.jsonUpTo s.objectCount v

end Store

end PathQuery
