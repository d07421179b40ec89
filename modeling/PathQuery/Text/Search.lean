/-!
# Search

The first occurrence of one text in another, and the two parts beside it.

* names: `splitFirst`, `occursIn`, `before`, `after`.
-/

namespace PathQuery.Text

/-- The texts before and after the first occurrence of `needle`. -/
def splitFirst (needle : List Char) : List Char → Option (List Char × List Char)
  | [] => if needle.isEmpty then some ([], []) else none
  | c :: cs =>
    if needle.isPrefixOf (c :: cs) then some ([], (c :: cs).drop needle.length)
    else (splitFirst needle cs).map fun (left, right) => (c :: left, right)

/-- `needle` occurs in the text. -/
def occursIn (needle text : List Char) : Bool := (splitFirst needle text).isSome

/-- The text before the first occurrence of `needle`, empty if there is none. -/
def before (needle text : List Char) : List Char :=
  ((splitFirst needle text).map Prod.fst).getD []

/-- The text after the first occurrence of `needle`, empty if there is none. -/
def after (needle text : List Char) : List Char :=
  ((splitFirst needle text).map Prod.snd).getD []

end PathQuery.Text
