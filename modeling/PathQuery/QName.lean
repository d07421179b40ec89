/-!
# Qualified names

A name with an optional qualifier, written `qualifier:name`. As a node test the name `*` stands for
any name.

* names: `QName`, `QName.ofString`, `QName.text`, `QName.isWildcard`, `QName.compare`.
-/

namespace PathQuery

/-- A name with an optional qualifier. -/
structure QName where
  qualifier : Option String
  name : String
deriving DecidableEq, Inhabited

namespace QName

/-- A name without a qualifier. -/
def bare (name : String) : QName := ⟨none, name⟩

/-- Splits at the first colon; a text without a colon has no qualifier. -/
def ofString (s : String) : QName :=
  match s.toList.span (· != ':') with
  | (_, []) => ⟨none, s⟩
  | (qualifier, _ :: name) => ⟨some (String.ofList qualifier), String.ofList name⟩

/-- The written form. -/
def text (q : QName) : String :=
  match q.qualifier with
  | some qualifier => qualifier ++ ":" ++ q.name
  | none => q.name

/-- The name stands for any name. -/
def isWildcard (q : QName) : Bool := q.name == "*"

/-- Names without a qualifier come first, then by qualifier, then by name. -/
def compare (a b : QName) : Ordering :=
  let qualifiers : Ordering := match a.qualifier, b.qualifier with
    | none, none => .eq
    | none, some _ => .lt
    | some _, none => .gt
    | some x, some y => Ord.compare x y
  qualifiers.then (Ord.compare a.name b.name)

end QName

end PathQuery
