import PathQuery.Text.Upper

/-!
# Locales

A language tag such as `en` or `en-US`; an underscore counts as a hyphen.

* names: `Locale`, `Locale.isLanguage`.
-/

namespace PathQuery

/-- A language tag. -/
structure Locale where
  tag : String := "en"
deriving DecidableEq, Inhabited

/-- The locale is `lang` or one of its sub-languages, whatever the case of their letters. -/
def Locale.isLanguage (locale : Locale) (lang : String) : Bool :=
  let tag := locale.tag.toList.map fun c => if c == '_' then '-' else c
  (Text.upper lang.toList).isPrefixOf (Text.upper tag)

end PathQuery
