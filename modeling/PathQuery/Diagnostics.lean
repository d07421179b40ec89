import PathQuery.Context

/-!
# Diagnostics

How contexts and engines are shown in diagnostics: the name of the type, then its parts.

* names: `Registry.shown`, `Engine.shown`, `Context.shown`, `CompiledPath.shown`.
-/

namespace PathQuery

/-- A locale as it is shown. -/
def Locale.shown (locale : Locale) : String := "Locale(" ++ Text.quoted locale.tag ++ ")"

/-- A registry as it is shown: the orders of its factories. -/
def Registry.shown (r : Registry) : String :=
  shownFields "PointerRegistry" [("orders", shownList (r.orders.map toString))]

/-- Cache settings as they are shown. -/
def CacheSettings.shown (c : CacheSettings) : String :=
  shownFields "CacheConfig" [
    ("enabled", boolText c.enabled),
    ("capacity", toString c.capacity),
    ("mode", match c.mode with
      | .soft => "Soft"
      | .bounded => "Bounded")]

/-- Settings as they are shown. -/
def Settings.shown (c : Settings) : String :=
  shownFields "EngineConfig"
    [("cache", c.cache.shown), ("lenient", boolText c.lenient), ("locale", c.locale.shown)]

/-- An engine as it is shown. -/
def Engine.shown (e : Engine) : String :=
  shownFields "PathEngine" [
    ("config", e.settings.shown),
    ("registry", e.registry.shown),
    ("cached", toString e.cache.size)]

/-- An environment as it is shown. -/
def Environment.shown (s : Store) (env : Environment) : String :=
  shownFields "Environment" [
    ("root", env.root.shown s),
    ("locale", env.locale.shown),
    ("lenient", boolText env.lenient),
    ("has_parent", boolText (!env.outer.isEmpty))]

/-- A context as it is shown. -/
def Context.shown (s : Store) (ctx : Context) : String :=
  shownFields "QueryContext" [("context", ctx.here.shown s), ("env", ctx.env.shown s)]

/-- A compiled path as it is shown. -/
def CompiledPath.shown (c : CompiledPath) : String := "CompiledPath(" ++ Text.quoted c.source ++ ")"

end PathQuery
