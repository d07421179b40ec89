import PathQuery.Locale
import PathQuery.Text.Blank

/-!
# Settings

The settings of an engine, with defaults that named texts may override.

* names: `Reclamation`, `CacheSettings`, `Settings`, `Settings.ofLookup`.
-/

namespace PathQuery

/-- How the expression cache gives entries back. -/
inductive Reclamation where
  /-- Entries nobody holds are given back on request; the capacity bounds the rest. -/
  | soft
  /-- Entries stay until the capacity is reached; one is then dropped for each new one. -/
  | bounded
deriving DecidableEq, Inhabited

/-- The settings of the expression cache. -/
structure CacheSettings where
  /-- Without a cache every look-up compiles anew and nothing is kept. -/
  enabled : Bool := true
  capacity : Nat := 200000
  mode : Reclamation := .soft
deriving DecidableEq

/-- The settings of an engine. -/
structure Settings where
  cache : CacheSettings := {}
  /-- New contexts answer nothing where strict ones fail because there is no value. -/
  lenient : Bool := false
  locale : Locale := {}
deriving DecidableEq

/-- The text says yes: it is `true` in any case of its letters, blanks around it ignored. -/
def saysTrue (s : String) : Bool :=
  (Text.trim s.toList).map Char.toLower == "true".toList

/-- The unsigned 64-bit number that a text is, with an optional plus sign and blanks around it. -/
def parseCount? (s : String) : Option Nat :=
  let unsigned := match Text.trim s.toList with
    | '+' :: digits => digits
    | digits => digits
  if unsigned.isEmpty || !unsigned.all Char.isDigit then none
  else
    let n := unsigned.foldl (fun n c => 10 * n + (c.toNat - '0'.toNat)) 0
    if n < Nat.pow 2 64 then some n else none

/-- The defaults, overridden by the texts found under `CACHE_ENABLED`, `CACHE_SIZE` and
`CACHE_SOFT`. A size that is no number is ignored. -/
def Settings.ofLookup (lookup : String → Option String) : Settings :=
  let enabled := ((lookup "CACHE_ENABLED").map saysTrue).getD true
  let capacity := ((lookup "CACHE_SIZE").bind parseCount?).getD 200000
  let mode := match lookup "CACHE_SOFT" with
    | some s => if saysTrue s then .soft else .bounded
    | none => .soft
  { cache := { enabled, capacity, mode } }

end PathQuery
