import PathQuery.Cache.SoftMap
import PathQuery.Settings
import PathQuery.Syntax.Grammar

/-!
# The expression cache

Compiled expressions by their source text, with counters that say what the cache does.

* names: `Statistics`, `CacheContents`, `ExpressionCache`; `compile`, `contains`, `clear`, `reset`,
  `reclaim`, `keys`, `export`.
* **A text that does not parse is never stored**, and what is found is what was compiled: a hit
  returns the very object that an earlier call returned.
-/

namespace PathQuery

/-- Counters of a cache. -/
structure Statistics where
  /-- The number of entries after the last change that the cache reports. -/
  cacheSize : Nat := 0
  hits : Nat := 0
  misses : Nat := 0
  /-- Insertions that found the cache full. -/
  limitExceeded : Nat := 0
  parseCount : Nat := 0
deriving DecidableEq

/-- The entries of a cache. -/
inductive CacheContents where
  | disabled
  | soft (m : SoftMap Expr)
  | bounded (t : Table (Shared Expr))

/-- Compiled expressions by source text. -/
structure ExpressionCache where
  contents : CacheContents
  capacity : Nat
  statistics : Statistics := {}
  /-- The identity of the next expression compiled. -/
  fresh : Nat := 0
  /-- Which entry goes if there is no room for an expression, by the identity of that expression. -/
  evictions : Nat → Eviction := fun _ => .oldest

namespace ExpressionCache

/-- An empty cache. -/
def ofSettings (c : CacheSettings) (evictions : Nat → Eviction := fun _ => .oldest) :
    ExpressionCache where
  contents :=
    if c.enabled then
      match c.mode with
      | .soft => .soft { limit := c.capacity }
      | .bounded => .bounded .empty
    else .disabled
  capacity := c.capacity
  evictions

/-- The cache stores what it compiles. -/
def isEnabled (c : ExpressionCache) : Bool :=
  match c.contents with
  | .disabled => false
  | _ => true

/-- The number of entries. -/
def size (c : ExpressionCache) : Nat :=
  match c.contents with
  | .disabled => 0
  | .soft m => m.size
  | .bounded t => t.size

/-- The source texts of the entries. -/
def keys (c : ExpressionCache) : List String :=
  match c.contents with
  | .disabled => []
  | .soft m => m.keys
  | .bounded t => t.keys

/-- The entry of a text. -/
def find (c : ExpressionCache) (held : Nat → Bool) (source : String) :
    Option (Shared Expr) × ExpressionCache :=
  match c.contents with
  | .disabled => (none, c)
  | .soft m =>
    let (found, m) := m.get held source
    (found, { c with contents := .soft m })
  | .bounded t => (t.get? source, c)

/-- The cache with its counters changed. -/
def count (c : ExpressionCache) (f : Statistics → Statistics) : ExpressionCache :=
  { c with statistics := f c.statistics }

/-- The cache with the size that it reports brought up to date. -/
def reportSize (c : ExpressionCache) : ExpressionCache :=
  c.count fun n => { n with cacheSize := c.size }

/-- Stores an entry. -/
def store (c : ExpressionCache) (source : String) (e : Shared Expr) : ExpressionCache :=
  let stored (evicted : Bool) (contents : CacheContents) : ExpressionCache :=
    let exceeded := if evicted then 1 else 0
    ({ c with contents }.count fun n =>
      { n with limitExceeded := n.limitExceeded + exceeded }).reportSize
  match c.contents with
  | .disabled => c
  | .soft m =>
    let (evicted, m) := m.insert source e (c.evictions e.id)
    stored evicted (.soft m)
  | .bounded t =>
    let (evicted, t) := t.insertBounded c.capacity source e (c.evictions e.id)
    stored evicted (.bounded t)

/-- The expression of a text, compiled if the cache does not have it. -/
def compile (c : ExpressionCache) (held : Nat → Bool) (source : String) :
    Except SyntaxError (Shared Expr) × ExpressionCache :=
  match c.find held source with
  | (some e, c) => (.ok e, c.count fun n => { n with hits := n.hits + 1 })
  | (none, c) =>
    let c := if c.isEnabled then c.count fun n => { n with misses := n.misses + 1 } else c
    match Grammar.parse source with
    | .error e => (.error e, c)
    | .ok value =>
      let e : Shared Expr := { id := c.fresh, value }
      let c := { c with fresh := c.fresh + 1 }
      let c := c.count fun n => { n with parseCount := n.parseCount + 1 }
      (.ok e, c.store source e)

/-- The cache has an entry for a text. -/
def contains (c : ExpressionCache) (held : Nat → Bool) (source : String) :
    Bool × ExpressionCache :=
  let (found, c) := c.find held source
  (found.isSome, c)

/-- Drops all entries. -/
def clear (c : ExpressionCache) : ExpressionCache :=
  let contents := match c.contents with
    | .disabled => .disabled
    | .soft m => .soft m.clear
    | .bounded _ => .bounded .empty
  { c with contents }.count fun n => { n with cacheSize := 0 }

/-- Sets all counters to zero. -/
def resetStatistics (c : ExpressionCache) : ExpressionCache := c.count fun _ => {}

/-- Drops all entries and sets all counters to zero. -/
def reset (c : ExpressionCache) : ExpressionCache := c.clear.resetStatistics

/-- Drops the soft entries that nobody holds; their number. -/
def reclaim (c : ExpressionCache) (held : Nat → Bool) : Nat × ExpressionCache :=
  match c.contents with
  | .soft m =>
    let (dropped, m) := m.reclaim held
    let c := { c with contents := .soft m }
    (dropped, if dropped = 0 then c else c.reportSize)
  | _ => (0, c)

/-- The text of an export: a line for each entry, then their number. -/
def exported (c : ExpressionCache) : String :=
  String.join ((c.keys ++ ["Size: " ++ toString c.size]).map fun line => line ++ "\n")

end ExpressionCache

end PathQuery
