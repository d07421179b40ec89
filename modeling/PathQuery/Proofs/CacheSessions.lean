import PathQuery.Proofs.FaithfulCache

/-!
# Caches in use

Callers compile texts through a cache, keep some of the compiled paths and let go of others, ask
what is cached, and have entries given back. Through all of this the cache answers as the parser
does and stays within its capacity, whichever entries are evicted.

* names: `CacheCall`, `CacheSession`, `CacheSession.run`; `ExpressionCache.room`.
* `compile_hit`, `compile_refused`, `compile_stored`: all that compiling can do.
* **`within_run`**: the capacity is kept. **`run_transparent`**: a cache in use is transparent.
-/

namespace PathQuery

/-- What callers do with a cache. -/
inductive CacheCall where
  /-- Compiles a text; the caller may keep the compiled path. -/
  | compile (source : String) (keeps : Bool)
  | contains (source : String)
  | reclaim
  | clear
  | reset
  /-- Lets go of one of the compiled paths that callers hold, counted from the latest. -/
  | release (place : Nat)

/-- A cache with the compiled paths that callers hold, the latest first. -/
structure CacheSession where
  cache : ExpressionCache
  held : List CompiledPath := []

namespace CacheSession

/-- A new cache; nobody holds anything. -/
def start (settings : CacheSettings) (evictions : Nat → Eviction) : CacheSession where
  cache := .ofSettings settings evictions

/-- Some caller holds the expression of this identity. -/
def holds (u : CacheSession) (id : Nat) : Bool := u.held.any fun c => c.expr.id == id

/-- Compiles a text. -/
def compile (u : CacheSession) (source : String) (keeps : Bool) :
    Except SyntaxError CompiledPath × CacheSession :=
  match u.cache.compile u.holds source with
  | (.ok expr, cache) =>
    let c : CompiledPath := { source, expr }
    (.ok c, { cache, held := if keeps then c :: u.held else u.held })
  | (.error fault, cache) => (.error fault, { u with cache })

/-- Asks for the entry of a text. -/
def contains (u : CacheSession) (source : String) : Bool × CacheSession :=
  let (found, cache) := u.cache.contains u.holds source
  (found, { u with cache })

/-- Has the entries that nobody holds given back; their number. -/
def reclaim (u : CacheSession) : Nat × CacheSession :=
  let (dropped, cache) := u.cache.reclaim u.holds
  (dropped, { u with cache })

/-- The session after one more call. -/
def step (u : CacheSession) : CacheCall → CacheSession
  | .compile source keeps => (u.compile source keeps).2
  | .contains source => (u.contains source).2
  | .reclaim => u.reclaim.2
  | .clear => { u with cache := u.cache.clear }
  | .reset => { u with cache := u.cache.reset }
  | .release place => { u with held := u.held.eraseIdx place }

/-- The session after several calls. -/
def run (u : CacheSession) (calls : List CacheCall) : CacheSession := calls.foldl step u

/-- What each call keeps, all calls keep. -/
theorem run_induction {P : CacheSession → Prop} {u : CacheSession} {calls : List CacheCall}
    (hu : P u) (hstep : ∀ u, ∀ call ∈ calls, P u → P (u.step call)) : P (u.run calls) := by
  induction calls generalizing u with
  | nil => exact hu
  | cons call calls ih =>
    refine ih (hstep u call (List.mem_cons_self ..) hu) fun u call hcall => ?_
    exact hstep u call (List.mem_cons_of_mem _ hcall)

end CacheSession

/-! ## What compiling does -/

namespace ExpressionCache

variable {c d : ExpressionCache} {held : Nat → Bool} {source : String} {e : Shared Expr}

/-- The cache with one more look-up that found nothing. -/
def countMiss (c : ExpressionCache) : ExpressionCache :=
  if c.isEnabled then c.count fun n => { n with misses := n.misses + 1 } else c

/-- The cache about to store one more expression that was parsed. -/
def countParse (c : ExpressionCache) : ExpressionCache :=
  { c with fresh := c.fresh + 1 }.count fun n => { n with parseCount := n.parseCount + 1 }

theorem compile_hit (h : c.find held source = (some e, d)) :
    c.compile held source = (.ok e, d.count fun n => { n with hits := n.hits + 1 }) := by
  rw [compile, h]

theorem compile_refused {fault : SyntaxError} (h : c.find held source = (none, d))
    (hp : Grammar.parse source = .error fault) :
    c.compile held source = (.error fault, d.countMiss) := by
  rw [compile, h, countMiss]
  simp only [hp]

theorem compile_stored {value : Expr} (h : c.find held source = (none, d))
    (hp : Grammar.parse source = .ok value) :
    c.compile held source = (.ok { id := d.countMiss.fresh, value },
      d.countMiss.countParse.store source { id := d.countMiss.fresh, value }) := by
  rw [compile, h, countMiss]
  simp only [hp]
  rfl

@[simp] theorem contents_countMiss : c.countMiss.contents = c.contents := by
  rw [countMiss]
  split <;> rfl

/-- What is in a faithful cache parses, so nothing is found for a text that does not. -/
theorem find_of_refused {fault : SyntaxError} (h : c.Faithful)
    (hp : Grammar.parse source = .error fault) :
    ∃ d, c.find held source = (none, d) ∧ d.contents = c.contents := by
  have hnone : c.lookup source = none := by
    cases hl : c.lookup source with
    | none => rfl
    | some e => exact absurd ((h source e hl).symm.trans hp) nofun
  rw [lookup] at hnone
  simp only [find]
  split at hnone
  · next hc => exact ⟨c, by simp only [hc], rfl⟩
  · next m hc =>
    have hget : m.get held source = (none, m) := by
      rw [SoftMap.get, Option.map_eq_none_iff.1 hnone]
    exact ⟨{ c with contents := .soft m }, by simp only [hc, hget], hc.symm⟩
  · next t hc => exact ⟨c, by simp only [hc, hnone], rfl⟩

/-! ## Capacity -/

/-- The number of entries that there is room for. -/
def room (c : ExpressionCache) : Nat :=
  match c.contents with
  | .disabled => 0
  | .soft m => max m.limit 1
  | .bounded _ => max c.capacity 1

/-- The caches are of one kind and have room for the same number of entries. -/
def SameKind (c d : ExpressionCache) : Prop := d.isEnabled = c.isEnabled ∧ d.room = c.room

/-- The second cache is of the kind of the first, and within its capacity if that was. -/
def StaysWithin (c d : ExpressionCache) : Prop :=
  c.SameKind d ∧ (c.size ≤ c.room → d.size ≤ d.room)

theorem StaysWithin.trans {b : ExpressionCache} (h : b.StaysWithin c) (h' : c.StaysWithin d) :
    b.StaysWithin d :=
  ⟨⟨h'.1.1.trans h.1.1, h'.1.2.trans h.1.2⟩, fun hb => h'.2 (h.2 hb)⟩

theorem staysWithin_of_contents (hc : d.contents = c.contents) (hn : d.capacity = c.capacity) :
    c.StaysWithin d := by
  have hroom : d.room = c.room := by simp only [room, hc, hn]
  have hsize : d.size = c.size := by simp only [size, hc]
  exact ⟨⟨by simp only [isEnabled, hc], hroom⟩, fun h => hroom ▸ hsize ▸ h⟩

theorem staysWithin_count (f : Statistics → Statistics) : c.StaysWithin (c.count f) :=
  staysWithin_of_contents rfl rfl

theorem staysWithin_countMiss : c.StaysWithin c.countMiss := by
  refine staysWithin_of_contents contents_countMiss ?_
  rw [countMiss]
  split <;> rfl

/-- The entries of a soft map have changed, and there are no more than there is room for. -/
theorem staysWithin_soft {m m' : SoftMap Expr} (hc : c.contents = .soft m)
    (hd : d.contents = .soft m') (hlimit : m'.limit = m.limit)
    (hsize : m.size ≤ max m.limit 1 → m'.size ≤ max m'.limit 1) : c.StaysWithin d := by
  refine ⟨⟨by simp only [isEnabled, hc, hd], by simp only [room, hc, hd, hlimit]⟩, ?_⟩
  simpa only [size, room, hc, hd] using hsize

/-- The entries of a bounded table have changed, and there are no more than there is room for. -/
theorem staysWithin_bounded {t t' : Table (Shared Expr)} (hc : c.contents = .bounded t)
    (hd : d.contents = .bounded t') (hcapacity : d.capacity = c.capacity)
    (hsize : t.size ≤ max c.capacity 1 → t'.size ≤ max c.capacity 1) : c.StaysWithin d := by
  refine ⟨⟨by simp only [isEnabled, hc, hd], by simp only [room, hc, hd, hcapacity]⟩, ?_⟩
  simpa only [size, room, hc, hd, hcapacity] using hsize

theorem size_get_le (m : SoftMap Expr) : (m.get held source).2.size ≤ m.size := by
  rw [SoftMap.get]
  split
  · exact Nat.le_refl _
  · next slot hslot =>
    have hk : m.entries.has source := Table.has_iff_get?.2 ⟨_, hslot⟩
    split
    · simp [SoftMap.size, Table.size_insert, hk]
    · simp only [SoftMap.size, Table.size, Table.erase]
      exact List.length_filter_le ..

theorem limit_get (m : SoftMap Expr) : (m.get held source).2.limit = m.limit := by
  rw [SoftMap.get]
  split
  · rfl
  · split <;> rfl

theorem staysWithin_find : c.StaysWithin (c.find held source).2 := by
  rw [find]
  split
  · exact staysWithin_of_contents rfl rfl
  · next m hc =>
    refine staysWithin_soft hc rfl (limit_get m) fun h => ?_
    have hsize : (m.get held source).2.size ≤ m.size := size_get_le m
    rw [limit_get]
    omega
  · exact staysWithin_of_contents rfl rfl

theorem staysWithin_store : c.StaysWithin (c.store source e) := by
  rw [store]
  split
  · exact staysWithin_of_contents rfl rfl
  · next m hc =>
    exact staysWithin_soft hc rfl rfl fun h => Table.size_insertBounded_le h ..
  · next t hc =>
    exact staysWithin_bounded hc rfl rfl fun h => Table.size_insertBounded_le h ..

theorem staysWithin_compile : c.StaysWithin (c.compile held source).2 := by
  have hfind : c.StaysWithin (c.find held source).2 := staysWithin_find
  rcases hf : c.find held source with ⟨_ | e, d⟩
  · rw [hf] at hfind
    cases hp : Grammar.parse source with
    | error fault =>
      rw [compile_refused hf hp]
      exact hfind.trans staysWithin_countMiss
    | ok value =>
      rw [compile_stored hf hp]
      have hparse : d.countMiss.StaysWithin d.countMiss.countParse :=
        staysWithin_of_contents rfl rfl
      exact ((hfind.trans staysWithin_countMiss).trans hparse).trans staysWithin_store
  · rw [hf] at hfind
    rw [compile_hit hf]
    exact hfind.trans (staysWithin_count _)

theorem staysWithin_clear : c.StaysWithin c.clear := by
  obtain ⟨_ | m | t, capacity, statistics, fresh, evictions⟩ := c <;>
    exact ⟨⟨rfl, rfl⟩, fun _ => Nat.zero_le _⟩

theorem staysWithin_reset : c.StaysWithin c.reset := staysWithin_clear.trans (staysWithin_count _)

theorem staysWithin_reclaim : c.StaysWithin (c.reclaim held).2 := by
  rw [reclaim]
  split
  · next m hc =>
    have hsize : (m.reclaim held).2.size ≤ m.size := by
      simp only [SoftMap.reclaim, SoftMap.size, Table.size, Table.filter, Table.map]
      exact Nat.le_trans (List.length_filter_le ..) (Nat.le_of_eq (List.length_map ..))
    have hm : c.StaysWithin { c with contents := .soft (m.reclaim held).2 } :=
      staysWithin_soft hc rfl rfl fun h => Nat.le_trans hsize h
    dsimp only
    split
    · exact hm
    · exact hm.trans (staysWithin_count _)
  · exact staysWithin_of_contents rfl rfl

/-! ## Finding what was compiled -/

/-- What is found is kept, so it is found again, whoever holds it by then. -/
theorem find_again {held' : Nat → Bool} (h : c.find held source = (some e, d)) :
    (d.find held' source).1 = some e := by
  simp only [find] at h
  split at h
  · simp at h
  · next m hc =>
    simp only [SoftMap.get] at h
    split at h
    · simp at h
    · next slot hslot =>
      split at h <;> simp only [Prod.mk.injEq, Option.some.injEq, reduceCtorEq, false_and] at h
      obtain ⟨rfl, rfl⟩ := h
      simp [find, SoftMap.get, Slot.isLive, Slot.shared]
  · next t hc =>
    obtain ⟨ht, rfl⟩ := Prod.mk.injEq .. ▸ h
    simp [find, hc, ht]

theorem find_count (f : Statistics → Statistics) :
    ((c.count f).find held source).1 = (c.find held source).1 := by
  obtain ⟨_ | m | t, capacity, statistics, fresh, evictions⟩ := c <;> rfl

/-- What is stored is found, whatever was evicted for it. -/
theorem find_store (h : c.isEnabled) : ((c.store source e).find held source).1 = some e := by
  rw [store]
  split
  · next hc => simp [isEnabled, hc] at h
  · simp [find, reportSize, count, SoftMap.get, SoftMap.insert, Slot.isLive, Slot.shared]
  · simp [find, reportSize, count]

theorem contains_eq : (c.contains held source).1 = (c.find held source).1.isSome := rfl

/-- A text that was compiled without fault is there. -/
theorem contains_compile {held' : Nat → Bool} (henabled : c.isEnabled)
    (he : (c.compile held source).1 = .ok e) :
    ((c.compile held source).2.contains held' source).1 = true := by
  rcases hf : c.find held source with ⟨_ | e', d⟩
  · have hd : c.StaysWithin d := by
      have hfind : c.StaysWithin (c.find held source).2 := staysWithin_find
      rwa [hf] at hfind
    have hparse : d.countMiss.StaysWithin d.countMiss.countParse := staysWithin_of_contents rfl rfl
    have hon : d.countMiss.countParse.isEnabled :=
      ((hd.trans staysWithin_countMiss).trans hparse).1.1.trans henabled
    cases hp : Grammar.parse source with
    | error fault => simp [compile_refused hf hp] at he
    | ok value =>
      rw [compile_stored hf hp, contains_eq]
      exact congrArg Option.isSome (find_store hon)
  · rw [compile_hit hf, contains_eq, find_count, find_again hf, Option.isSome_some]

end ExpressionCache

/-! ## Sessions -/

namespace CacheSession

open ExpressionCache (StaysWithin)

variable {u : CacheSession} {source : String} {keeps : Bool}

theorem compile_cache : (u.compile source keeps).2.cache = (u.cache.compile u.holds source).2 := by
  rw [compile]
  split <;> simp_all

theorem compile_expr :
    (u.compile source keeps).1.map (fun c => c.expr) = (u.cache.compile u.holds source).1 := by
  rw [compile]
  split <;> simp_all [Except.map]

/-- A call does one thing to the cache, or nothing. -/
theorem step_cache (u : CacheSession) (call : CacheCall) :
    (u.step call).cache = match call with
      | .compile source _ => (u.cache.compile u.holds source).2
      | .contains source => (u.cache.contains u.holds source).2
      | .reclaim => (u.cache.reclaim u.holds).2
      | .clear => u.cache.clear
      | .reset => u.cache.reset
      | .release _ => u.cache := by
  cases call with
  | compile source keeps => exact compile_cache
  | _ => rfl

/-- A cache in use has become what it is by calls. -/
theorem reached_run (settings : CacheSettings) (evictions : Nat → Eviction)
    (calls : List CacheCall) : ((start settings evictions).run calls).cache.Reached := by
  refine run_induction (P := fun u => u.cache.Reached) (.made settings) fun u call _ hu => ?_
  rw [step_cache]
  cases call with
  | compile source => exact .compile hu u.holds source
  | contains source => exact .contains hu u.holds source
  | reclaim => exact .reclaim hu u.holds
  | clear => exact .clear hu
  | reset => exact .reset hu
  | release => exact hu

theorem staysWithin_step (u : CacheSession) (call : CacheCall) :
    u.cache.StaysWithin (u.step call).cache := by
  rw [step_cache]
  cases call with
  | compile => exact ExpressionCache.staysWithin_compile
  | contains => exact ExpressionCache.staysWithin_find
  | reclaim => exact ExpressionCache.staysWithin_reclaim
  | clear => exact ExpressionCache.staysWithin_clear
  | reset => exact ExpressionCache.staysWithin_reset
  | release => exact ExpressionCache.staysWithin_of_contents rfl rfl

end CacheSession

/-- The number of entries that the settings leave room for: there is always room for one, unless
the cache is disabled. -/
def CacheSettings.room (settings : CacheSettings) : Nat :=
  if settings.enabled then max settings.capacity 1 else 0

namespace CacheSession

open ExpressionCache (StaysWithin)

/-- The cache is of the kind that the settings say, and within their capacity. -/
structure Within (settings : CacheSettings) (c : ExpressionCache) : Prop where
  isEnabled : c.isEnabled = settings.enabled
  room : c.room = settings.room
  size : c.size ≤ c.room

theorem Within.of_staysWithin {settings : CacheSettings} {c d : ExpressionCache}
    (h : Within settings c) (hd : c.StaysWithin d) : Within settings d where
  isEnabled := hd.1.1.trans h.isEnabled
  room := hd.1.2.trans h.room
  size := hd.2 h.size

theorem within_ofSettings (settings : CacheSettings) (evictions : Nat → Eviction) :
    Within settings (.ofSettings settings evictions) := by
  obtain ⟨_ | _, capacity, _ | _⟩ := settings <;> exact ⟨rfl, rfl, Nat.zero_le _⟩

/-- A cache in use stays within its capacity. -/
theorem within_run (settings : CacheSettings) (evictions : Nat → Eviction)
    (calls : List CacheCall) :
    Within settings ((start settings evictions).run calls).cache :=
  run_induction (P := fun u => Within settings u.cache) (within_ofSettings settings evictions)
    fun u call _ hu => hu.of_staysWithin (staysWithin_step u call)

/-- The cache answers as the parser does and keeps to its settings. -/
structure Transparent (settings : CacheSettings) (u : CacheSession) : Prop where
  /-- Compiling a text is parsing it. -/
  compile_eq (source : String) (keeps : Bool) :
    (u.compile source keeps).1.map (fun c => c.expr.value) = Grammar.parse source
  /-- Every entry is what its text parses to. -/
  entry_eq (source : String) (e : Shared Expr) (he : u.cache.lookup source = some e) :
    Grammar.parse source = .ok e.value
  /-- The capacity bounds the entries; a cache that is disabled has none. -/
  size_le : u.cache.size ≤ settings.room
  /-- A text that was compiled without fault is there, in a cache that is enabled. -/
  contains_compiled (source : String) (keeps : Bool) (c : CompiledPath)
    (henabled : settings.enabled = true) (hc : (u.compile source keeps).1 = .ok c) :
    ((u.compile source keeps).2.contains source).1 = true
  /-- Compiling a text that does not parse adds no entry and costs none. -/
  contents_refused (source : String) (keeps : Bool) (fault : SyntaxError)
    (hfault : (u.compile source keeps).1 = .error fault) :
    (u.compile source keeps).2.cache.contents = u.cache.contents

/-- **A cache in use is transparent and bounded**, whichever entries are evicted. -/
theorem run_transparent (settings : CacheSettings) (evictions : Nat → Eviction)
    (calls : List CacheCall) :
    ((start settings evictions).run calls).Transparent settings := by
  have hfaithful := (reached_run settings evictions calls).faithful
  have hwithin := within_run settings evictions calls
  generalize (start settings evictions).run calls = u at hfaithful hwithin
  have hentry (source : String) (keeps : Bool) : (u.compile source keeps).1.map (fun c => c.expr) =
      (u.cache.compile u.holds source).1 := compile_expr
  have hcompile (source : String) (keeps : Bool) :
      (u.compile source keeps).1.map (fun c => c.expr.value) = Grammar.parse source := by
    have hparse : (u.cache.compile u.holds source).1.map Shared.value = Grammar.parse source :=
      ExpressionCache.compile_of_faithful hfaithful
    rw [← hparse, ← hentry source keeps]
    cases (u.compile source keeps).1 <;> rfl
  refine ⟨hcompile, hfaithful, ?_, ?_, ?_⟩
  · exact hwithin.room ▸ hwithin.size
  · intro source keeps c henabled hc
    have hexpr : (u.cache.compile u.holds source).1 = .ok c.expr := by
      rw [← hentry source keeps, hc]
      rfl
    rw [contains, compile_cache]
    exact ExpressionCache.contains_compile (hwithin.isEnabled.trans henabled) hexpr
  · intro source keeps fault hfault
    have hparse : Grammar.parse source = .error fault := by
      rw [← hcompile source keeps, hfault]
      rfl
    obtain ⟨d, hd, hcontents⟩ : ∃ d, u.cache.find u.holds source = (none, d) ∧
        d.contents = u.cache.contents := ExpressionCache.find_of_refused hfaithful hparse
    rw [compile_cache, ExpressionCache.compile_refused hd hparse,
      ExpressionCache.contents_countMiss, hcontents]

end CacheSession

end PathQuery
