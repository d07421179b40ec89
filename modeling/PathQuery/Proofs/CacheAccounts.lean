import PathQuery.Proofs.CacheSessions

/-!
# The accounts of a cache

Callers compile texts through a cache that is enabled and never asked to give entries back. Its
counters then add up: a call is a hit or a miss, a miss is parsed if its text parses, and what was
parsed is still there or had to go when the cache was full, one entry for each that came.

* names: `ExpressionCache.Balanced`, `CacheCall.text?`, `CacheSession.missed`.
* `size_insertBounded_add`, `size_store_add`: an entry that comes costs at most one.
* `Balanced.compile`: compiling keeps a cache balanced. **`run_accounts`**: the counters add up,
  whichever entries are evicted.
-/

namespace PathQuery

namespace Table

universe u

variable {α : Type u} {t : Table α} {k : String} {v : α}

theorem put_of_lookup {l : List (String × α)} (h : l.lookup k = some v) : put k v l = l := by
  induction l with
  | nil => simp at h
  | cons e l ih =>
    obtain ⟨k₀, w⟩ := e
    by_cases hk : k₀ = k
    · subst hk
      simp only [List.lookup_cons_self, Option.some.injEq] at h
      simp [put, h]
    · have hb : (k == k₀) = false := beq_eq_false_iff_ne.2 fun e => hk e.symm
      rw [List.lookup_cons, hb] at h
      rw [put, if_neg hk, ih h]

/-- To bind a name to its value changes nothing. -/
theorem insert_of_get? (h : t.get? k = some v) : t.insert k v = t := by
  obtain ⟨l, hl⟩ := t
  simp only [insert, Table.mk.injEq]
  exact put_of_lookup h

theorem has_evict (choice : Eviction) (n : Nat) (h : t.has k = false) :
    (t.evict choice n).has k = false := by
  rw [Bool.eq_false_iff, ne_eq, has_iff_get?] at h ⊢
  exact fun ⟨w, hw⟩ => h ⟨w, get?_evict hw⟩

/-- **A new name costs at most one other**: none goes as long as there is room. -/
theorem size_insertBounded_add {limit : Nat} (hk : t.has k = false) (h : t.size ≤ max limit 1)
    (choice : Eviction) :
    (t.insertBounded limit k v choice).2.size
      + (if (t.insertBounded limit k v choice).1 then 1 else 0) = t.size + 1 := by
  simp only [insertBounded, hk, Bool.false_eq_true, if_false, size_insert, has_evict choice _ hk,
    size_evict, bne_iff_ne, ne_eq]
  split <;> omega

end Table

namespace ExpressionCache

variable {c d : ExpressionCache} {held : Nat → Bool} {source : String} {e : Shared Expr}

/-- No entry is only remembered. -/
def KeepsAll (c : ExpressionCache) : Prop :=
  ∀ m k slot, c.contents = .soft m → m.entries.get? k = some slot → slot = .kept slot.shared

/-- Looking up changes nothing where every entry is kept. -/
theorem KeepsAll.find (h : c.KeepsAll) : (c.find held source).2 = c := by
  rw [ExpressionCache.find]
  split
  · rfl
  · next m hc =>
    have hget : (m.get held source).2 = m := by
      rw [SoftMap.get]
      split
      · rfl
      · next slot hslot =>
        have hkept : slot = .kept slot.shared := h m source slot hc hslot
        have hlive : slot.isLive held := by rw [hkept]; rfl
        rw [if_pos hlive, ← hkept, Table.insert_of_get? hslot]
    simp only [hget, ← hc]
  · rfl

theorem KeepsAll.of_contents (h : c.KeepsAll) (hd : d.contents = c.contents) : d.KeepsAll :=
  fun m k slot hm => h m k slot (hd ▸ hm)

/-- What is not found is not there. -/
theorem KeepsAll.lookup_eq_none (h : c.KeepsAll) (hf : (c.find held source).1 = none) :
    c.lookup source = none := by
  rw [ExpressionCache.find] at hf
  rw [lookup]
  split at hf
  · next hc => simp [hc]
  · next m hc =>
    simp only [SoftMap.get] at hf
    simp only [hc, Option.map_eq_none_iff]
    split at hf
    · assumption
    · next slot hslot =>
      have hlive : slot.isLive held := by rw [h m source slot hc hslot]; rfl
      simp [hlive] at hf
  · next t hc => simpa [hc] using hf

theorem KeepsAll.store (h : c.KeepsAll) : (c.store source e).KeepsAll := by
  intro m' k slot hm' hslot
  rw [ExpressionCache.store] at hm'
  split at hm'
  · exact h m' k slot hm' hslot
  · next m hc =>
    obtain rfl := CacheContents.soft.inj hm'
    rcases Table.get?_insertBounded_cases hslot with ⟨-, rfl⟩ | hold
    · rfl
    · exact h m k slot hc hold
  · cases hm'

/-- Storing a new entry counts what it costs. -/
theorem size_store_add (henabled : c.isEnabled) (hnew : c.lookup source = none)
    (hsize : c.size ≤ c.room) :
    (c.store source e).size + (c.store source e).statistics.limitExceeded
      = c.size + c.statistics.limitExceeded + 1 := by
  rw [store]
  split
  · next hc => simp [isEnabled, hc] at henabled
  · next m hc =>
    have hhas : m.entries.has source = false := by
      rw [Bool.eq_false_iff, ne_eq, Table.has_iff_get?]
      rintro ⟨slot, hslot⟩
      simp [lookup, hc, hslot] at hnew
    have hfits : m.size ≤ max m.limit 1 := by simpa only [size, room, hc] using hsize
    have hadd : (m.insert source e (c.evictions e.id)).2.size
        + (if (m.insert source e (c.evictions e.id)).1 then 1 else 0) = m.size + 1 :=
      Table.size_insertBounded_add hhas hfits _
    simp only [reportSize, count, size, hc]
    omega
  · next t hc =>
    have hhas : t.has source = false := by
      rw [Bool.eq_false_iff, ne_eq, Table.has_iff_get?]
      rintro ⟨slot, hslot⟩
      simp [lookup, hc, hslot] at hnew
    have hfits : t.size ≤ max c.capacity 1 := by simpa only [size, room, hc] using hsize
    have hadd := Table.size_insertBounded_add (v := e) hhas hfits (c.evictions e.id)
    simp only [reportSize, count, size, hc]
    omega

theorem statistics_store (c : ExpressionCache) (source : String) (e : Shared Expr) :
    (c.store source e).statistics.hits = c.statistics.hits ∧
      (c.store source e).statistics.misses = c.statistics.misses ∧
      (c.store source e).statistics.parseCount = c.statistics.parseCount := by
  rw [store]
  split <;> exact ⟨rfl, rfl, rfl⟩

/-! ## Balanced caches -/

/-- Every entry is kept, there is room for all of them, and whatever was parsed is there or has
been counted out. -/
structure Balanced (c : ExpressionCache) : Prop where
  isEnabled : c.isEnabled
  keepsAll : c.KeepsAll
  size_le : c.size ≤ c.room
  parseCount_eq : c.statistics.parseCount = c.size + c.statistics.limitExceeded

theorem balanced_ofSettings {settings : CacheSettings} (henabled : settings.enabled = true)
    (evictions : Nat → Eviction) : (ofSettings settings evictions).Balanced := by
  obtain ⟨_ | _, capacity, _ | _⟩ := settings
  · simp at henabled
  · simp at henabled
  · refine ⟨rfl, fun m k slot hm hslot => ?_, Nat.zero_le _, rfl⟩
    obtain rfl := CacheContents.soft.inj hm
    simp [Table.get?, Table.empty] at hslot
  · refine ⟨rfl, fun m k slot hm => ?_, Nat.zero_le _, rfl⟩
    cases hm

/-- Hits and misses are no part of the balance. -/
theorem Balanced.of_contents (h : c.Balanced) (hcontents : d.contents = c.contents)
    (hcapacity : d.capacity = c.capacity)
    (hparsed : d.statistics.parseCount = c.statistics.parseCount)
    (hexceeded : d.statistics.limitExceeded = c.statistics.limitExceeded) : d.Balanced := by
  have hsize : d.size = c.size := by simp only [size, hcontents]
  have hwithin := staysWithin_of_contents hcontents hcapacity
  exact ⟨hwithin.1.1.trans h.isEnabled, h.keepsAll.of_contents hcontents, hwithin.2 h.size_le,
    by rw [hparsed, hexceeded, hsize, h.parseCount_eq]⟩

variable {value : Expr} {fault : SyntaxError}

theorem countMiss_of_isEnabled (h : c.isEnabled) :
    c.countMiss = c.count fun n => { n with misses := n.misses + 1 } := if_pos h

theorem compile_of_isSome (h : c.KeepsAll) (hf : (c.find held source).1 = some e) :
    c.compile held source = (.ok e, c.count fun n => { n with hits := n.hits + 1 }) :=
  compile_hit (Prod.ext hf h.find)

/-- A miss that parses is one more miss, one more text parsed, and one more entry there or counted
out. -/
theorem Balanced.compile_of_parses (h : c.Balanced) (hf : (c.find held source).1 = none)
    (hp : Grammar.parse source = .ok value) :
    (c.compile held source).2.Balanced ∧
      (c.compile held source).2.statistics.hits = c.statistics.hits ∧
      (c.compile held source).2.statistics.misses = c.statistics.misses + 1 ∧
      (c.compile held source).2.statistics.parseCount = c.statistics.parseCount + 1 := by
  let before := c.countMiss.countParse
  let e : Shared Expr := { id := c.countMiss.fresh, value }
  have hcontents : before.contents = c.contents := contents_countMiss
  have hcompile : (c.compile held source).2 = before.store source e := by
    rw [compile_stored (Prod.ext hf h.keepsAll.find) hp]
  have hwithin : c.StaysWithin before :=
    staysWithin_countMiss.trans (staysWithin_of_contents rfl rfl)
  have hstatistics : before.statistics = { c.statistics with
      misses := c.statistics.misses + 1, parseCount := c.statistics.parseCount + 1 } := by
    simp only [before, countMiss_of_isEnabled h.isEnabled]
    rfl
  have hnew : before.lookup source = none := by
    rw [lookup, hcontents]
    exact h.keepsAll.lookup_eq_none hf
  have hsize : before.size = c.size := by simp only [size, hcontents]
  have hstored := size_store_add (e := e) (hwithin.1.1.trans h.isEnabled) hnew
    (hwithin.2 h.size_le)
  obtain ⟨hhits, hmisses, hparsed⟩ := statistics_store before source e
  rw [hstatistics] at hstored hhits hmisses hparsed
  rw [hcompile]
  refine ⟨⟨?_, (h.keepsAll.of_contents hcontents).store, ?_, ?_⟩, hhits, hmisses, hparsed⟩
  · exact staysWithin_store.1.1.trans (hwithin.1.1.trans h.isEnabled)
  · exact staysWithin_store.2 (hwithin.2 h.size_le)
  · rw [hparsed, hstored, hsize, h.parseCount_eq]

/-- A miss that does not parse is one more miss. -/
theorem Balanced.compile_of_refused (h : c.Balanced) (hf : (c.find held source).1 = none)
    (hp : Grammar.parse source = .error fault) :
    (c.compile held source).2 = c.count fun n => { n with misses := n.misses + 1 } := by
  rw [compile_refused (Prod.ext hf h.keepsAll.find) hp, countMiss_of_isEnabled h.isEnabled]

/-- Compiling keeps a cache balanced. -/
theorem Balanced.compile (h : c.Balanced) (held : Nat → Bool) (source : String) :
    (c.compile held source).2.Balanced := by
  cases hf : (c.find held source).1 with
  | some e =>
    rw [compile_of_isSome h.keepsAll hf]
    exact h.of_contents rfl rfl rfl rfl
  | none =>
    cases hp : Grammar.parse source with
    | error fault =>
      rw [h.compile_of_refused hf hp]
      exact h.of_contents rfl rfl rfl rfl
    | ok value => exact (h.compile_of_parses hf hp).1

end ExpressionCache

/-! ## Sessions -/

namespace CacheCall

/-- The text that the call compiles. -/
def text? : CacheCall → Option String
  | .compile source _ => some source
  | _ => none

/-- The call is no request to give entries back or to set counters to zero. -/
def KeepsAccounts : CacheCall → Prop
  | .compile .. | .contains _ | .release _ => True
  | .reclaim | .clear | .reset => False

end CacheCall

namespace CacheSession

open ExpressionCache (Balanced)

variable {u v w : CacheSession} {call : CacheCall}

/-- The text that the call compiles and the cache does not have. -/
def missed? (u : CacheSession) (call : CacheCall) : Option String :=
  call.text?.filter fun source => (u.cache.find u.holds source).1.isNone

/-- The texts that the calls compile and the cache does not have when it is asked. -/
def missed (u : CacheSession) : List CacheCall → List String
  | [] => []
  | call :: calls => (u.missed? call).toList ++ (u.step call).missed calls

/-- From the first session to the second, the counters have counted these texts, all of them
compiled, and those of them that the cache did not have. -/
structure Counts (u v : CacheSession) (texts missed : List String) : Prop where
  hits_add_misses : v.cache.statistics.hits + v.cache.statistics.misses
    = u.cache.statistics.hits + u.cache.statistics.misses + texts.length
  misses_eq : v.cache.statistics.misses = u.cache.statistics.misses + missed.length
  parseCount_eq : v.cache.statistics.parseCount = u.cache.statistics.parseCount
    + (missed.filter fun source => (Grammar.parse source).isOk).length

theorem Counts.trans {texts texts' missed missed' : List String} (h : Counts u v texts missed)
    (h' : Counts v w texts' missed') : Counts u w (texts ++ texts') (missed ++ missed') where
  hits_add_misses := by
    rw [h'.hits_add_misses, h.hits_add_misses, List.length_append, Nat.add_assoc]
  misses_eq := by rw [h'.misses_eq, h.misses_eq, List.length_append, Nat.add_assoc]
  parseCount_eq := by
    rw [h'.parseCount_eq, h.parseCount_eq, List.filter_append, List.length_append, Nat.add_assoc]

theorem counts_of_statistics (h : v.cache.statistics = u.cache.statistics) :
    Counts u v [] [] := by
  constructor <;> simp [h]

theorem counts_compile (h : u.cache.Balanced) (source : String) (keeps : Bool) :
    Counts u (u.step (.compile source keeps)) [source]
      (u.missed? (.compile source keeps)).toList := by
  have hcache : (u.step (.compile source keeps)).cache = (u.cache.compile u.holds source).2 :=
    compile_cache
  rw [missed?, CacheCall.text?, Option.filter_some]
  cases hf : (u.cache.find u.holds source).1 with
  | some e =>
    rw [ExpressionCache.compile_of_isSome h.keepsAll hf] at hcache
    constructor <;> simp [hcache, ExpressionCache.count]
    omega
  | none =>
    cases hp : Grammar.parse source with
    | error fault =>
      rw [h.compile_of_refused hf hp] at hcache
      constructor <;> simp [hcache, ExpressionCache.count, hp, Except.isOk, Except.toBool]
      omega
    | ok value =>
      obtain ⟨-, hhits, hmisses, hparsed⟩ := h.compile_of_parses hf hp
      constructor <;> simp [hcache, hhits, hmisses, hparsed, hp, Except.isOk, Except.toBool]
      omega

/-- What one call does to the balance and to the counters. -/
theorem step_balanced (h : u.cache.Balanced) (hcall : call.KeepsAccounts) :
    (u.step call).cache.Balanced ∧
      Counts u (u.step call) call.text?.toList (u.missed? call).toList := by
  cases call with
  | compile source keeps =>
    refine ⟨?_, counts_compile h source keeps⟩
    rw [step_cache]
    exact h.compile u.holds source
  | contains source =>
    have hcache : (u.step (.contains source)).cache = u.cache := h.keepsAll.find
    exact ⟨hcache ▸ h, counts_of_statistics (congrArg _ hcache)⟩
  | release place => exact ⟨h, counts_of_statistics rfl⟩
  | reclaim => exact hcall.elim
  | clear => exact hcall.elim
  | reset => exact hcall.elim

/-- What several calls do to them. -/
theorem run_balanced {calls : List CacheCall} (h : u.cache.Balanced)
    (hcalls : ∀ call ∈ calls, call.KeepsAccounts) :
    (u.run calls).cache.Balanced ∧
      Counts u (u.run calls) (calls.filterMap CacheCall.text?) (u.missed calls) := by
  rw [List.filterMap_eq_flatMap_toList]
  induction calls generalizing u with
  | nil => exact ⟨h, counts_of_statistics rfl⟩
  | cons call calls ih =>
    obtain ⟨hstep, hcount⟩ := step_balanced h (hcalls call (List.mem_cons_self ..))
    obtain ⟨hrun, hcounts⟩ := ih hstep fun call hcall => hcalls call (List.mem_cons_of_mem _ hcall)
    exact ⟨hrun, hcount.trans hcounts⟩

/-- The counters of a cache that these texts were compiled through, and that did not have those of
them when it was asked. -/
structure Accounts (u : CacheSession) (texts missed : List String) : Prop where
  /-- Whenever a text is compiled there is a hit or a miss. -/
  hits_add_misses : u.cache.statistics.hits + u.cache.statistics.misses = texts.length
  misses_eq : u.cache.statistics.misses = missed.length
  /-- A miss counts as parsed if its text parses. -/
  parseCount_eq : u.cache.statistics.parseCount
    = (missed.filter fun source => (Grammar.parse source).isOk).length
  /-- What was parsed is there, or an entry has gone for what came. -/
  parseCount_eq_size_add : u.cache.statistics.parseCount
    = u.cache.size + u.cache.statistics.limitExceeded

/-- **The accounts of a cache add up**, whichever entries are evicted. -/
theorem run_accounts (settings : CacheSettings) (evictions : Nat → Eviction)
    (calls : List CacheCall) (henabled : settings.enabled = true)
    (hcalls : ∀ call ∈ calls, call.KeepsAccounts) :
    ((start settings evictions).run calls).Accounts (calls.filterMap CacheCall.text?)
      ((start settings evictions).missed calls) := by
  obtain ⟨hbalanced, hcounts⟩ :=
    run_balanced (ExpressionCache.balanced_ofSettings henabled evictions) hcalls
      (u := start settings evictions)
  exact ⟨hcounts.hits_add_misses.trans (Nat.zero_add _),
    hcounts.misses_eq.trans (Nat.zero_add _), hcounts.parseCount_eq.trans (Nat.zero_add _),
    hbalanced.parseCount_eq⟩

/-- Texts that are compiled again, one that does not parse, and one more than there is room for. -/
def crowdedCalls : List CacheCall :=
  [.compile "/a" true, .compile "b" false, .compile "/a" false, .compile "c[" false, .release 0,
    .compile "c" true, .contains "b", .compile "/a" false]

set_option maxRecDepth 8192 in
theorem run_accounts_crowded :
    ((start { capacity := 2 } fun _ => .oldest).run crowdedCalls).Accounts
        ["/a", "b", "/a", "c[", "c", "/a"] ["/a", "b", "c[", "c", "/a"] ∧
      ((start { capacity := 2 } fun _ => .oldest).run crowdedCalls).cache.statistics
        = { cacheSize := 2, hits := 1, misses := 5, limitExceeded := 2, parseCount := 4 } := by
  have hmissed : (start { capacity := 2 } fun _ => .oldest).missed crowdedCalls
      = ["/a", "b", "c[", "c", "/a"] := by decide +kernel
  have haccounts := run_accounts { capacity := 2 } (fun _ => .oldest) crowdedCalls rfl
    (by simp [crowdedCalls, CacheCall.KeepsAccounts])
  rw [hmissed] at haccounts
  exact ⟨haccounts, by decide +kernel⟩

end CacheSession

end PathQuery
