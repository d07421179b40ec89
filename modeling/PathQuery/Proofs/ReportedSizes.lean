import Mathlib.Data.List.Induction
import PathQuery.Proofs.CacheSessions

/-!
# The reported size of a cache

A cache keeps a second count of its entries, which compiling, reclaiming and clearing bring up to
date. A soft entry whose expression nobody holds any more goes when it is looked for, and asking
for an entry reports nothing. The reported size is then ahead of the size, by as many entries as
were lost in this way since the last report.

* names: `ExpressionCache.hasLost`; `CacheSession.loses`, `CacheSession.reports`,
  `CacheSession.unreported`.
* `size_find`: a look-up costs the entry that it finds lost, and no other.
* `ahead_step`: how far the reported size is ahead after one call. **`run_cacheSize`**: and after
  any calls, whichever entries are evicted.
-/

namespace PathQuery

namespace ExpressionCache

variable {c d : ExpressionCache} {held : Nat → Bool} {source : String} {e : Shared Expr}

/-- The text has an entry, but its expression is gone. -/
def hasLost (c : ExpressionCache) (held : Nat → Bool) (source : String) : Bool :=
  (c.lookup source).isSome && (c.find held source).1.isNone

/-! ## Looking up -/

theorem statistics_find (c : ExpressionCache) (held : Nat → Bool) (source : String) :
    (c.find held source).2.statistics = c.statistics := by
  rw [find]
  split <;> rfl

/-- A look-up costs the entry that it finds lost, and no other. -/
theorem size_find (c : ExpressionCache) (held : Nat → Bool) (source : String) :
    (c.find held source).2.size + (c.hasLost held source).toNat = c.size := by
  rw [hasLost, lookup, find]
  cases hc : c.contents with
  | disabled => simp [size, hc]
  | bounded t => cases ht : t.get? source <;> simp [size, hc]
  | soft m =>
    dsimp only
    rw [SoftMap.get]
    cases hslot : m.entries.get? source with
    | none => simp [size, hc]
    | some slot =>
      have hmem : source ∈ m.entries.keys := by
        simpa [Table.has] using Table.has_iff_get?.2 ⟨slot, hslot⟩
      by_cases hlive : slot.isLive held
      · simp [hlive, size, hc, SoftMap.size, Table.size_insert, Table.has, hmem]
      · simpa [hlive, size, hc, SoftMap.size] using Table.size_erase hmem

/-- What is found is not lost. -/
theorem hasLost_of_find (h : (c.find held source).1 = some e) : c.hasLost held source = false := by
  simp [hasLost, h]

/-! ## Reporting -/

/-- The reported size is ahead of the size by so many entries. -/
def Ahead (c : ExpressionCache) (n : Nat) : Prop := c.statistics.cacheSize = c.size + n

variable {n : Nat}

theorem ahead_reportSize (c : ExpressionCache) : c.reportSize.Ahead 0 := rfl

/-- Other counters are no matter. -/
theorem Ahead.of_contents (h : c.Ahead n) (hcontents : d.contents = c.contents)
    (hreported : d.statistics.cacheSize = c.statistics.cacheSize) : d.Ahead n := by
  have hsize : d.size = c.size := by simp only [size, hcontents]
  rw [Ahead, hreported, hsize]
  exact h

theorem Ahead.find (h : c.Ahead n) :
    (c.find held source).2.Ahead (n + (c.hasLost held source).toNat) := by
  have hsize := size_find c held source
  rw [Ahead] at h
  rw [Ahead, statistics_find]
  omega

theorem ahead_store (h : c.isEnabled) : (c.store source e).Ahead 0 := by
  rw [store]
  split
  · next hc => simp [isEnabled, hc] at h
  · exact ahead_reportSize _
  · exact ahead_reportSize _

theorem ahead_clear (c : ExpressionCache) : c.clear.Ahead 0 := by
  obtain ⟨_ | m | t, capacity, statistics, fresh, evictions⟩ := c <;> rfl

theorem ahead_reset (c : ExpressionCache) : c.reset.Ahead 0 := by
  obtain ⟨_ | m | t, capacity, statistics, fresh, evictions⟩ := c <;> rfl

/-- Reclaiming reports the size if it drops something, and changes it only then. -/
theorem Ahead.reclaim (h : c.Ahead n) :
    (c.reclaim held).2.Ahead (if (c.reclaim held).1 = 0 then n else 0) := by
  rw [ExpressionCache.reclaim]
  split
  · next m hc =>
    dsimp only
    split
    · next hnone =>
      have hle : (m.reclaim held).2.size ≤ m.size := by
        simp only [SoftMap.reclaim, SoftMap.size, Table.size, Table.filter, Table.map]
        exact Nat.le_trans (List.length_filter_le ..) (Nat.le_of_eq (List.length_map ..))
      have hdropped : (m.reclaim held).1 = m.size - (m.reclaim held).2.size := rfl
      simp only [Ahead, size, hc] at h ⊢
      omega
    · exact ahead_reportSize _
  · rw [if_pos rfl]
    exact h

/-- A text that parses and is not found brings the reported size up to date. -/
theorem Ahead.compile (h : c.Ahead n) (hfaithful : c.Faithful) (henabled : c.isEnabled) :
    (c.compile held source).2.Ahead
      (if (c.find held source).1.isNone && (Grammar.parse source).isOk then 0 else n) := by
  rcases hf : c.find held source with ⟨_ | e, d⟩
  · have hfind : c.StaysWithin d := by
      have hwithin : c.StaysWithin (c.find held source).2 := staysWithin_find
      rwa [hf] at hwithin
    cases hp : Grammar.parse source with
    | error fault =>
      -- A text that does not parse has no entry that could be lost.
      obtain ⟨d', hd', hcontents⟩ : ∃ d, c.find held source = (none, d) ∧ d.contents = c.contents :=
        find_of_refused hfaithful hp
      obtain rfl : d = d' := congrArg Prod.snd (hf.symm.trans hd')
      have hreported : d.countMiss.statistics.cacheSize = c.statistics.cacheSize := by
        have hd := statistics_find c held source
        rw [hf] at hd
        rw [← hd, countMiss]
        split <;> rfl
      rw [compile_refused hf hp]
      simpa [Except.isOk, Except.toBool] using
        h.of_contents (contents_countMiss.trans hcontents) hreported
    | ok value =>
      have hon : d.countMiss.countParse.isEnabled :=
        (hfind.trans staysWithin_countMiss).1.1.trans henabled
      rw [compile_stored hf hp]
      simpa [Except.isOk, Except.toBool] using ahead_store hon
  · have hfound : (c.find held source).1 = some e := congrArg Prod.fst hf
    have hd : d.Ahead n := by
      have hfind : (c.find held source).2.Ahead _ := h.find
      rwa [hasLost_of_find hfound, hf] at hfind
    have hcount : (d.count fun n => { n with hits := n.hits + 1 }).Ahead n :=
      hd.of_contents rfl rfl
    rw [compile_hit hf]
    simpa using hcount

end ExpressionCache

/-! ## Sessions -/

namespace CacheSession

open ExpressionCache (Ahead)

variable {u : CacheSession} {n : Nat}

/-- The call asks for an entry that is lost. -/
def loses (u : CacheSession) : CacheCall → Bool
  | .contains source => u.cache.hasLost u.holds source
  | _ => false

/-- The call brings the reported size up to date. -/
def reports (u : CacheSession) : CacheCall → Bool
  | .compile source _ =>
    (u.cache.find u.holds source).1.isNone && (Grammar.parse source).isOk
  | .reclaim => u.reclaim.1 != 0
  | .clear | .reset => true
  | .contains _ | .release _ => false

/-- The number of entries that are lost and not reported after one more call, if there were `n`
before it. -/
def unreportedAfter (u : CacheSession) (n : Nat) (call : CacheCall) : Nat :=
  if u.reports call then 0 else n + (u.loses call).toNat

/-- The number of entries that are lost and not reported after several calls, if there were `n`
before them. -/
def unreported (u : CacheSession) (n : Nat) : List CacheCall → Nat
  | [] => n
  | call :: calls => (u.step call).unreported (u.unreportedAfter n call) calls

/-- How far the reported size is ahead after one call. -/
theorem ahead_step (h : u.cache.Ahead n) (hreached : u.cache.Reached)
    (henabled : u.cache.isEnabled) (call : CacheCall) :
    (u.step call).cache.Ahead (u.unreportedAfter n call) := by
  rw [step_cache]
  cases call with
  | compile source keeps =>
    simpa [unreportedAfter, reports, loses] using h.compile hreached.faithful henabled
  | contains source => exact h.find
  | reclaim =>
    have hreclaim : (u.cache.reclaim u.holds).2.Ahead _ := h.reclaim
    simpa [unreportedAfter, reports, loses, CacheSession.reclaim] using hreclaim
  | clear => exact ExpressionCache.ahead_clear _
  | reset => exact ExpressionCache.ahead_reset _
  | release => exact h

theorem unreported_concat (calls : List CacheCall) (call : CacheCall) :
    u.unreported n (calls ++ [call])
      = (u.run calls).unreportedAfter (u.unreported n calls) call := by
  induction calls generalizing u n with
  | nil => rfl
  | cons first calls ih => exact ih

/-- **The reported size is the size and what was lost since the last report**, whichever entries
are evicted: the two agree exactly as long as nobody asks for an entry that is lost, and again as
soon as a text is compiled anew, something is reclaimed, or the cache is cleared. -/
theorem run_cacheSize (settings : CacheSettings) (evictions : Nat → Eviction)
    (calls : List CacheCall) (henabled : settings.enabled = true) :
    ((start settings evictions).run calls).cache.statistics.cacheSize
      = ((start settings evictions).run calls).cache.size
        + (start settings evictions).unreported 0 calls := by
  induction calls using List.reverseRecOn with
  | nil => obtain ⟨_ | _, capacity, _ | _⟩ := settings <;> rfl
  | append_singleton calls call ih =>
    have hstep := ahead_step ih (reached_run settings evictions calls)
      ((within_run settings evictions calls).isEnabled.trans henabled) call
    rw [unreported_concat, run, List.foldl_concat]
    exact hstep

/-- A new cache with the default settings. -/
def softSession : CacheSession := start {} fun _ => .oldest

/-- Of two texts that are held and demoted, one is let go and asked for. -/
def lostCalls : List CacheCall :=
  [.compile "/a" true, .compile "b" true, .reclaim, .release 0, .contains "b"]

/-- The lost text is still counted, until another text is compiled. -/
theorem run_cacheSize_lostCalls :
    (softSession.run lostCalls).cache.statistics.cacheSize
        = (softSession.run lostCalls).cache.size + 1 ∧
      (softSession.run (lostCalls ++ [.compile "c" false])).cache.statistics.cacheSize
        = (softSession.run (lostCalls ++ [.compile "c" false])).cache.size := by
  have hlost : softSession.unreported 0 lostCalls = 1 := by decide +kernel
  have hlost' : softSession.unreported 0 (lostCalls ++ [.compile "c" false]) = 0 := by
    decide +kernel
  have hsize := run_cacheSize {} (fun _ => .oldest) lostCalls rfl
  have hsize' := run_cacheSize {} (fun _ => .oldest) (lostCalls ++ [.compile "c" false]) rfl
  exact ⟨hsize.trans (congrArg (_ + ·) hlost), hsize'.trans (congrArg (_ + ·) hlost')⟩

/-- A cache that reports an entry and has none. -/
theorem cacheSize_ne_size_lost :
    (softSession.run [.compile "a" true, .reclaim, .release 0, .contains "a"]).cache.size = 0 ∧
      (softSession.run [.compile "a" true, .reclaim, .release 0, .contains "a"]
        ).cache.statistics.cacheSize = 1 := by
  decide +kernel

end CacheSession

end PathQuery
