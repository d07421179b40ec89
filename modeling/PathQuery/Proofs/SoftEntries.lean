import Mathlib.Data.List.Basic
import Mathlib.Data.List.Perm.Subperm
import PathQuery.Proofs.CacheSessions

/-!
# How long soft entries live

Callers compile few enough texts through a soft cache, so that nothing is evicted. Then an entry
lives exactly as long as someone needs it: what a caller holds is found, as the very object that
the caller has, and what nobody holds is given back at the next request.

* names: `ExpressionCache.entries`, `CacheCall.AsksFor`, `CacheSession.Tracks`.
* `find_of_held`, `lookup_find_of_held`, `lookup_reclaim`, `lookup_store`: what one operation does.
* `tracks_run`: the entries of the held paths are there, through any calls.
* **`run_lives_while_held`**: held paths are hits; reclaiming leaves nothing else.
-/

namespace PathQuery

namespace ExpressionCache

variable {c d : ExpressionCache} {held : Nat → Bool} {source k : String} {e : Shared Expr}
  {m : SoftMap Expr} {limit : Nat}

/-- The entries, each text with its expression, live or not. -/
def entries (c : ExpressionCache) : List (String × Shared Expr) :=
  match c.contents with
  | .disabled => []
  | .soft m => m.entries.entries.map fun e => (e.1, e.2.shared)
  | .bounded t => t.entries

/-- The cache is soft and has this limit. -/
def IsSoft (c : ExpressionCache) (limit : Nat) : Prop :=
  ∃ m, c.contents = .soft m ∧ m.limit = limit

/-! ## Looking up -/

theorem find_soft (hc : c.contents = .soft m) : c.find held source
    = ((m.get held source).1, { c with contents := .soft (m.get held source).2 }) := by
  simp only [find, hc]

theorem lookup_soft (hc : c.contents = .soft m) :
    c.lookup k = (m.entries.get? k).map Slot.shared := by rw [lookup, hc]

theorem IsSoft.find (h : c.IsSoft limit) : (c.find held source).2.IsSoft limit := by
  obtain ⟨m, hc, hm⟩ := h
  exact ⟨_, by rw [find_soft hc], (limit_get m).trans hm⟩

theorem fresh_find : (c.find held source).2.fresh = c.fresh := by
  rw [ExpressionCache.find]
  split <;> rfl

theorem lookup_find (h : (c.find held source).2.lookup k = some e) : c.lookup k = some e := by
  rw [ExpressionCache.find] at h
  split at h
  · exact h
  · next m hc => rw [lookup_soft hc]; exact shared_get h
  · exact h

theorem lookup_of_find (h : (c.find held source).1 = some e) : c.lookup source = some e := by
  rw [ExpressionCache.find] at h
  split at h
  · simp at h
  · next m hc => rw [lookup_soft hc]; exact get_eq_some h
  · next t hc => rwa [lookup, hc]

/-- What a caller holds is found. -/
theorem find_of_held (h : c.lookup source = some e) (hheld : held e.id) :
    (c.find held source).1 = some e := by
  rw [lookup] at h
  rw [ExpressionCache.find]
  split at h
  · simp at h
  · next m hc =>
    obtain ⟨slot, hslot, rfl⟩ := Option.map_eq_some_iff.1 h
    have hlive : slot.isLive held := by cases slot <;> simp_all [Slot.isLive, Slot.shared]
    simp [hc, SoftMap.get, hslot, hlive]
  · next t hc => simp [hc, h]

/-- Looking up keeps every entry that a caller holds. -/
theorem lookup_find_of_held (h : c.lookup k = some e) (hheld : held e.id) :
    (c.find held source).2.lookup k = some e := by
  rw [ExpressionCache.find]
  split
  · exact h
  · next m hc =>
    rw [lookup_soft hc] at h
    obtain ⟨slot, hslot, rfl⟩ := Option.map_eq_some_iff.1 h
    have hlive : slot.isLive held := by cases slot <;> simp_all [Slot.isLive, Slot.shared]
    have hentry : ((m.get held source).2.entries.get? k).map Slot.shared = some slot.shared := by
      rw [SoftMap.get]
      cases hs : m.entries.get? source with
      | none => simp [hslot]
      | some slot' =>
        by_cases hk : k = source
        · subst hk
          obtain rfl : slot' = slot := Option.some.inj (hs.symm.trans hslot)
          simp [hlive, Slot.shared]
        · dsimp only
          split
          · simp [Table.get?_insert_of_ne hk, hslot]
          · simp [Table.get?_erase_of_ne hk, hslot]
    exact hentry
  · exact h

/-- What is found stays. -/
theorem lookup_find_of_some (h : (c.find held source).1 = some e) :
    (c.find held source).2.lookup source = some e := by
  have hl := lookup_of_find h
  rw [ExpressionCache.find] at h ⊢
  split
  · exact hl
  · next m hc =>
    simp only [hc, SoftMap.get] at h
    rw [lookup_soft hc] at hl
    obtain ⟨slot, hslot, rfl⟩ := Option.map_eq_some_iff.1 hl
    simp only [hslot] at h
    split at h
    · next hlive => simp [lookup, SoftMap.get, hslot, hlive, Slot.shared]
    · simp at h
  · exact hl

/-! ## Giving back -/

theorem reclaim_soft (hc : c.contents = .soft m) :
    (c.reclaim held).1 = (m.reclaim held).1 ∧
      (c.reclaim held).2.contents = .soft (m.reclaim held).2 ∧
      (c.reclaim held).2.fresh = c.fresh := by
  rw [reclaim, hc]
  dsimp only
  split <;> exact ⟨rfl, rfl, rfl⟩

theorem IsSoft.reclaim (h : c.IsSoft limit) : (c.reclaim held).2.IsSoft limit := by
  obtain ⟨m, hc, hm⟩ := h
  exact ⟨_, (reclaim_soft hc).2.1, hm⟩

/-- What is left are the entries that someone holds, in their order. -/
theorem entries_reclaim (h : c.IsSoft limit) :
    (c.reclaim held).2.entries = c.entries.filter fun e => held e.2.id := by
  obtain ⟨m, hc, -⟩ := h
  simp only [entries, (reclaim_soft hc).2.1, hc]
  simp only [SoftMap.reclaim, Table.filter, Table.map, List.filter_map, List.map_map]
  rfl

theorem reclaim_eq (h : c.IsSoft limit) :
    (c.reclaim held).1 = (c.entries.filter fun e => !held e.2.id).length := by
  obtain ⟨m, hc, -⟩ := h
  have hsplit := List.length_eq_length_filter_add (l := c.entries) fun e => held e.2.id
  rw [← entries_reclaim ⟨m, hc, rfl⟩] at hsplit
  have hsize : c.entries.length = m.entries.size := by simp [entries, hc, Table.size]
  have hleft : (c.reclaim held).2.entries.length = (m.reclaim held).2.entries.size := by
    simp [entries, (reclaim_soft hc).2.1, Table.size]
  rw [(reclaim_soft hc).1]
  simp only [SoftMap.reclaim] at hleft ⊢
  omega

theorem keys_eq : c.keys = c.entries.map Prod.fst := by
  obtain ⟨_ | m | t, capacity, statistics, fresh, evictions⟩ := c
  · rfl
  · simp [keys, entries, SoftMap.keys, Table.keys]
  · rfl

theorem nodup_keys : c.keys.Nodup := by
  rw [keys]
  split
  · exact .nil
  · exact Table.nodup _
  · exact Table.nodup _

theorem lookup_eq_some_iff : c.lookup k = some e ↔ (k, e) ∈ c.entries := by
  obtain ⟨_ | m | t, capacity, statistics, fresh, evictions⟩ := c
  · simp [lookup, entries]
  · simp [lookup, entries, Table.get?_eq_some_iff]
  · exact Table.get?_eq_some_iff

theorem lookup_reclaim (h : c.IsSoft limit) :
    (c.reclaim held).2.lookup k = some e ↔ c.lookup k = some e ∧ held e.id := by
  simp only [lookup_eq_some_iff, entries_reclaim h, List.mem_filter]

/-! ## Storing -/

/-- Where there is room, storing costs no entry. -/
theorem lookup_store (h : c.IsSoft limit) (hroom : c.size < limit) :
    (c.store source e).lookup k = if k = source then some e else c.lookup k := by
  obtain ⟨m, hc, rfl⟩ := h
  have hexcess : m.entries.size + 1 - max m.limit 1 = 0 := by
    simp only [size, hc, SoftMap.size] at hroom
    omega
  have hinsert : (m.insert source e (c.evictions e.id)).2.entries
      = m.entries.insert source (.kept e) := by
    simp only [SoftMap.insert, Table.insertBounded]
    split
    · rfl
    · simp [hexcess, Table.evict]
  have hstore : (c.store source e).lookup k
      = ((m.insert source e (c.evictions e.id)).2.entries.get? k).map Slot.shared := by
    simp only [store, hc]
    rfl
  rw [hstore, hinsert, lookup_soft hc]
  split
  · next hk => simp [hk, Slot.shared]
  · next hk => rw [Table.get?_insert_of_ne hk]

theorem IsSoft.store (h : c.IsSoft limit) :
    (c.store source e).IsSoft limit ∧ (c.store source e).fresh = c.fresh := by
  obtain ⟨m, hc, hm⟩ := h
  simp only [ExpressionCache.store, hc]
  exact ⟨⟨_, rfl, hm⟩, rfl⟩

theorem size_eq : c.size = c.keys.length := by
  obtain ⟨_ | m | t, capacity, statistics, fresh, evictions⟩ := c
  · rfl
  · simp [size, keys, SoftMap.size, SoftMap.keys, Table.size, Table.keys]
  · simp [size, keys, Table.size, Table.keys]

theorem mem_keys_iff : k ∈ c.keys ↔ ∃ e, c.lookup k = some e := by
  simp [keys_eq, lookup_eq_some_iff]

theorem lookup_of_contents (h : d.contents = c.contents) : d.lookup k = c.lookup k := by
  rw [lookup, lookup, h]

theorem IsSoft.of_contents (h : c.IsSoft limit) (hd : d.contents = c.contents) :
    d.IsSoft limit := by
  obtain ⟨m, hc, hm⟩ := h
  exact ⟨m, hd.trans hc, hm⟩

theorem fresh_countMiss : c.countMiss.fresh = c.fresh := by
  rw [countMiss]
  split <;> rfl

end ExpressionCache

/-- The call asks for no other texts than these, and is no request to drop everything. -/
def CacheCall.AsksFor (texts : List String) : CacheCall → Prop
  | .compile source _ | .contains source => source ∈ texts
  | .reclaim | .release _ => True
  | .clear | .reset => False

namespace CacheSession

open ExpressionCache (IsSoft)

/-! ## Calls -/

/-- The soft cache of a session has the entries of the held paths. Its entries are of the texts
that were asked for, and different texts have different expressions. -/
structure Tracks (texts : List String) (limit : Nat) (u : CacheSession) : Prop where
  isSoft : u.cache.IsSoft limit
  mem_texts {k e} (h : u.cache.lookup k = some e) : k ∈ texts
  id_lt {k e} (h : u.cache.lookup k = some e) : e.id < u.cache.fresh
  eq_of_id {k k' e e'} (h : u.cache.lookup k = some e) (h' : u.cache.lookup k' = some e')
    (hid : e.id = e'.id) : k = k'
  lookup_held {c} (h : c ∈ u.held) : u.cache.lookup c.source = some c.expr

variable {texts : List String} {limit : Nat} {u v : CacheSession} {source k : String}
  {e : Shared Expr}

theorem holds_of_mem {c : CompiledPath} (h : c ∈ u.held) : u.holds c.expr.id :=
  List.any_eq_true.2 ⟨c, h, beq_self_eq_true _⟩

/-- A session whose cache has no new entries, and still those of the held paths. -/
theorem Tracks.of_lookup (h : u.Tracks texts limit) (hsoft : v.cache.IsSoft limit)
    (hfresh : v.cache.fresh = u.cache.fresh)
    (hsub : ∀ k e, v.cache.lookup k = some e → u.cache.lookup k = some e)
    (hheld : ∀ c ∈ v.held, v.cache.lookup c.source = some c.expr) : v.Tracks texts limit where
  isSoft := hsoft
  mem_texts hk := h.mem_texts (hsub _ _ hk)
  id_lt hk := hfresh ▸ h.id_lt (hsub _ _ hk)
  eq_of_id hk hk' := h.eq_of_id (hsub _ _ hk) (hsub _ _ hk')
  lookup_held hc := hheld _ hc

theorem Tracks.find (h : u.Tracks texts limit) (source : String) :
    Tracks texts limit { u with cache := (u.cache.find u.holds source).2 } :=
  h.of_lookup h.isSoft.find ExpressionCache.fresh_find (fun _ _ => ExpressionCache.lookup_find)
    fun _ hc => ExpressionCache.lookup_find_of_held (h.lookup_held hc) (holds_of_mem hc)

theorem Tracks.reclaim (h : u.Tracks texts limit) : u.reclaim.2.Tracks texts limit := by
  obtain ⟨m, hm, -⟩ := id h.isSoft
  refine h.of_lookup h.isSoft.reclaim (ExpressionCache.reclaim_soft hm).2.2 ?_ ?_
  · exact fun k e hk => ((ExpressionCache.lookup_reclaim h.isSoft).1 hk).1
  · exact fun c hc => (ExpressionCache.lookup_reclaim h.isSoft).2
      ⟨h.lookup_held hc, holds_of_mem hc⟩

/-- The texts that were asked for are fewer than the entries that there is room for. -/
theorem Tracks.size_lt (h : u.Tracks texts limit) (hfew : texts.length < limit) :
    u.cache.size < limit := by
  have hsub : u.cache.keys ⊆ texts := fun k hk =>
    have ⟨_, he⟩ := ExpressionCache.mem_keys_iff.1 hk
    h.mem_texts he
  have := (List.subperm_of_subset ExpressionCache.nodup_keys hsub).length_le
  rw [ExpressionCache.size_eq]
  omega

/-- A new expression is stored for a text that no held path is of. -/
theorem Tracks.store (h : u.Tracks texts limit) (hfew : texts.length < limit)
    (hsource : source ∈ texts) (hid : e.id = u.cache.fresh)
    (hheld : ∀ c ∈ v.held, c.source = source ∧ c.expr = e ∨ c ∈ u.held ∧ c.source ≠ source)
    (hcontents : v.cache = u.cache.countParse.store source e) : v.Tracks texts limit := by
  have hroom : u.cache.countParse.size < limit := h.size_lt hfew
  have hsoft : u.cache.countParse.IsSoft limit := h.isSoft.of_contents rfl
  obtain ⟨cache, held⟩ := v
  obtain rfl : cache = _ := hcontents
  have hlookup {k : String} : (u.cache.countParse.store source e).lookup k
      = if k = source then some e else u.cache.lookup k :=
    ExpressionCache.lookup_store hsoft hroom
  have hfresh : (u.cache.countParse.store source e).fresh = u.cache.fresh + 1 := hsoft.store.2
  refine ⟨hsoft.store.1, ?_, ?_, ?_, ?_⟩
  · intro k f hk
    rw [hlookup] at hk
    split at hk
    · next heq => exact heq ▸ hsource
    · exact h.mem_texts hk
  · intro k f hk
    rw [hlookup] at hk
    rw [hfresh]
    split at hk
    · obtain rfl := Option.some.inj hk
      omega
    · exact Nat.lt_succ_of_lt (h.id_lt hk)
  · intro k k' f f' hk hk' hff'
    rw [hlookup] at hk hk'
    -- the identity of the new expression is larger than all others
    split at hk <;> split at hk'
    · next heq heq' => rw [heq, heq']
    · have := h.id_lt hk'
      obtain rfl := Option.some.inj hk
      omega
    · have := h.id_lt hk
      obtain rfl := Option.some.inj hk'
      omega
    · exact h.eq_of_id hk hk' hff'
  · intro c hc
    rw [hlookup]
    rcases hheld c hc with ⟨hs, he⟩ | ⟨hmem, hs⟩
    · rw [if_pos hs, he]
    · rw [if_neg hs, h.lookup_held hmem]

theorem Tracks.compile (h : u.Tracks texts limit) (hfew : texts.length < limit)
    (hsource : source ∈ texts) (keeps : Bool) :
    (u.compile source keeps).2.Tracks texts limit := by
  have hfind := h.find source
  rcases hf : u.cache.find u.holds source with ⟨_ | e, d⟩
  · rw [hf] at hfind
    have hmiss : Tracks texts limit { u with cache := d.countMiss } :=
      hfind.of_lookup (hfind.isSoft.of_contents ExpressionCache.contents_countMiss)
        ExpressionCache.fresh_countMiss
        (fun k e hk => ExpressionCache.lookup_of_contents
          ExpressionCache.contents_countMiss ▸ hk)
        fun c hc => (ExpressionCache.lookup_of_contents
          ExpressionCache.contents_countMiss).trans (hfind.lookup_held hc)
    cases hp : Grammar.parse source with
    | error fault =>
      rw [CacheSession.compile, ExpressionCache.compile_refused hf hp]
      exact hmiss
    | ok value =>
      rw [CacheSession.compile, ExpressionCache.compile_stored hf hp]
      refine hmiss.store hfew hsource rfl ?_ rfl
      -- a caller that held a path of the text would have made this a hit
      have hne (c : CompiledPath) (hc : c ∈ u.held) : c.source ≠ source := by
        rintro rfl
        have := ExpressionCache.find_of_held (h.lookup_held hc) (holds_of_mem hc)
        simp [hf] at this
      intro c hc
      cases keeps with
      | false => exact .inr ⟨hc, hne c hc⟩
      | true =>
        rcases List.mem_cons.1 hc with rfl | hc
        · exact .inl ⟨rfl, rfl⟩
        · exact .inr ⟨hc, hne c hc⟩
  · rw [hf] at hfind
    rw [CacheSession.compile, ExpressionCache.compile_hit hf]
    refine hfind.of_lookup (hfind.isSoft.of_contents rfl) rfl (fun _ _ hk => hk) fun c hc => ?_
    have hnew : d.lookup source = some e := by
      have := ExpressionCache.lookup_find_of_some (e := e) (congrArg Prod.fst hf)
      rwa [hf] at this
    cases keeps with
    | false => exact hfind.lookup_held hc
    | true =>
      rcases List.mem_cons.1 hc with rfl | hc
      · exact hnew
      · exact hfind.lookup_held hc

/-- What one call keeps. -/
theorem Tracks.step (h : u.Tracks texts limit) (hfew : texts.length < limit) {call : CacheCall}
    (hcall : call.AsksFor texts) : (u.step call).Tracks texts limit := by
  cases call with
  | compile source keeps => exact h.compile hfew hcall keeps
  | contains source => exact h.find source
  | reclaim => exact h.reclaim
  | clear => exact hcall.elim
  | reset => exact hcall.elim
  | release place =>
    exact h.of_lookup h.isSoft rfl (fun _ _ hk => hk) fun c hc =>
      h.lookup_held (List.mem_of_mem_eraseIdx hc)

/-- The entries of the held paths are there, through any calls. -/
theorem tracks_run {settings : CacheSettings} {evictions : Nat → Eviction}
    {calls : List CacheCall} (henabled : settings.enabled = true) (hsoft : settings.mode = .soft)
    (hfew : texts.length < settings.capacity) (hcalls : ∀ call ∈ calls, call.AsksFor texts) :
    ((start settings evictions).run calls).Tracks texts settings.capacity := by
  have hempty (k : String) (e : Shared Expr)
      (h : (start settings evictions).cache.lookup k = some e) : False := by
    simp [start, ExpressionCache.ofSettings, henabled, hsoft, ExpressionCache.lookup, Table.get?,
      Table.empty] at h
  refine run_induction (P := Tracks texts settings.capacity) ?_ fun u call hcall hu =>
    hu.step hfew (hcalls call hcall)
  refine ⟨⟨{ limit := settings.capacity }, ?_, rfl⟩, ?_, ?_, ?_, ?_⟩
  · simp [start, ExpressionCache.ofSettings, henabled, hsoft]
  · exact fun h => (hempty _ _ h).elim
  · exact fun h => (hempty _ _ h).elim
  · exact fun h => (hempty _ _ h).elim
  · exact fun h => (List.not_mem_nil h).elim

/-- Entries live as long as someone needs them. -/
structure LivesWhileHeld (u : CacheSession) : Prop where
  /-- Compiling the text of a held path gives that very path. -/
  compile_held (c : CompiledPath) (hc : c ∈ u.held) (keeps : Bool) :
    (u.compile c.source keeps).1 = .ok c
  /-- It counts as a hit, and as nothing else. -/
  statistics_held (c : CompiledPath) (hc : c ∈ u.held) (keeps : Bool) :
    (u.compile c.source keeps).2.cache.statistics
      = { u.cache.statistics with hits := u.cache.statistics.hits + 1 }
  /-- Reclaiming tells how many entries nobody held. -/
  reclaim_eq : u.reclaim.1 = (u.cache.entries.filter fun e => !u.holds e.2.id).length
  /-- What it leaves are the entries that someone holds, -/
  keys_reclaim : u.reclaim.2.cache.keys
    = (u.cache.entries.filter fun e => u.holds e.2.id).map Prod.fst
  /-- which are those of the texts of the held paths. -/
  mem_keys_reclaim (source : String) :
    source ∈ u.reclaim.2.cache.keys ↔ ∃ c ∈ u.held, c.source = source

theorem compile_hit_cache {c : CompiledPath} (h : u.Tracks texts limit) (hc : c ∈ u.held) :
    u.cache.compile u.holds c.source = (.ok c.expr,
      (u.cache.find u.holds c.source).2.count fun n => { n with hits := n.hits + 1 }) := by
  refine ExpressionCache.compile_hit ?_
  rw [← ExpressionCache.find_of_held (h.lookup_held hc) (holds_of_mem hc)]

theorem statistics_find {c : ExpressionCache} {held : Nat → Bool} :
    (c.find held source).2.statistics = c.statistics := by
  rw [ExpressionCache.find]
  split <;> rfl

theorem Tracks.livesWhileHeld (h : u.Tracks texts limit) : u.LivesWhileHeld where
  compile_held c hc keeps := by rw [CacheSession.compile, compile_hit_cache h hc]
  statistics_held c hc keeps := by
    rw [compile_cache, compile_hit_cache h hc]
    simp only [ExpressionCache.count, statistics_find]
  reclaim_eq := ExpressionCache.reclaim_eq h.isSoft
  keys_reclaim := by
    rw [ExpressionCache.keys_eq]
    exact congrArg _ (ExpressionCache.entries_reclaim h.isSoft)
  mem_keys_reclaim source := by
    rw [ExpressionCache.mem_keys_iff]
    constructor
    · rintro ⟨e, he⟩
      obtain ⟨hlookup, hholds⟩ := (ExpressionCache.lookup_reclaim h.isSoft).1 he
      obtain ⟨c, hc, hid⟩ := List.any_eq_true.1 hholds
      exact ⟨c, hc, h.eq_of_id (h.lookup_held hc) hlookup (beq_iff_eq.1 hid)⟩
    · rintro ⟨c, hc, rfl⟩
      exact ⟨c.expr, h.reclaim.lookup_held hc⟩

/-- **Soft entries live exactly as long as someone needs them**, where fewer texts are asked for
than there is room for. -/
theorem run_lives_while_held (settings : CacheSettings) (evictions : Nat → Eviction)
    (texts : List String) (calls : List CacheCall) (henabled : settings.enabled = true)
    (hsoft : settings.mode = .soft) (hfew : texts.length < settings.capacity)
    (hcalls : ∀ call ∈ calls, call.AsksFor texts) :
    ((start settings evictions).run calls).LivesWhileHeld :=
  (tracks_run henabled hsoft hfew hcalls).livesWhileHeld

/-- A path that is kept, one that is not and one that is let go of later; entries are given back in
between. -/
def someCalls : List CacheCall :=
  [.compile "/a" true, .compile "b" false, .reclaim, .contains "/a", .compile "c" true,
    .release 0, .compile "/a" false, .reclaim]

set_option maxRecDepth 8192 in
theorem run_lives_while_held_some :
    ((start { capacity := 4 } fun _ => .oldest).run someCalls).LivesWhileHeld ∧
      ((start { capacity := 4 } fun _ => .oldest).run someCalls).held.map (fun c => c.source)
        = ["/a"] :=
  ⟨run_lives_while_held { capacity := 4 } _ ["/a", "b", "c"] someCalls rfl rfl (by decide)
    (by simp [someCalls, CacheCall.AsksFor]), by decide +kernel⟩

end CacheSession

end PathQuery
