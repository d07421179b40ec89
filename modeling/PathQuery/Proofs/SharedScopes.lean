import PathQuery.Proofs.RelativeContexts
import PathQuery.Proofs.ScopeTrees
import PathQuery.Proofs.VariableCalls

/-!
# Scopes shared by contexts

A context and the contexts that are derived from it, one from another, share their scopes: each
looks up in the scopes of all contexts around it, as these are at that time. Whatever is declared,
undeclared, set, removed and read in any of them, they behave as a tree of scopes does.

* names: `DerivedContext`, `ScopeSession`; `ScopeSession.call`, `step`, `run`, `tree`.
* `ScopeSession.Sound`: every context has a scope of its own and the frames of the context around
  it. `lookup_cases`: looking up a variable finds the nearest scope that declares it.
* **`sound_run`**: what all calls keep. `answer_read`: what is read with the standard factories.
  **`step_run`**: the sessions are scope trees.
-/

namespace PathQuery

/-- A context, and the place of the one that it was derived from. -/
structure DerivedContext where
  outer : Option Nat
  context : Context

/-- The number of the context's own scope. -/
def DerivedContext.number (d : DerivedContext) : Nat := d.context.env.own.scope

/-- The frames of the context around it. -/
def DerivedContext.around (d : DerivedContext) : List Frame := d.context.env.outer

/-- A world with contexts that were derived from one another. -/
structure ScopeSession where
  world : World
  contexts : List DerivedContext

/-- The variables of contexts as a tree of scopes. -/
def scopeTree (contexts : List DerivedContext) (s : Store) : ScopeTree :=
  contexts.map fun d => { outer := d.outer, bindings := (s.scopes.get d.number).get? }

namespace ScopeSession

/-! ## Calls -/

/-- A session of one context. -/
def start (ctx : Context) (w : World) : ScopeSession where
  world := w
  contexts := [⟨none, ctx⟩]

/-- What a run in the world gives, and the session after it. -/
def perform (u : ScopeSession) (a : Run (Option Value)) :
    Except PathError (Option Value) × ScopeSession :=
  let (x, world) := a.result u.world
  (x, { u with world })

/-- The session with another store. -/
def withStore (u : ScopeSession) (s : Store) : ScopeSession :=
  { u with world := { u.world with store := s } }

/-- What a request in a context gives, and the session after it. -/
def ask (u : ScopeSession) (place : Nat) (ctx : Context) :
    ScopeRequest → Except PathError (Option Value) × ScopeSession
  | .derive p =>
    match (ctx.relative p).result u.world with
    | (.ok rel, world) => (.ok none, { world, contexts := u.contexts ++ [⟨some place, rel⟩] })
    | (.error e, world) => (.error e, { u with world })
  | .declare name v => (.ok none, u.withStore (ctx.declare name v u.world.store))
  | .undeclare name => (.ok none, u.withStore (ctx.undeclare name u.world.store))
  | .set n v => u.perform do
    ctx.setValue ("$" ++ n.1.text) v
    pure none
  | .remove n => u.perform do
    ctx.removePath ("$" ++ n.1.text)
    pure none
  | .read n => u.perform (ctx.getValue ("$" ++ n.1.text))

/-- What a call gives, and the session after it. Where there is no context, nothing happens. -/
def call (u : ScopeSession) (c : ScopeCall) : Except PathError (Option Value) × ScopeSession :=
  match u.contexts[c.place]? with
  | some d => u.ask c.place d.context c.request
  | none => (.ok none, u)

/-- The answer to a call. -/
def answer (u : ScopeSession) (c : ScopeCall) : Except PathError (Option Value) := (u.call c).1

/-- The session after a call. -/
def step (u : ScopeSession) (c : ScopeCall) : ScopeSession := (u.call c).2

/-- The session after several calls. -/
def run (u : ScopeSession) (calls : List ScopeCall) : ScopeSession := calls.foldl step u

/-- The variables of the contexts. -/
def tree (u : ScopeSession) : ScopeTree := scopeTree u.contexts u.world.store

/-! ## Sound sessions -/

/-- The factories are known and the cache is faithful; every context has a scope of its own, and
looks up what it lacks where the context around it does. -/
structure Sound (r : Registry) (u : ScopeSession) : Prop where
  registry : u.world.engine.registry = r
  cache : u.world.engine.cache.Faithful
  nodup : (u.contexts.map DerivedContext.number).Nodup
  bounded : ∀ d ∈ u.contexts, d.number < u.world.store.scopes.size
  around : ∀ d ∈ u.contexts, (d.outer = none ∧ d.around = []) ∨
    ∃ i d', d.outer = some i ∧ u.contexts[i]? = some d' ∧ d.around = d'.context.env.frames

end ScopeSession

variable {u : ScopeSession} {contexts : List DerivedContext} {s : Store} {d d' : DerivedContext}
variable {i j : Nat} {name : String} {w : World} {r : Registry}

theorem getElem?_scopeTree (contexts : List DerivedContext) (s : Store) (i : Nat) :
    (scopeTree contexts s)[i]? = (contexts[i]?).map fun d =>
      { outer := d.outer, bindings := (s.scopes.get d.number).get? } :=
  List.getElem?_map

/-- Rebinding a name in the scope of one context rebinds it at one place of the tree. -/
theorem scopeTree_rebind (hnodup : (contexts.map DerivedContext.number).Nodup)
    (hd : contexts[j]? = some d) (hbounded : d.number < s.scopes.size) (name : String)
    (x : Option Value) :
    scopeTree contexts (s.rebind d.number name x) = (scopeTree contexts s).bind j name x := by
  apply List.ext_getElem?
  intro k
  by_cases hk : k = j
  · subst hk
    rw [ScopeTree.bind, List.getElem?_modify_eq, getElem?_scopeTree, getElem?_scopeTree, hd]
    simp only [Option.map_some, Option.map_eq_map, Store.get?_rebind hbounded]
  · rw [ScopeTree.getElem?_bind_of_ne hk, getElem?_scopeTree, getElem?_scopeTree]
    cases hd' : contexts[k]? with
    | none => rfl
    | some d' =>
      have hne : d'.number ≠ d.number := by
        intro heq
        have hj : (contexts.map DerivedContext.number)[j]? = some d.number := by simp [hd]
        have hk' : (contexts.map DerivedContext.number)[k]? = some d.number := by simp [hd', heq]
        have hlt := (List.getElem?_eq_some_iff.1 hk').1
        exact hk ((List.getElem?_inj hlt hnodup).1 (hk'.trans hj.symm))
      simp only [Option.map_some, Store.get_rebind_of_ne hne]

namespace ScopeSession

/-! ## Looking up -/

theorem getElem?_tree (hd : u.contexts[i]? = some d) :
    u.tree[i]? = some
      { outer := d.outer, bindings := (u.world.store.scopes.get d.number).get? } := by
  rw [tree, getElem?_scopeTree, hd]
  rfl

theorem scope?_own (h : (s.scopes.get d.number).get? name ≠ none) :
    d.context.env.scope? s name = some d.number := by
  have hhas : (s.scopes.get d.context.env.own.scope).has name = true :=
    Table.has_iff_get?.2 (Option.ne_none_iff_exists'.1 h)
  simp [Environment.scope?, Environment.frames, hhas, DerivedContext.number]

theorem scope?_around (h : (s.scopes.get d.number).get? name = none) :
    d.context.env.scope? s name =
      (d.around.map Frame.scope).find? fun scope => (s.scopes.get scope).has name := by
  have hhas : (s.scopes.get d.context.env.own.scope).has name = false := by
    rw [← Bool.not_eq_true, Table.has_iff_get?]
    rintro ⟨v, hv⟩
    exact absurd (h.symm.trans hv) nofun
  simp [Environment.scope?, Environment.frames, hhas, DerivedContext.around]

/-- **Looking up finds the nearest scope** that declares a variable: the scope of some context of
the session, or no scope where none declares it. -/
theorem Sound.lookup_cases (h : u.Sound r) (hd : u.contexts[i]? = some d) (name : String) :
    (∃ j d', u.tree.Nearest name i j ∧ u.contexts[j]? = some d' ∧
      d.context.env.scope? u.world.store name = some d'.number) ∨
    (∀ j, ¬ u.tree.Nearest name i j) ∧ d.context.env.scope? u.world.store name = none := by
  -- The frames around a context are those of a context with fewer frames around it.
  induction haround : d.around.length using Nat.strong_induction_on generalizing i d with
  | _ n ih =>
    by_cases hname : (u.world.store.scopes.get d.number).get? name = none
    · have hunbound (j : Nat) :=
        ScopeTree.nearest_iff_of_unbound (j := j) (getElem?_tree hd) hname
      rw [scope?_around hname]
      rcases h.around d (List.mem_of_getElem? hd) with
        ⟨houter, hnone⟩ | ⟨k, d', houter, hd', hframes⟩
      · refine .inr ⟨fun j hj => ?_, by rw [hnone]; rfl⟩
        obtain ⟨k, hk, -⟩ := (hunbound j).1 hj
        exact absurd (houter.symm.trans hk) nofun
      · have hfewer : d'.around.length < n := by
          rw [← haround, hframes]
          exact Nat.lt_succ_self _
        have hsame : (d.around.map Frame.scope).find?
            (fun scope => (u.world.store.scopes.get scope).has name) =
              d'.context.env.scope? u.world.store name := by
          rw [hframes]
          rfl
        rw [hsame]
        rcases ih _ hfewer hd' rfl with ⟨j, d'', hj, hd'', hscope⟩ | ⟨hno, hscope⟩
        · exact .inl ⟨j, d'', (hunbound j).2 ⟨k, houter, hj⟩, hd'', hscope⟩
        · refine .inr ⟨fun j hj => ?_, hscope⟩
          obtain ⟨k', hk', hj'⟩ := (hunbound j).1 hj
          obtain rfl := Option.some.inj (houter.symm.trans hk')
          exact hno j hj'
    · exact .inl ⟨i, d, .own (getElem?_tree hd) hname, hd, scope?_own hname⟩

/-! ## Requests -/

section Requests

variable {n : VariableName} {t : Store} {x : Option Value}

theorem Sound.withWorld (h : u.Sound r) (hgoes : u.world.GoesTo w t)
    (hsize : t.scopes.size = u.world.store.scopes.size) :
    ({ u with world := w } : ScopeSession).Sound r where
  registry := hgoes.registry.trans h.registry
  cache := hgoes.cache
  nodup := h.nodup
  bounded d hd := by
    rw [hgoes.store, hsize]
    exact h.bounded d hd
  around := h.around

/-- A use of a variable that rebinds it in the nearest scope. -/
theorem Sound.assign (h : u.Sound r) (hd : u.contexts[i]? = some d) (n : VariableName)
    (x : Option Value) {f : CompiledPath → Registry → Action Unit}
    (hdeclared : ∀ {c r s j}, c.expr.value = .variable n.1 →
      d.context.env.scope? s n.1.text = some j →
        (f c r).result s = (.ok (), s.rebind j n.1.text x))
    (hundeclared : ∀ {c r s}, c.expr.value = .variable n.1 →
      d.context.env.scope? s n.1.text = none →
        (f c r).result s = (.error (.undeclared n.1.text), s)) :
    ∃ y w, (u.perform do
        (do let c ← Run.compile ("$" ++ n.1.text); Run.act (f c))
        pure none) = (y, { u with world := w }) ∧
      ({ u with world := w } : ScopeSession).Sound r ∧
      ((∃ j, u.tree.Nearest n.1.text i j ∧ y = .ok none ∧
          ({ u with world := w } : ScopeSession).tree = u.tree.bind j n.1.text x) ∨
        (∀ j, ¬ u.tree.Nearest n.1.text i j) ∧ y = .error (.undeclared n.1.text) ∧
          ({ u with world := w } : ScopeSession).tree = u.tree) := by
  obtain ⟨c, w, hc, hresult, hgoes⟩ := Run.exists_result_variable n.2 h.cache f
  rcases h.lookup_cases hd n.1.text with ⟨j, d', hj, hd', hscope⟩ | ⟨hno, hscope⟩
  · rw [hdeclared (s := u.world.store.tick) hc hscope] at hresult hgoes
    refine ⟨.ok none, w, ?_, h.withWorld hgoes (Pool.size_set ..), .inl ⟨j, hj, rfl, ?_⟩⟩
    · rw [perform, Run.result_bind_ok hresult]
      rfl
    · rw [tree, hgoes.store]
      exact scopeTree_rebind h.nodup hd' (h.bounded d' (List.mem_of_getElem? hd')) _ _
  · rw [hundeclared (s := u.world.store.tick) hc hscope] at hresult hgoes
    refine ⟨_, w, ?_, h.withWorld hgoes rfl, .inr ⟨hno, rfl, ?_⟩⟩
    · rw [perform, Run.result_bind, hresult]
    · rw [tree, hgoes.store]
      rfl

theorem Sound.read (h : u.Sound r) (hd : u.contexts[i]? = some d) (n : VariableName) :
    ∃ y w, u.perform (d.context.getValue ("$" ++ n.1.text)) = (y, { u with world := w }) ∧
      ({ u with world := w } : ScopeSession).Sound r ∧
      ({ u with world := w } : ScopeSession).tree = u.tree ∧
      ((∃ j v, u.tree.Nearest n.1.text i j ∧ u.tree.value? j n.1.text = some v ∧
          IsReading r u.world.store n.1 v y) ∨
        (∀ j, ¬ u.tree.Nearest n.1.text i j) ∧ y = .error (.undeclared n.1.text)) := by
  obtain ⟨c, w, hc, hresult, hgoes⟩ :=
    Run.exists_result_variable n.2 h.cache fun c r => c.getValue d.context r
  rcases h.lookup_cases hd n.1.text with ⟨j, d', hj, hd', hscope⟩ | ⟨hno, hscope⟩
  · obtain ⟨y, hread, hreading⟩ := CompiledPath.result_getValue_declared
      (r := u.world.engine.registry) (s := u.world.store.tick) hc hscope
    rw [hread] at hresult hgoes
    obtain ⟨v, hv⟩ := Table.has_iff_get?.1 (Environment.has_of_scope? hscope)
    refine ⟨y, w, ?_, h.withWorld hgoes rfl, ?_, .inl ⟨j, v, hj, ?_, ?_⟩⟩
    · exact congrArg (fun z => (z.1, { u with world := z.2 })) hresult
    · rw [tree, hgoes.store]
      rfl
    · rw [ScopeTree.value?, getElem?_tree hd']
      exact hv
    · exact h.registry ▸ (hreading v hv).of_sameGraph (.tick _)
  · have hnothing := CompiledPath.result_getValue_undeclared (r := u.world.engine.registry)
      (s := u.world.store.tick) hc hscope
    rw [hnothing] at hresult hgoes
    refine ⟨_, w, ?_, h.withWorld hgoes rfl, ?_, .inr ⟨hno, rfl⟩⟩
    · exact congrArg (fun z => (z.1, { u with world := z.2 })) hresult
    · rw [tree, hgoes.store]
      rfl

/-- A declaration in the scope of a context. -/
theorem Sound.rebind (h : u.Sound r) (hd : u.contexts[i]? = some d) (name : String)
    (x : Option Value) :
    (u.withStore (u.world.store.rebind d.number name x)).Sound r ∧
      (u.withStore (u.world.store.rebind d.number name x)).tree = u.tree.bind i name x :=
  ⟨h.withWorld ⟨rfl, h.cache, rfl⟩ (Pool.size_set ..),
    scopeTree_rebind h.nodup hd (h.bounded d (List.mem_of_getElem? hd)) name x⟩

/-- One more context, with a new scope and the frames of another context around it. -/
theorem Sound.nest {rel : Context} (h : u.Sound r) (hd : u.contexts[i]? = some d)
    (hregistry : w.engine.registry = r) (hcache : w.engine.cache.Faithful)
    (hscopes : w.store.scopes = (u.world.store.scopes.add .empty).2)
    (hnumber : rel.env.own.scope = u.world.store.scopes.size)
    (hframes : rel.env.outer = d.context.env.frames) :
    ({ world := w, contexts := u.contexts ++ [⟨some i, rel⟩] } : ScopeSession).Sound r ∧
      ({ world := w, contexts := u.contexts ++ [⟨some i, rel⟩] } : ScopeSession).tree =
        u.tree.nest i := by
  have hold (d : DerivedContext) (hd : d ∈ u.contexts) :
      w.store.scopes.get d.number = u.world.store.scopes.get d.number := by
    rw [hscopes, Pool.get_add_of_lt (h.bounded d hd)]
  have hnew : w.store.scopes.get rel.env.own.scope = .empty := by
    rw [hscopes, hnumber]
    exact Pool.get_add_self ..
  have hsize : w.store.scopes.size = u.world.store.scopes.size + 1 := by
    rw [hscopes, Pool.size_add]
  refine ⟨⟨hregistry, hcache, ?_, fun e he => ?_, fun e he => ?_⟩, ?_⟩
  · rw [List.map_append, List.nodup_append]
    refine ⟨h.nodup, List.nodup_singleton _, ?_⟩
    simp only [List.mem_map, List.map_cons, List.map_nil, List.mem_singleton]
    rintro _ ⟨e, he, rfl⟩ _ rfl heq
    have hlt := h.bounded e he
    rw [heq, DerivedContext.number, hnumber] at hlt
    exact lt_irrefl _ hlt
  · rw [hsize]
    rcases List.mem_append.1 he with he | he
    · exact Nat.lt_succ_of_lt (h.bounded e he)
    · obtain rfl := List.mem_singleton.1 he
      exact Nat.lt_succ_of_le hnumber.le
  · rcases List.mem_append.1 he with he | he
    · refine (h.around e he).imp_right ?_
      rintro ⟨k, d', hk, hd', hframes⟩
      have hlt := (List.getElem?_eq_some_iff.1 hd').1
      exact ⟨k, d', hk, (List.getElem?_append_left hlt).trans hd', hframes⟩
    · obtain rfl := List.mem_singleton.1 he
      have hlt := (List.getElem?_eq_some_iff.1 hd).1
      exact .inr ⟨i, d, rfl, (List.getElem?_append_left hlt).trans hd, hframes⟩
  · rw [tree, scopeTree, List.map_append, ScopeTree.nest, tree, scopeTree]
    congr 1
    · refine List.map_congr_left fun e he => ?_
      rw [hold e he]
    · simp only [List.map_cons, List.map_nil, DerivedContext.number, hnew]
      rfl

/-- A derived context gets a scope of its own inside that of its context. -/
theorem Sound.derive {p : Pointer} {rel : Context} (h : u.Sound r) (hd : u.contexts[i]? = some d)
    (hrel : (d.context.relative p).result u.world = (.ok rel, w)) :
    ({ world := w, contexts := u.contexts ++ [⟨some i, rel⟩] } : ScopeSession).Sound r ∧
      ({ world := w, contexts := u.contexts ++ [⟨some i, rel⟩] } : ScopeSession).tree =
        u.tree.nest i := by
  obtain ⟨root, -, rfl, rfl⟩ := Context.relative_cases hrel
  have hscopes : (Context.rootStore p u.world.store).tick.scopes = u.world.store.scopes := by
    obtain ⟨_, _, heq⟩ := (Context.sameGraph_rootStore p u.world.store).trans (.tick _)
    rw [heq]
  refine h.nest hd h.registry h.cache ?_ ?_ rfl
  · rw [← hscopes]
    rfl
  · rw [← hscopes]
    rfl

/-- **A request in a context is a step of the tree.** -/
theorem Sound.ask (h : u.Sound r) (hd : u.contexts[i]? = some d) (request : ScopeRequest) :
    (u.ask i d.context request).2.Sound r ∧
      u.tree.Step (IsReading r u.world.store) ⟨i, request⟩ (u.ask i d.context request).1
        (u.ask i d.context request).2.tree := by
  have hi : i < u.tree.length := by
    rw [tree, scopeTree, List.length_map]
    exact (List.getElem?_eq_some_iff.1 hd).1
  cases request with
  | derive p =>
    rcases hrel : (d.context.relative p).result u.world with ⟨e | rel, w⟩
    · have hask : u.ask i d.context (.derive p) = (.error e, { u with world := w }) := by
        simp only [ScopeSession.ask, hrel]
      obtain ⟨hengine, hgraph⟩ := Context.relative_failure hrel
      have hscopes : w.store.scopes = u.world.store.scopes := by
        obtain ⟨_, _, heq⟩ := hgraph
        rw [heq]
      have htree : ({ u with world := w } : ScopeSession).tree = u.tree := by
        simp only [tree, scopeTree, hscopes]
      rw [hask]
      exact ⟨h.withWorld ⟨by rw [hengine], hengine ▸ h.cache, rfl⟩ (by rw [hscopes]),
        .of_eq htree (.refused hi)⟩
    · have hask : u.ask i d.context (.derive p) =
          (.ok none, { world := w, contexts := u.contexts ++ [⟨some i, rel⟩] }) := by
        simp only [ScopeSession.ask, hrel]
      obtain ⟨hsound, htree⟩ := h.derive hd hrel
      rw [hask]
      exact ⟨hsound, .of_eq htree (.derive hi)⟩
  | declare name v =>
    obtain ⟨hsound, htree⟩ := h.rebind hd name (some v)
    exact ⟨hsound, .of_eq htree (.declare hi)⟩
  | undeclare name =>
    obtain ⟨hsound, htree⟩ := h.rebind hd name none
    exact ⟨hsound, .of_eq htree (.undeclare hi)⟩
  | set n v =>
    obtain ⟨y, w, hask, hsound, hcases⟩ := h.assign hd n (some v)
      (f := fun c r => c.setValue d.context r v)
      (fun hc hj => CompiledPath.result_setValue_declared hc hj v)
      (fun hc hno => CompiledPath.result_setValue_undeclared hc hno v)
    rw [show u.ask i d.context (.set n v) = (y, { u with world := w }) from hask]
    refine ⟨hsound, ?_⟩
    rcases hcases with ⟨j, hj, rfl, htree⟩ | ⟨hno, rfl, htree⟩
    · exact .of_eq htree (.set hj)
    · exact .of_eq htree (.undeclared hi rfl hno)
  | remove n =>
    obtain ⟨y, w, hask, hsound, hcases⟩ := h.assign hd n none
      (f := fun c r => c.remove d.context r)
      (fun hc hj => CompiledPath.result_remove_declared hc hj)
      (fun hc hno => CompiledPath.result_remove_undeclared hc hno)
    rw [show u.ask i d.context (.remove n) = (y, { u with world := w }) from hask]
    refine ⟨hsound, ?_⟩
    rcases hcases with ⟨j, hj, rfl, htree⟩ | ⟨hno, rfl, htree⟩
    · exact .of_eq htree (.remove hj)
    · exact .of_eq htree (.undeclared hi rfl hno)
  | read n =>
    obtain ⟨y, w, hask, hsound, htree, hcases⟩ := h.read hd n
    rw [show u.ask i d.context (.read n) = (y, { u with world := w }) from hask]
    refine ⟨hsound, .of_eq htree ?_⟩
    rcases hcases with ⟨j, v, hj, hv, hreads⟩ | ⟨hno, rfl⟩
    · exact .read hj hv hreads
    · exact .undeclared hi rfl hno

end Requests

/-! ## Sessions -/

/-- **A call is a step of the tree.** -/
theorem Sound.step (h : u.Sound r) (c : ScopeCall) :
    (u.step c).Sound r ∧
      u.tree.Step (IsReading r u.world.store) c (u.answer c) (u.step c).tree := by
  rw [ScopeSession.step, answer, call]
  split
  · next d hd => exact h.ask hd c.request
  · next hnone =>
    refine ⟨h, .absent ?_⟩
    rw [tree, scopeTree, List.length_map]
    exact List.getElem?_eq_none_iff.1 hnone

theorem sound_run (h : u.Sound r) (calls : List ScopeCall) : (u.run calls).Sound r := by
  induction calls generalizing u with
  | nil => exact h
  | cons c calls ih => exact ih (h.step c).1

/-- A new context has an empty scope of its own, and no context is around it. -/
theorem sound_start {w₀ : World} {root : Value} {ctx : Context}
    (hcache : w₀.engine.cache.Faithful) (h : (Context.new root).result w₀ = (.ok ctx, w)) :
    (start ctx w).Sound w₀.engine.registry ∧
      (start ctx w).tree = [{ outer := none, bindings := fun _ => none }] := by
  simp only [Context.new, Run.result_bind_eq_ok_iff, Run.result_get, Run.result_read,
    Run.result_act, Run.result_pure, Prod.mk.injEq, Except.ok.injEq] at h
  obtain ⟨_, _, ⟨rfl, rfl⟩, p, _, ⟨-, rfl⟩, scope, _, ⟨hscope, rfl⟩, rfl, rfl⟩ := h
  obtain rfl := Except.ok.inj hscope
  refine ⟨⟨rfl, hcache, List.nodup_singleton _, fun d hd => ?_, fun d hd => ?_⟩, ?_⟩
  · obtain rfl := List.mem_singleton.1 hd
    show w₀.store.scopes.size < (w₀.store.scopes.add .empty).2.size
    rw [Pool.size_add]
    exact Nat.lt_succ_self _
  · obtain rfl := List.mem_singleton.1 hd
    exact .inl ⟨rfl, rfl⟩
  · let scopes := w₀.store.scopes
    show [Scope.mk none ((scopes.add .empty).2.get (scopes.add .empty).1).get?] = _
    rw [Pool.get_add_self]
    rfl

/-- With the standard factories, a value that is neither a cell nor foreign is read as it is, from
whichever scope around is the nearest to declare it by then. -/
theorem answer_read {w₀ : World} {root v : Value} {ctx : Context} {n : VariableName}
    (hcache : w₀.engine.cache.Faithful) (hr : w₀.engine.registry = .standard)
    (hnew : (Context.new root).result w₀ = (.ok ctx, w)) (calls : List ScopeCall)
    (hj : ((start ctx w).run calls).tree.Nearest n.1.text i j)
    (hv : ((start ctx w).run calls).tree.value? j n.1.text = some v)
    (hc : ∀ id, v ≠ .cell id) (hf : ∀ id, v ≠ .foreign id) :
    ((start ctx w).run calls).answer ⟨i, .read n⟩ = .ok (CompiledPath.shownValue (some v)) := by
  have hstep := ((sound_run (sound_start hcache hnew).1 calls).step ⟨i, .read n⟩).2
  have hreads := hstep.reads_of_nearest hj hv
  apply hreads.plain
  rw [hr]
  exact Registry.showsPlainly_standard hc hf _ _

/-- **Contexts share their scopes as a tree of scopes.** A new context has an empty scope. After any
calls, made in it and in the contexts derived from it and from one another, one more call answers
and changes the variables as a step of the tree does, and it leaves every scope alone but the one
that it is aimed at. -/
theorem step_run {w₀ : World} {root : Value} {ctx : Context} (hcache : w₀.engine.cache.Reached)
    (hnew : (Context.new root).result w₀ = (.ok ctx, w)) :
    (start ctx w).tree = [{ outer := none, bindings := fun _ => none }] ∧
      ∀ (calls : List ScopeCall) (call : ScopeCall),
        let u := (start ctx w).run calls
        u.tree.Step (IsReading w₀.engine.registry u.world.store) call (u.answer call)
            (u.step call).tree ∧
          ∀ j < u.tree.length, ¬ u.tree.Aims call j → (u.step call).tree[j]? = u.tree[j]? := by
  obtain ⟨hstart, htree⟩ := sound_start hcache.faithful hnew
  refine ⟨htree, fun calls call => ?_⟩
  have hstep := ((sound_run hstart calls).step call).2
  exact ⟨hstep, fun j hj => hstep.getElem?_of_not_aims hj⟩

/-! ## A shelf -/

/-- An empty map, a cell with a truth value, and a value of a foreign kind. -/
def shelf : World where
  engine := .ofSettings {}
  store := { maps := ⟨#[.empty]⟩, cells := ⟨#[.bool true]⟩, foreigns := ⟨#[{ kind := "widget" }]⟩ }

/-- The node of the map. -/
def shelfNode : Pointer := { visit := { node := .map 0 none, occasion := {} } }

/-- The variable `$n`. -/
def variableN : VariableName := ⟨.bare "n", rfl, nofun⟩

/-- A variable is declared in a context, and set and read in one derived from it. -/
theorem step_run_shelf :
    ∃ ctx w, (Context.new (.map 0)).result shelf = (.ok ctx, w) ∧
      let u := (start ctx w).run
        [⟨0, .derive shelfNode⟩, ⟨0, .declare "n" (.bool true)⟩, ⟨1, .set variableN (.bool false)⟩]
      u.tree.Step (IsReading .standard u.world.store) ⟨1, .read variableN⟩
          (u.answer ⟨1, .read variableN⟩) (u.step ⟨1, .read variableN⟩).tree ∧
        u.tree.value? 0 "n" = some (.bool false) ∧ u.tree.value? 1 "n" = none ∧
        u.answer ⟨1, .read variableN⟩ = .ok (some (.bool false)) := by
  obtain ⟨ctx, w, hnew, hvalues⟩ := Run.exists_result_ok (a := Context.new (.map 0)) (w := shelf)
    (P := fun ctx w =>
      let u := (start ctx w).run
        [⟨0, .derive shelfNode⟩, ⟨0, .declare "n" (.bool true)⟩, ⟨1, .set variableN (.bool false)⟩]
      u.tree.value? 0 "n" = some (.bool false) ∧ u.tree.value? 1 "n" = none ∧
        u.answer ⟨1, .read variableN⟩ = .ok (some (.bool false)))
    (by decide +kernel) (by decide +kernel)
  have hcache : shelf.engine.cache.Reached := .made _
  exact ⟨ctx, w, hnew, ((step_run hcache hnew).2 _ _).1, hvalues⟩

/-- The session of one context in which the variable is declared. -/
def declaring (ctx : Context) (w : World) (v : Value) : ScopeSession :=
  (start ctx w).run [⟨0, .declare "n" v⟩]

/-- What is read is not always the value that is declared: a foreign value has no pointer, and a
cell stands for what is in it. -/
theorem read_declared_shelf :
    ∃ ctx w, (Context.new (.map 0)).result shelf = (.ok ctx, w) ∧
      (∀ v ∈ [Value.foreign 0, .cell 0], (declaring ctx w v).tree.Nearest "n" 0 0 ∧
        (declaring ctx w v).tree.value? 0 "n" = some v) ∧
      (declaring ctx w (.foreign 0)).answer ⟨0, .read variableN⟩ =
        .error (.unresolvable "widget") ∧
      (declaring ctx w (.cell 0)).answer ⟨0, .read variableN⟩ = .ok (some (.bool true)) := by
  obtain ⟨ctx, w, hnew, hvalues, hanswers⟩ :=
    Run.exists_result_ok (a := Context.new (.map 0)) (w := shelf)
      (P := fun ctx w =>
        (∀ v ∈ [Value.foreign 0, .cell 0], (declaring ctx w v).tree.value? 0 "n" = some v) ∧
          (declaring ctx w (.foreign 0)).answer ⟨0, .read variableN⟩ =
            .error (.unresolvable "widget") ∧
          (declaring ctx w (.cell 0)).answer ⟨0, .read variableN⟩ = .ok (some (.bool true)))
      (by decide +kernel) (by decide +kernel)
  exact ⟨ctx, w, hnew, fun v hv => ⟨ScopeTree.nearest_of_value? (hvalues v hv), hvalues v hv⟩,
    hanswers⟩

end ScopeSession

end PathQuery
