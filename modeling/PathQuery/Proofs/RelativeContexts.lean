import PathQuery.Proofs.Effects
import PathQuery.Proofs.Lenience
import PathQuery.Proofs.Resolving
import PathQuery.Proofs.SteadyPaths

/-!
# Relative contexts

A context derived from another at a node of its graph. It reads a relative path as the other context
reads the absolute path that leads to the node and on, and it selects the same nodes by absolute
paths.

* names: `Context.Derives`, `CompiledPath.SameRead`.
* The derived context looks up the same variables and functions, for its own frame declares nothing.
  Its root is a namesake of the other root, and the node that it stands at is a namesake of the node
  that the path leads to whenever it is followed again.
* **`read_relative`**: both ways of reading, from the derived context and from the other.
-/

namespace PathQuery

open Pointer (Namesake)

/-! ## Derived contexts -/

namespace Context

/-- The second context stands at `p` in the graph of `v`, has an empty frame of its own, and looks
up everything else in the frames of the first. -/
structure Derives (ctx : Context) (p : Pointer) (v : Value) (s : Store) (rel : Context) : Prop where
  here : rel.here = p
  locale : rel.env.locale = ctx.env.locale
  lenient : rel.env.lenient = ctx.env.lenient
  outer : rel.env.outer = ctx.env.frames
  functions : rel.env.own.functions = none
  scope : s.scopes.get rel.env.own.scope = .empty
  root : ∃ u, Registry.standard.root u v ctx.env.locale = .ok rel.env.root

variable {ctx rel : Context} {p : Pointer} {v : Value} {s : Store} {w w' : World}

theorem result_rootValue (p : Pointer) (s : Store) :
    (Action.rootValue p).result s = (.ok (p.rootValue s), s.settle p) := by
  have hsettled : p.rootValue (s.settle p) = p.rootValue s := p.rootValue_eq_of_settled s rfl
  rw [← hsettled]
  rfl

theorem sameGraph_settle (p : Pointer) (s : Store) : s.SameGraph (s.settle p) := by
  rw [Store.settle]
  split
  · exact .refl s
  · exact ⟨_, _, rfl⟩

/-- The store in which the root of a relative context is made. -/
def rootStore (p : Pointer) (s : Store) : Store := (s.tick.tick.settle p).tick

theorem sameGraph_rootStore (p : Pointer) (s : Store) : s.SameGraph (rootStore p s) :=
  (((Store.SameGraph.tick _).trans (.tick _)).trans (sameGraph_settle p _)).trans (.tick _)

/-- What making a relative context comes to. -/
theorem relative_cases (h : (ctx.relative p).result w = (.ok rel, w')) :
    ∃ root, w.engine.registry.root (rootStore p w.store) (p.rootValue w.store) ctx.env.locale =
        .ok root ∧
      w' = { w with store := ((rootStore p w.store).tick.addScope .empty).2 } ∧
      rel =
        { env :=
            { ctx.env with
              root
              own :=
                { scope := ((rootStore p w.store).tick.addScope .empty).1, namespaceNode := some p }
              outer := ctx.env.frames }
          here := p } := by
  simp only [relative, Run.result_bind_eq_ok_iff, Run.result_read, Prod.mk.injEq] at h
  obtain ⟨value, w₁, ⟨-, rfl⟩, h⟩ := h
  split at h
  · cases h
  · simp only [Run.result_bind_eq_ok_iff, Run.result_act, Run.result_read, result_rootValue,
      Prod.mk.injEq, Except.ok.injEq] at h
    obtain ⟨origin, w₂, ⟨rfl, rfl⟩, root, w₃, ⟨hroot, rfl⟩, scope, w₄, ⟨hscope, rfl⟩, h⟩ := h
    obtain rfl := Except.ok.inj hscope
    have hticks : w.store.SameGraph w.store.tick.tick := (Store.SameGraph.tick _).trans (.tick _)
    have hvalue : p.rootValue w.store.tick.tick = p.rootValue w.store := by
      rw [Pointer.rootValue, Pointer.origin, hticks.sameContents.base]
      rfl
    rw [hvalue] at hroot
    exact ⟨root, hroot, (Prod.mk.inj h).2.symm, (Except.ok.inj (Prod.mk.inj h).1).symm⟩

/-- Where no relative context is made, nothing is written and no scope is made. -/
theorem relative_failure {e : PathError} (h : (ctx.relative p).result w = (.error e, w')) :
    w'.engine = w.engine ∧ w.store.SameGraph w'.store := by
  have htick := Store.SameGraph.tick w.store
  rw [relative, Run.result_bind, Run.result_read] at h
  cases hvalue : p.value w.store.tick w.engine.registry with
  | error e' =>
    simp only [hvalue, Prod.mk.injEq] at h
    exact h.2 ▸ ⟨rfl, htick⟩
  | ok v =>
    simp only [hvalue] at h
    split at h
    · exact (Prod.mk.inj h).2 ▸ ⟨rfl, htick⟩
    · rw [Run.result_bind, Run.result_act, result_rootValue] at h
      dsimp only at h
      rw [Run.result_bind, Run.result_read] at h
      dsimp only at h
      generalize w.engine.registry.root _ _ _ = root at h
      cases root with
      | error e' => exact (Prod.mk.inj h).2 ▸ ⟨rfl, sameGraph_rootStore p w.store⟩
      | ok root => cases h

/-- **A relative context derives from its context**, and making it writes nothing. -/
theorem derives_of_relative (hr : w.engine.registry = .standard)
    (h : (ctx.relative p).result w = (.ok rel, w')) :
    w'.engine = w.engine ∧ w.store.SameContents w'.store ∧
      ctx.Derives p (p.rootValue w.store) w'.store rel := by
  obtain ⟨root, hroot, rfl, rfl⟩ := relative_cases h
  rw [hr] at hroot
  have hgraph := (sameGraph_rootStore p w.store).trans (.tick _)
  refine ⟨rfl, hgraph.sameContents.trans (Store.sameContents_newScope _), ?_⟩
  exact
    { here := rfl
      locale := rfl
      lenient := rfl
      outer := rfl
      functions := rfl
      scope := Pool.get_add_self _ _
      root := ⟨_, hroot⟩ }

/-- Making a relative context keeps to the value that is settled on. -/
theorem settlesOn_of_relative (hs : w.store.SettlesOn v) (hv : ∀ c, v ≠ .cell c)
    (h : (ctx.relative p).result w = (.ok rel, w')) : w'.store.SettlesOn v := by
  obtain ⟨root, -, rfl, -⟩ := relative_cases h
  have htwice : w.store.tick.tick.SettlesOn v := hs
  exact htwice.settle hv p

namespace Derives

variable (h : ctx.Derives p v s rel)

include h

theorem frames : rel.env.frames = rel.env.own :: ctx.env.frames := by
  rw [Environment.frames, h.outer]

theorem scope? (name : String) : rel.env.scope? s name = ctx.env.scope? s name := by
  have hnone : (s.scopes.get rel.env.own.scope).has name = false := by
    rw [h.scope]
    rfl
  rw [Environment.scope?, Environment.scope?, h.frames, List.map_cons,
    List.find?_cons_of_neg (by rw [hnone]; exact Bool.false_ne_true)]

theorem function? (f : QName) (n : Nat) : rel.env.function? f n = ctx.env.function? f n := by
  rw [Environment.function?, Environment.function?, h.frames, List.findSome?_cons, h.functions]
  rfl

end Derives

end Context

/-! ## Reading -/

namespace CompiledPath

/-- The reads give the same, or both paths find nothing. -/
def SameRead (c d : CompiledPath) (x y : Except PathError (Option Value)) : Prop :=
  y = x ∨ x = .error c.notFound ∧ y = .error d.notFound

variable {ctx ctx' : Context} {c d : CompiledPath} {s t : Store} {p q : Pointer} {b : Prop}

/-- Namesakes hold the same for paths that come to them. -/
theorem valueOf_namesake (hlenient : ctx'.env.lenient = ctx.env.lenient)
    (h : p.Namesake b s q) (hst : s.SameContents t) :
    SameRead c d (c.valueOf ctx .standard s (.pointer p))
      (d.valueOf ctx' .standard t (.pointer q)) := by
  have htarget := h.valuePointer hst
  rw [valueOf, valueOf]
  cases hx : p.valuePointer s .standard with
  | error e =>
    rw [hx, Except.alike_error_iff] at htarget
    rw [htarget]
    exact .inl rfl
  | ok x =>
    rw [hx, Except.alike_ok_iff] at htarget
    obtain ⟨y, hy, hnode⟩ := htarget
    simp only [hy, Except.ok_bind, hlenient, h.node, hnode, hst.isActual, Pointer.immediate,
      hst.immediate]
    split
    · exact .inr ⟨rfl, rfl⟩
    · exact .inl rfl

theorem SameRead.map {x y : Except PathError (Option Value)} (h : SameRead c d x y)
    (f : Option Value → Option Value) : SameRead c d (x.map f) (y.map f) := by
  rcases h with rfl | ⟨rfl, rfl⟩
  · exact .inl rfl
  · exact .inr ⟨rfl, rfl⟩

section Simple

variable {start : Start} {steps : List Step} {isAbsolute : Bool} {slots : List SimpleStep}

/-- The pointer of a simple path is what the path is resolved to. -/
theorem resolve_of_getPointer (hc : c.expr.value = .path start steps)
    (hpath : simplePath? start steps = some (isAbsolute, slots))
    (h : (c.getPointer ctx .standard).result s = (.ok p, t)) :
    (ctx.env.resolve .standard (s.now.part 0) (startOf ctx isAbsolute) slots).result s =
      (.ok p, t) := by
  rcases hx : (ctx.env.resolve .standard (s.now.part 0) (startOf ctx isAbsolute) slots).result s
    with ⟨e | q, u⟩
  all_goals rw [result_getPointer, result_single_of_resolve hc hpath hx] at h
  · cases h
  · simp only [Except.map, pointerOf, Prod.mk.injEq] at h
    obtain ⟨h, rfl⟩ := h
    split at h
    · obtain rfl := Except.ok.inj h
      rfl
    · cases h

/-- Paths that come to namesakes are read alike. -/
theorem sameRead_of_single (hlenient : ctx'.env.lenient = ctx.env.lenient)
    {x y : Except PathError Pointer} (hxy : Except.Alike (Namesake b s) x y)
    (hc : (c.single ctx .standard).result s = (x.map .pointer, s))
    (hd : (d.single ctx' .standard).result s = (y.map .pointer, s)) :
    SameRead c d ((c.getValue ctx .standard).result s).1
      ((d.getValue ctx' .standard).result s).1 := by
  rw [result_getValue, result_getValue, hc, hd]
  cases x with
  | error e =>
    obtain rfl := Except.alike_error_iff.1 hxy
    exact .inl rfl
  | ok p =>
    obtain ⟨q, rfl, hpq⟩ := Except.alike_ok_iff.1 hxy
    exact (valueOf_namesake hlenient hpq (.refl s)).map shownValue

/-- The nodes of an absolute path are those of a walk from the root. -/
theorem result_nodes_root (hc : c.expr.value = .path .root steps) (s : Store) :
    (c.nodes ctx .standard).result s =
      (.ok (ctx.env.walk .standard steps ((s.now.part 0).part 1) s (.ofList [ctx.env.root])), s) := by
  simp only [nodes, Environment.begin, hc, Action.result_bind, Action.result_get,
    Environment.compute, Environment.startNodes]
  simp [Environment.traverse]

end Simple

end CompiledPath

/-! ## The root of a graph -/

/-- A root is the node of its value, found when it was made. -/
theorem Registry.root_standard {u : Store} {v : Value} {locale : Locale} {p : Pointer}
    (h : standard.root u v locale = .ok p) :
    (∀ f, v ≠ .foreign f) ∧ p = { visit := { node := v.node none, occasion := u.now }, locale } := by
  have hf : ∀ f, v ≠ .foreign f := by
    rintro f rfl
    cases h
  rw [root, create_standard u none locale [] hf] at h
  exact ⟨hf, (Except.ok.inj h).symm⟩

section Roots

variable {u u' : Store} {v : Value} {locale locale' : Locale} {p q : Pointer}

theorem Pointer.startsFrom_root (h : Registry.standard.root u v locale = .ok p) (s : Store) :
    p.StartsFrom s v := by
  obtain ⟨-, rfl⟩ := Registry.root_standard h
  exact ⟨.root (.inl rfl), settled_of_none rfl⟩

/-- Two roots of one graph are namesakes. -/
theorem Pointer.namesake_of_roots {b : Prop} (h : Registry.standard.root u v locale = .ok p)
    (h' : Registry.standard.root u' v locale' = .ok q) (hb : b → locale' = locale) (s : Store) :
    p.Namesake b s q := by
  obtain ⟨hf, rfl⟩ := Registry.root_standard h
  obtain ⟨-, rfl⟩ := Registry.root_standard h'
  exact ⟨rfl, hb, v.node none, Value.isPlain_node hf, .root (.inl rfl)⟩

end Roots

/-! ## Both ways -/

namespace Context

/-- A derived context looks up the same as the other, at any time. -/
theorem Derives.sameLookups {ctx rel : Context} {p : Pointer} {v : Value} {s t u : Store}
    {locale : Locale} (h : ctx.Derives p v s rel) (c : s.SameContents t)
    (hroot : Registry.standard.root u v locale = .ok ctx.env.root) :
    Environment.SameLookups (ctx.env.root.locale = ctx.env.locale) t t ctx.env rel.env where
  root := by
    obtain ⟨u', hroot'⟩ := h.root
    refine Pointer.namesake_of_roots hroot hroot' (fun hlocale => ?_) t
    rw [← hlocale, (Registry.root_standard hroot).2]
  locale := h.locale
  scope? name := by
    simp only [Environment.scope?, c.scope]
    exact h.scope? name
  function? := h.function?

end Context

namespace CompiledPath

variable {ctx rel : Context} {s u : Store} {v : Value} {b : Prop} {locale : Locale}
variable {steps more : List Step} {slots moreSlots : List SimpleStep} {c d q : CompiledPath}

/-- A relative path is read at a node as the absolute path that leads to a namesake of the node and
goes on. -/
theorem sameRead_of_sameLookups (h : Environment.SameLookups b s s ctx.env rel.env)
    (hlenient : rel.env.lenient = ctx.env.lenient)
    (hslots : simplePath? .root steps = some (true, slots))
    (hc : c.expr.value = .path .here more) (hmore : simplePath? .here more = some (false, moreSlots))
    (hd : d.expr.value = .path .root (steps ++ more))
    (hsteady : ctx.env.Steady b s c.expr.value.calls) {p : Pointer}
    (hp : (ctx.env.resolve .standard (s.now.part 0) ctx.env.root slots).result s = (.ok p, s))
    (hnamesake : p.Namesake b s rel.here) :
    SameRead d c ((d.getValue ctx .standard).result s).1
      ((c.getValue rel .standard).result s).1 := by
  have hsteps : steps.mapM Step.simple? = some slots := by simpa [simplePath?] using hslots
  have hsteps' : more.mapM Step.simple? = some moreSlots := by simpa [simplePath?] using hmore
  have hboth : simplePath? .root (steps ++ more) = some (true, slots ++ moreSlots) := by
    simp [simplePath?, List.mapM_append, hsteps, hsteps']
  have hcs : ∀ step ∈ moreSlots, ∀ e, step.index = some e → ctx.env.Steady b s e.calls := by
    intro step hstep e he
    rw [hc] at hsteady
    exact hsteady.mono (calls_subset_of_mem hsteps' hstep he)
  obtain ⟨o, ho⟩ := Environment.resolve_append hp
  obtain ⟨x, y, hx, hy, hxy⟩ :=
    Environment.resolve_alike (.refl s) h hcs hnamesake o (s.now.part 0)
  exact sameRead_of_single hlenient hxy (result_single_of_resolve hd hboth ((ho moreSlots).trans hx))
    (result_single_of_resolve hc hmore hy)

/-- An absolute path selects namesakes. -/
theorem nodes_of_sameLookups (h : Environment.SameLookups b s s ctx.env rel.env)
    (hc : c.expr.value = .path .root steps) (hsteady : ctx.env.Steady b s c.expr.value.calls) :
    ∃ n m, (c.nodes ctx .standard).result s = (.ok n, s) ∧
      (c.nodes rel .standard).result s = (.ok m, s) ∧
      n.nodes.Alike (Pointer.Namesake b s) m.nodes := by
  rw [hc] at hsteady
  have contents := Store.SameContents.refl s
  refine ⟨_, _, result_nodes_root hc s, result_nodes_root hc s, Search.Alike.nodes ?_⟩
  exact Environment.walk_alike (contents.counterparts b) steps (h.alike contents hsteady _) trivial
    (Search.alike_ofList (.cons h.root .nil))

/-- What relative contexts stand at: a namesake of the node that the path leads to, now and later. -/
theorem derives_at {p : Pointer} {w w₁ w₂ : World} (hr : w.engine.registry = .standard)
    (hv : ∀ c, v ≠ .cell c) (hroot : Registry.standard.root u v locale = .ok ctx.env.root)
    (hs : w.store.SettlesOn v) (hq : q.expr.value = .path .root steps)
    (hslots : simplePath? .root steps = some (true, slots))
    (hsteady : ctx.env.Steady True w.store q.expr.value.calls)
    (hp : (Run.act fun r => q.getPointer ctx r).result w = (.ok p, w₁))
    (hrel : (ctx.relative p).result w₁ = (.ok rel, w₂)) :
    w₂.engine = w.engine ∧ w.store.SameContents w₂.store ∧ ctx.Derives p v w₂.store rel ∧
      ∀ t, w.store.SameContents t → ∀ o, ∃ p',
        (ctx.env.resolve .standard o ctx.env.root slots).result t = (.ok p', t) ∧
          p'.Namesake True w.store p := by
  have hsteps : steps.mapM Step.simple? = some slots := by simpa [simplePath?] using hslots
  have c := (Store.SameGraph.tick w.store).sameContents
  have hf := (Registry.root_standard hroot).1
  have hself := Pointer.namesake_of_roots (b := True) hroot hroot (fun _ => rfl) w.store.tick
  have hcs : ∀ step ∈ slots, ∀ e, step.index = some e →
      ctx.env.Steady True w.store.tick e.calls := by
    intro step hstep e he
    rw [hq] at hsteady
    exact (hsteady.congr c).mono (calls_subset_of_mem hsteps hstep he)
  rw [Run.result_act, hr, Prod.mk.injEq] at hp
  obtain ⟨hp, rfl⟩ := hp
  obtain ⟨s₁, hs₁⟩ : ∃ s₁, ((q.getPointer ctx .standard).result w.store.tick).2 = s₁ := ⟨_, rfl⟩
  rw [hs₁] at hrel
  have hresolve := resolve_of_getPointer hq hslots (Prod.ext hp hs₁)
  -- The path is followed once more in another store, from the same root.
  have hagain (t : Store) (hst : w.store.tick.SameContents t) (o : Occasion) :=
    Environment.resolve_alike hst (Environment.sameLookups_self hst hself) hcs hself
      (w.store.tick.now.part 0) o
  obtain rfl : s₁ = w.store.tick := by
    obtain ⟨x, y, hx, -⟩ := hagain _ (.refl _) {}
    exact (congrArg Prod.snd hresolve).symm.trans (congrArg Prod.snd hx)
  have hstart : p.StartsFrom w.store.tick v :=
    Environment.startsFrom_resolve (s := w.store.tick) hf hs
      (Environment.sameLookups_self (.refl _) hself) hcs (Pointer.startsFrom_root hroot _) hresolve
  obtain ⟨hengine, hcontents, hderives⟩ :=
    Context.derives_of_relative (w := { w with store := w.store.tick }) hr hrel
  rw [hstart.rootValue hs hv] at hderives
  refine ⟨hengine, c.trans hcontents, hderives, fun t hst o => ?_⟩
  obtain ⟨x, y, hx, hy, hxy⟩ := hagain t (c.symm.trans hst) o
  obtain rfl : x = .ok p := (congrArg Prod.fst hx).symm.trans (congrArg Prod.fst hresolve)
  obtain ⟨p', rfl, hpp'⟩ := Except.alike_ok_iff.1 hxy
  exact ⟨p', hy, by rw [← c.namesake_eq]; exact hpp'.symm⟩

/-- **Relative contexts compose with absolute paths.** A relative simple path is read in the
relative context as the absolute path that goes on with it is read in the other context, and an
absolute path selects namesakes there, with the same paths and values. No call of these may ask for
the language, unless the root of the graph and the context share one; and the functions of the
caller must be steady. -/
theorem read_relative {p : Pointer} {w w₁ w₂ : World} (hr : w.engine.registry = .standard)
    (hv : ∀ c, v ≠ .cell c) (hroot : Registry.standard.root u v locale = .ok ctx.env.root)
    (hs : w.store.SettlesOn v) (hq : q.expr.value = .path .root steps)
    (hslots : simplePath? .root steps = some (true, slots))
    (hsteady : ctx.env.Steady True w.store q.expr.value.calls)
    (hp : (Run.act fun r => q.getPointer ctx r).result w = (.ok p, w₁))
    (hrel : (ctx.relative p).result w₁ = (.ok rel, w₂)) :
    (∀ (c d : CompiledPath) (more : List Step) (moreSlots : List SimpleStep),
      c.expr.value = .path .here more → simplePath? .here more = some (false, moreSlots) →
      d.expr.value = .path .root (steps ++ more) →
      ctx.env.Steady (ctx.env.root.locale = ctx.env.locale) w.store c.expr.value.calls →
        SameRead d c ((Run.act fun r => d.getValue ctx r).result w₂).1
          ((Run.act fun r => c.getValue rel r).result w₂).1) ∧
    ∀ (c : CompiledPath) (path : List Step), c.expr.value = .path .root path →
      ctx.env.Steady (ctx.env.root.locale = ctx.env.locale) w.store c.expr.value.calls →
        ∃ n m, ((Run.act fun r => c.nodes ctx r).result w₂).1 = .ok n ∧
          ((Run.act fun r => c.nodes rel r).result w₂).1 = .ok m ∧
          n.nodes.Alike (fun x y => y.path w₂.store = x.path w₂.store ∧
            y.value w₂.store .standard = x.value w₂.store .standard) m.nodes := by
  obtain ⟨hengine, hcontents, hderives, hagain⟩ :=
    derives_at hr hv hroot hs hq hslots hsteady hp hrel
  have hr₂ : w₂.engine.registry = .standard := by rw [hengine, hr]
  have ctick := (Store.SameGraph.tick w₂.store).sameContents
  have c₂ := hcontents.trans ctick
  have hlookups := hderives.sameLookups ctick hroot
  simp only [Run.result_act, hr₂]
  constructor
  · intro c d more moreSlots hc hmore hd hcalls
    obtain ⟨p', hp', hnamesake⟩ := hagain w₂.store.tick c₂ (w₂.store.tick.now.part 0)
    refine sameRead_of_sameLookups hlookups hderives.lenient hslots hc hmore hd (hcalls.congr c₂)
      hp' ?_
    rw [c₂.namesake_eq, hderives.here]
    exact hnamesake.weaken fun _ => trivial
  · intro c path hc hcalls
    obtain ⟨n, m, hn, hm, hnm⟩ := nodes_of_sameLookups hlookups hc (hcalls.congr c₂)
    refine ⟨n, m, congrArg Prod.fst hn, congrArg Prod.fst hm, hnm.1.imp fun x y hxy => ?_, hnm.2⟩
    rw [ctick.namesake_eq] at hxy
    exact ⟨hxy.path (.refl _), hxy.value (.refl _)⟩

/-! ## A lesson -/

/-- A map with another map in a slot, and a declared variable. -/
def lesson : Store where
  maps := ⟨#[.ofList [("k", .bool true), ("q", .map 1)], .ofList [("a", .bool true)]]⟩
  scopes := ⟨#[.ofList [("x", .bool true)]]⟩

/-- The world of the map. -/
def lessonWorld : World := { engine := .ofSettings {}, store := lesson }

/-- A context at the map, with a function `ask`. -/
def lessonContext (ask : Function) : Context :=
  let root : Pointer := { visit := { node := .map 0 none, occasion := {} } }
  let functions : FunctionLibrary := ⟨[(⟨.bare "ask", none⟩, ask)]⟩
  { env := { root, locale := {}, lenient := false, own := { scope := 0, functions } }, here := root }

/-- A step to a child, with its predicates. -/
def stepTo (name : String) (predicates : List Expr := []) : Step :=
  .mk .child (.name (.bare name)) predicates

/-- The path of some steps. -/
def pathFrom (source : String) (start : Start) (steps : List Step) : CompiledPath where
  source
  expr := { id := 0, value := .path start steps }

/-- The context relative to the node of a path. -/
def relativeTo (ctx : Context) (q : CompiledPath) : Run Context := do
  let p ← Run.act fun r => q.getPointer ctx r
  ctx.relative p

/-- A function that answers with yes. -/
def askYes : Function := fun _ _ => pure (.boolean true)

theorem askYes_steady (b : Prop) (s : Store) : askYes.Steady b s :=
  fun _ _ _ _ _ _ _ _ _ _ => Action.alike_pure (.boolean true)

/-- A call of the function. -/
def askCall : Expr := .call (.bare "ask") []

/-- A call that asks whether the language is the named one. -/
def langCall (tag : String) : Expr := .call (.bare "lang") [.literal tag]

theorem lesson_steady (b : Prop) (s : Store) :
    (lessonContext askYes).env.Steady b s askCall.calls := by
  intro x hx
  obtain rfl : x = (.bare "ask", 0) := List.mem_singleton.1 hx
  rintro g ⟨⟩
  exact askYes_steady b s

theorem settlesOn_lesson (v : Value) : lesson.SettlesOn v := by
  rintro e ⟨⟩

/-- The same is read both ways, with a steady function and the language of the root. -/
theorem read_relative_lesson :
    let ctx := lessonContext askYes
    let q := pathFrom "/q[ask()]" .root [stepTo "q" [askCall]]
    let english := .filter (.variable (.bare "x")) [.path .root [stepTo "k" [langCall "en"]]]
    let c := pathFrom "a[$x[/k[lang('en')]]]" .here [stepTo "a" [english]]
    let d := pathFrom "/q[ask()]/a[$x[/k[lang('en')]]]" .root
      [stepTo "q" [askCall], stepTo "a" [english]]
    let all := pathFrom "/q/a" .root [stepTo "q", stepTo "a"]
    ∃ p w₁ rel w₂, (Run.act fun r => q.getPointer ctx r).result lessonWorld = (.ok p, w₁) ∧
      (ctx.relative p).result w₁ = (.ok rel, w₂) ∧
      ((Run.act fun r => c.getValue rel r).result w₂).1 = .ok (some (.bool true)) ∧
      SameRead d c ((Run.act fun r => d.getValue ctx r).result w₂).1
        ((Run.act fun r => c.getValue rel r).result w₂).1 ∧
      ∃ n m, ((Run.act fun r => all.nodes ctx r).result w₂).1 = .ok n ∧
        ((Run.act fun r => all.nodes rel r).result w₂).1 = .ok m ∧
        n.nodes.Alike (fun x y => y.path w₂.store = x.path w₂.store ∧
          y.value w₂.store .standard = x.value w₂.store .standard) m.nodes := by
  intro ctx q english c d all
  obtain ⟨rel, w₂, hrun, hvalue⟩ : ∃ rel w₂, (relativeTo ctx q).result lessonWorld = (.ok rel, w₂) ∧
      ((Run.act fun r => c.getValue rel r).result w₂).1 = .ok (some (.bool true)) :=
    Run.exists_result_ok (by decide +kernel) (by decide +kernel)
  obtain ⟨p, w₁, hp, hrel⟩ := Run.result_bind_eq_ok_iff.1 hrun
  have hslots : simplePath? .root [stepTo "q" [askCall]] =
      some (true, [{ name := .bare "q", isAttribute := false, index := some askCall }]) := rfl
  have hmore : simplePath? .here [stepTo "a" [english]] =
      some (false, [{ name := .bare "a", isAttribute := false, index := some english }]) := rfl
  have hroot : Registry.standard.root {} (.map 0) {} = .ok ctx.env.root := rfl
  have hlang : ctx.env.Steady (ctx.env.root.locale = ctx.env.locale) lesson c.expr.value.calls := by
    intro x hx
    obtain rfl : x = (.bare "lang", 1) := List.mem_singleton.1 hx
    exact fun _ => rfl
  have hmap : ∀ id, Value.map 0 ≠ .cell id := by rintro id ⟨⟩
  obtain ⟨hreads, hselects⟩ := read_relative (w := lessonWorld) rfl hmap hroot
    (settlesOn_lesson _) (q := q) rfl hslots (lesson_steady True lesson) hp hrel
  exact ⟨p, w₁, rel, w₂, hp, hrel, hvalue, hreads c d _ _ rfl hmore rfl hlang,
    hselects all _ rfl fun _ hx => absurd hx (List.not_mem_nil)⟩

/-- A function that answers whether a slot is there, and takes the slot away. -/
def askOnce : Function := fun _ _ => do
  let s ← get
  set (s.setMap 0 ((s.maps.get 0).erase "k"))
  pure (.boolean ((s.maps.get 0).has "k"))

/-- The context relative to the node that a text leads to. -/
def relativeAt (ctx : Context) (q : String) : Run Context := do
  relativeTo ctx (← Run.compile q)

/-- What a context relative to the node of a path reads by one path, and the context itself by
another. -/
def readBoth (ctx : Context) (q c d : String) :
    Run (Except PathError (Option Value) × Except PathError (Option Value)) := do
  let rel ← relativeAt ctx q
  let c ← Run.compile c
  let d ← Run.compile d
  let w ← get
  pure (((Run.act fun r => c.getValue rel r).result w).1,
    ((Run.act fun r => d.getValue ctx r).result w).1)

/-- The text is a simple path. -/
def isSimpleText (text : String) : Bool :=
  match Grammar.parse text with
  | .ok (.path start steps) => (simplePath? start steps).isSome
  | _ => false

/-- Relative contexts read something else where an index expression asks for a language that the
context and the root do not share, and where the path to the node calls a function that says yes
only once. -/
theorem read_relative_astray :
    let german : Run Context := do
      (← relativeAt (lessonContext askYes) "/q").withLocale { tag := "de" }
    let c := "a[$x[/k[lang('de')]]]"
    isSimpleText "/q" ∧ isSimpleText c ∧ isSimpleText ("/q/" ++ c) ∧
      ((german >>= fun ctx => readBoth ctx "/q" c ("/q/" ++ c)).result lessonWorld).1 =
        .ok (.ok (some (.bool true)), .error (.notFound ("/q/" ++ c))) ∧
      isSimpleText "/q[ask()]" ∧ isSimpleText "a" ∧ isSimpleText "/q[ask()]/a" ∧
      ((readBoth (lessonContext askOnce) "/q[ask()]" "a" "/q[ask()]/a").result lessonWorld).1 =
        .ok (.ok (some (.bool true)), .error (.notFound "/q[ask()]/a")) := by
  decide +kernel

end CompiledPath

end PathQuery
