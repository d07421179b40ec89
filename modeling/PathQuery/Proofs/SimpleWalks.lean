import PathQuery.Proofs.Positions
import PathQuery.Proofs.SimplePaths

/-!
# What a walk along a simple path finds

A walk tries every node that passes a step where the resolution of a simple path settles for one of
them. The values that it finds can be read off the graph as well, so that the two can be compared.

* names: `Found`, `Store.stepValues?`, `Store.found`.
* **`foundIn_walk`**: a walk finds these values, in this order.
* **`getPointer_finds_iff`**: when a single pointer is found wherever a walk finds any.
-/

namespace PathQuery

/-! ## Values found one after another -/

/-- Values, and whether a failure ends them. -/
structure Found where
  values : List Value := []
  broken : Bool := false

namespace Found

/-- One sequence after another. -/
def append (a b : Found) : Found :=
  if a.broken then a else { b with values := a.values ++ b.values }

/-- What `f` finds from each value in turn. -/
def flatMap (a : Found) (f : Value → Found) : Found :=
  a.values.foldr (fun v rest => (f v).append rest) { broken := a.broken }

/-- Values that may not be listed. -/
def ofOption : Option (List Value) → Found
  | some values => { values }
  | none => { broken := true }

end Found

namespace NamedStep

/-- What the number of a step keeps of a list. -/
def kept {α : Type} (x : NamedStep) (items : List α) : List α :=
  match x.number with
  | none => items
  | some n => atNumber n items

theorem map_kept {α β : Type} (f : α → β) (x : NamedStep) (items : List α) :
    (x.kept items).map f = x.kept (items.map f) := by
  rw [kept, kept]
  cases x.number with
  | none => rfl
  | some n => exact map_atNumber f n items

end NamedStep

namespace Store

variable (s : Store)

/-- The values that a step selects below a value, if they can be listed. -/
def stepValues? (v : Value) (x : NamedStep) : Option (List Value) :=
  (s.nodesBelow? v x.isAttribute).map fun ns =>
    (x.kept (ns.filter fun n => n.name?.any (·.name == x.name.name))).map (Node.immediate s)

/-- **The values that the steps of a simple path select**, one step after another. -/
def found : Found → List NamedStep → Found
  | a, [] => a
  | a, x :: xs => found (a.flatMap fun v => .ofOption (s.stepValues? v x)) xs

end Store

namespace Nodes

variable {s : Store} {a b : Nodes} {f : Pointer → Nodes} {g : Value → Found}

/-- The values that nodes hold. -/
def foundIn (s : Store) (a : Nodes) : Found where
  values := a.items.map (·.node.immediate s)
  broken := a.failure.isSome

theorem foundIn_append : (a ++ b).foundIn s = (a.foundIn s).append (b.foundIn s) := by
  obtain ⟨as, _ | e⟩ := a
  · obtain ⟨bs, failure⟩ := b
    simp [foundIn, Found.append]
  · rfl

theorem foundIn_flatMap (h : ∀ p ∈ a.items, (f p).foundIn s = g (p.node.immediate s)) :
    (a.flatMap f).foundIn s = (a.foundIn s).flatMap g := by
  obtain ⟨as, failure⟩ := a
  induction as with
  | nil => rfl
  | cons p as ih =>
    have hrest := ih fun q hq => h q (List.mem_cons_of_mem _ hq)
    show (f p ++ flatMap ⟨as, failure⟩ f).foundIn s = _
    rw [foundIn_append, h p (List.mem_cons_self ..), hrest]
    rfl

end Nodes

/-! ## One step -/

namespace Environment

variable {env : Environment} {s : Store} {o : Occasion} {x : NamedStep} {p q : Pointer}

/-- What a named step finds from a pointer. -/
def findSimple (env : Environment) (s : Store) (o : Occasion) (x : NamedStep) : Pointer → Search :=
  env.find .standard s o (if x.isAttribute then .attribute else .child) (.name x.name)
    (x.number.toList.map fun n => .number (Number.ofNat n))

theorem walk_named (x : NamedStep) (steps : List Step) (o : Occasion) (a : Search) :
    env.walk .standard (x.step :: steps) o s a =
      env.walk .standard steps (o.part 1) s (a.gather (env.findSimple s o x)) := by
  have haxis : (if x.isAttribute then Axis.attribute else .child).overlaps = false := by
    cases x.isAttribute <;> rfl
  have hadvance (f : Pointer → Search) :
      advance s (if x.isAttribute then .attribute else .child) f a = a.gather f := by
    rw [advance.eq_def, if_neg (by simp [haxis])]
  rw [NamedStep.step, walk_cons, hadvance]
  rfl

theorem narrow_kept (r : Registry) (x : NamedStep) (nodes : List Pointer) (o : Occasion) :
    env.narrow r (x.number.toList.map fun n => .number (Number.ofNat n)) o nodes s =
      .ok (x.kept nodes) := by
  rw [NamedStep.kept]
  cases x.number with
  | none =>
    rw [Option.toList_none, List.map_nil, narrow]
    rfl
  | some n =>
    rw [Option.toList_some, List.map_cons, List.map_nil, narrow_number, narrow]
    rfl

theorem along_named (t : Store) (p : Pointer) (isAttribute : Bool) :
    p.along t .standard (if isAttribute then .attribute else .child) =
      (if isAttribute then p.attributes t .standard else p.children t .standard).map .ofList := by
  cases isAttribute <;> rfl

/-- **A step finds the values that it selects below the value of a pointer.** -/
theorem foundIn_findSimple (hx : x.name.isWildcard = false) (hp : p.node.IsPlain) :
    (env.findSimple s o x p).nodes.foundIn s =
      .ofOption (s.stepValues? (p.node.immediate s) x) := by
  have hbelow := Pointer.toOption_nodesBelow (.on s (o.part 0)) hp x.isAttribute
  have halong := along_named (s.on (o.part 0)) p x.isAttribute
  rw [Store.stepValues?, ← hbelow]
  cases hcs : (if x.isAttribute then p.attributes (s.on (o.part 0)) .standard
    else p.children (s.on (o.part 0)) .standard) with
  | error e =>
    rw [findSimple, find_of_error (halong.trans (by rw [hcs]; rfl))]
    rfl
  | ok cs =>
    rw [hcs] at hbelow halong
    have hpasses : ∀ c ∈ cs, c.passes (s.on (o.part 0)) (.name x.name) =
        c.node.name?.any (·.name == x.name.name) :=
      Pointer.passes_of_nodesBelow hx hbelow.symm
    rw [findSimple, nodes_find halong (narrow_kept ..), List.filter_congr hpasses]
    simp only [Nodes.foundIn, Nodes.items_ofList, Except.toOption, Option.map_some, Found.ofOption,
      NamedStep.map_kept, List.map_map, List.filter_map]
    rfl

theorem isPlain_of_mem_findSimple (hp : p.node.IsPlain)
    (hq : q ∈ (env.findSimple s o x p).nodes.items) : q.node.IsPlain := by
  obtain ⟨b, hb, hq⟩ := mem_ofExcept (mem_find hq)
  obtain ⟨c, hc, rfl⟩ := Except.map_eq_ok_iff.1 hb
  rw [along_named] at hc
  obtain ⟨cs, hcs, rfl⟩ := Except.map_eq_ok_iff.1 hc
  rw [Search.nodes_filter, Search.nodes_ofList] at hq
  have hbelow := Pointer.toOption_nodesBelow (.on s (o.part 0)) hp x.isAttribute
  rw [hcs] at hbelow
  obtain ⟨_, _, _, _, hnode, -⟩ :=
    Pointer.mem_nodesBelow? hbelow.symm (List.mem_map_of_mem (List.mem_filter.1 hq).1)
  rw [hnode]
  trivial

/-- **A walk along a simple path finds the values that its steps select**, in their order. -/
theorem foundIn_walk {xs : List NamedStep} (hxs : ∀ x ∈ xs, x.name.isWildcard = false) {a : Search}
    (ha : ∀ p ∈ a.nodes.items, p.node.IsPlain) :
    (env.walk .standard (xs.map NamedStep.step) o s a).nodes.foundIn s =
      s.found (a.nodes.foundIn s) xs := by
  induction xs generalizing o a with
  | nil =>
    rw [List.map_nil, walk]
    rfl
  | cons x xs ih =>
    rw [List.forall_mem_cons] at hxs
    have hgather := Search.nodes_gather (env.findSimple s o x) a
    have hstep : (a.gather (env.findSimple s o x)).nodes.foundIn s =
        (a.nodes.foundIn s).flatMap fun v => .ofOption (s.stepValues? v x) := by
      rw [hgather]
      exact Nodes.foundIn_flatMap fun p hp => foundIn_findSimple hxs.1 (ha p hp)
    rw [List.map_cons, walk_named, ih hxs.2, hstep]
    · rfl
    · intro q hq
      rw [hgather] at hq
      obtain ⟨p, hp, hq⟩ := Nodes.mem_flatMap hq
      exact isPlain_of_mem_findSimple (ha p hp) hq

end Environment

/-! ## Both ways -/

namespace CompiledPath

variable {ctx : Context} {c : CompiledPath} {s : Store} {root : Holder} {start : Start}
variable {xs : List NamedStep}

/-- **The nodes of a simple path hold the values that its steps select.** -/
theorem nodes_simple (hctx : ctx.StartsAt root) (hstart : ∀ e, start ≠ .value e)
    (hc : c.expr.value = .path start (xs.map NamedStep.step))
    (hxs : ∀ x ∈ xs, x.name.isWildcard = false) :
    ∃ a, (c.nodes ctx .standard).result s = (.ok a, s) ∧
      a.nodes.foundIn s = s.found { values := [root.value] } xs := by
  obtain ⟨o, ho⟩ := c.result_nodes .standard hctx hc hstart s
  refine ⟨_, ho, ?_⟩
  obtain ⟨hplain, -, hvalue⟩ := hctx.holds s
  rw [Environment.foundIn_walk hxs, Search.nodes_ofList]
  · simp [Nodes.foundIn, hvalue]
  · intro p hp
    obtain rfl : p = ctx.env.root := by simpa using hp
    exact hplain

/-- A walk finds anything exactly if the steps select any value. -/
theorem exists_mem_nodes_iff (hctx : ctx.StartsAt root) (hstart : ∀ e, start ≠ .value e)
    (hc : c.expr.value = .path start (xs.map NamedStep.step))
    (hxs : ∀ x ∈ xs, x.name.isWildcard = false) :
    (∃ a p, (c.nodes ctx .standard).result s = (.ok a, s) ∧ p ∈ a.nodes.items) ↔
      (s.found { values := [root.value] } xs).values ≠ [] := by
  obtain ⟨a, ha, hfound⟩ := c.nodes_simple hctx hstart hc hxs
  rw [← hfound, Nodes.foundIn, Ne, List.map_eq_nil_iff]
  constructor
  · rintro ⟨a', p, ha', hp⟩
    rw [ha, Prod.mk.injEq, Except.ok.injEq] at ha'
    obtain ⟨rfl, -⟩ := ha'
    exact List.ne_nil_of_mem hp
  · intro hne
    obtain ⟨p, ps, hitems⟩ := List.exists_cons_of_ne_nil hne
    exact ⟨a, p, ha, hitems ▸ List.mem_cons_self ..⟩

/-- A strict context finds a single pointer exactly if the path comes to a value. -/
theorem exists_getPointer_iff (hctx : ctx.StartsAt root) (hstrict : ctx.env.lenient = false)
    (hstart : ∀ e, start ≠ .value e) (hc : c.expr.value = .path start (xs.map NamedStep.step))
    (hxs : ∀ x ∈ xs, x.name.isWildcard = false) :
    (∃ q, (c.getPointer ctx .standard).result s = (.ok q, s)) ↔
      (s.resolve? root.value xs).isSome := by
  rw [Option.isSome_iff_exists]
  constructor
  · rintro ⟨q, hq⟩
    exact ⟨_, (c.getPointer_simple hctx hstrict hstart hc hxs).1 ⟨q, hq, rfl⟩⟩
  · rintro ⟨v, hv⟩
    obtain ⟨q, hq, -⟩ := (c.getPointer_simple hctx hstrict hstart hc hxs).2 hv
    exact ⟨q, hq⟩

/-! ## A slot without a value -/

/-- A map of two slots, one of them empty. -/
def vacant : Store where
  maps := ⟨#[.ofList [("a", .null), ("b", .bool true)]]⟩

/-- A strict context at the root of the map. -/
def vacantContext : Context :=
  let root : Pointer := { visit := { node := .map 0 none, occasion := {} } }
  { env := { root, locale := {}, lenient := false, own := { scope := 0 } }, here := root }

/-- The first of what a slot of the map counts as. -/
def firstIn (name : String) : NamedStep := { name := .bare name, number := some 1 }

/-- The path to it. -/
def pathToFirstIn (name : String) : CompiledPath where
  source := "/" ++ name ++ "[1]"
  expr := { id := 0, value := .path .root ([firstIn name].map NamedStep.step) }

theorem startsAt_vacant : vacantContext.StartsAt (.map 0) := ⟨rfl, rfl, rfl⟩

/-! ## Single pointers where a walk finds any -/

/-- **A strict context finds a single pointer wherever a walk finds any exactly if** the path comes
to a value wherever its steps select any. -/
theorem getPointer_finds_iff (hctx : ctx.StartsAt root) (hstrict : ctx.env.lenient = false)
    (hstart : ∀ e, start ≠ .value e) (hc : c.expr.value = .path start (xs.map NamedStep.step))
    (hxs : ∀ x ∈ xs, x.name.isWildcard = false) :
    ((∃ a p, (c.nodes ctx .standard).result s = (.ok a, s) ∧ p ∈ a.nodes.items) →
        ∃ q, (c.getPointer ctx .standard).result s = (.ok q, s)) ↔
      ((s.found { values := [root.value] } xs).values ≠ [] →
        (s.resolve? root.value xs).isSome) := by
  rw [c.exists_mem_nodes_iff hctx hstart hc hxs, c.exists_getPointer_iff hctx hstrict hstart hc hxs]

/-- The slot that holds a value is found both ways. -/
theorem getPointer_finds_iff_vacant :
    Grammar.parse "/b[1]" = .ok (pathToFirstIn "b").expr.value ∧
      (∃ a p, ((pathToFirstIn "b").nodes vacantContext .standard).result vacant =
        (.ok a, vacant) ∧ p ∈ a.nodes.items) ∧
      ∃ q, ((pathToFirstIn "b").getPointer vacantContext .standard).result vacant =
        (.ok q, vacant) := by
  have hxs : ∀ x ∈ [firstIn "b"], x.name.isWildcard = false := by decide
  have hvalues : (vacant.found { values := [.map 0] } [firstIn "b"]).values ≠ [] := by
    decide +kernel
  have hsome : (vacant.resolve? (.map 0) [firstIn "b"]).isSome := by decide +kernel
  have hwalk := ((pathToFirstIn "b").exists_mem_nodes_iff startsAt_vacant (by nofun) rfl hxs).2
    hvalues
  exact ⟨by with_unfolding_all rfl, hwalk,
    (getPointer_finds_iff startsAt_vacant rfl (by nofun) rfl hxs).2 (fun _ => hsome) hwalk⟩

/-- The empty slot is found by a walk only. -/
theorem getPointer_misses_vacant :
    Grammar.parse "/a[1]" = .ok (pathToFirstIn "a").expr.value ∧
      (∃ a p, ((pathToFirstIn "a").nodes vacantContext .standard).result vacant =
        (.ok a, vacant) ∧ p ∈ a.nodes.items) ∧
      ¬ ∃ q, ((pathToFirstIn "a").getPointer vacantContext .standard).result vacant =
        (.ok q, vacant) := by
  have hxs : ∀ x ∈ [firstIn "a"], x.name.isWildcard = false := by decide
  refine ⟨by with_unfolding_all rfl, ?_, ?_⟩
  · rw [exists_mem_nodes_iff startsAt_vacant (by nofun) rfl hxs]
    decide +kernel
  · rw [exists_getPointer_iff startsAt_vacant rfl (by nofun) rfl hxs]
    decide +kernel

end CompiledPath

end PathQuery
