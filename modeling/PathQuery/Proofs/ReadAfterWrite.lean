import PathQuery.Proofs.FailedCreation
import PathQuery.Proofs.SoughtChains
import PathQuery.Proofs.WrittenSlots

/-!
# Reads see writes

What was written at a path is what the path reads afterwards, unless the write has changed where the
path leads or has put a list where one value was.

* names: `Pointer.WroteThrough`, `Pointer.IsClear`, `Pointer.Suits`, `CompiledPath.Writes`.
* `setValue_sought`, `createAndSet_sought`: either way, a slot of a chain that stands is written.
* **`standing_after`**: the chain still stands and shows what was written.
* **`getValue_written`**: the value comes back.
-/

namespace PathQuery

/-! ## Where a value is written -/

namespace Pointer

open PathQuery.Action

variable {s t u : Store} {root h : Holder} {p q : Pointer} {x : NamedStep} {xs : List NamedStep}
variable {v : Value} {r : Registry} {name : QName} {index : Index} {a : Bool}

theorem target?_slot (hnode : p.node = .slot h name index a) :
    p.target? r t = (Node.slot h name index a).target? t := by
  obtain ⟨visit, above, locale⟩ := p
  unfold target? entryAt?
  simp only [show visit.node = _ from hnode]

theorem target?_missing {id : Nat} (hnode : p.node = .missing name index a)
    (hparent : p.parent? = some q) (hq : q.node.IsPlain) (hend : q.node.end? t = some (.map id)) :
    p.target? .standard t = (Node.slot (.map id) name index a).target? t := by
  have hvalue : q.value t .standard = .ok (.map id) := (value_eq_ok_iff hq).2 hend
  obtain ⟨visit, above, locale⟩ := p
  unfold target? entryAt?
  simp only [show visit.node = _ from hnode]
  rw [missingTarget?, show (Pointer.mk visit above locale).parent? = _ from hparent,
    show (Pointer.mk visit above locale).node = _ from hnode]
  dsimp only
  rw [hvalue]

theorem setValue_missing (hnode : p.node = .missing name index a) :
    p.setValue r v = p.setMissing r v := by
  obtain ⟨visit, above, locale⟩ := p
  unfold setValue setAt
  simp only [show visit.node = _ from hnode]

theorem exists_parent? {n : Node} {ns : List Node} (hp : p.nodes.tail = n :: ns) :
    ∃ q, p.parent? = some q ∧ q.node = n := by
  obtain ⟨visit, above, locale⟩ := p
  cases above with
  | nil => cases hp
  | cons parent above => exact ⟨_, rfl, (List.cons.inj hp).1⟩

/-- The pointer is one to the slot that a step names in an object, be it that there is none yet. -/
def StandsFor (s : Store) (p : Pointer) (h : Holder) (x : NamedStep) : Prop :=
  p.node = .slot h x.name x.index false ∨
    p.node = .missing x.name x.index false ∧ s.IsBlank (s.slot h x.name.text) ∧ ∃ id, h = .map id

/-- The value was written to the slot of a chain that stands, through the last node of the chain. -/
structure WroteThrough (root : Holder) (q : Pointer) (xs : List NamedStep) (x : NamedStep)
    (v : Value) (h : Holder) (s t : Store) : Prop where
  standing : Standing s root (.slot h x.name x.index false :: q.nodes.tail) (xs ++ [x])
  standsFor : q.StandsFor s h x
  written : ∃ p : Pointer, p.node = .slot h x.name x.index false ∧
    (p.setSlot h x.name v).result s = (.ok (), t)

/-- A missing slot is set in the map above it. -/
theorem setMissing_eq_ok (hparent : p.parent? = some q) (hnode : p.node = .missing name index a)
    (hset : (p.setMissing .standard v).result s = (.ok (), t)) :
    ∃ id, q.value s .standard = .ok (.map id) ∧
      ((q.child s.now (.slot (.map id) name index a)).setSlot (.map id) name v).result s =
        (.ok (), t) := by
  rw [setMissing, result_bind_ok (result_get s), hparent, hnode] at hset
  dsimp only at hset
  split at hset
  · cases hset
  · obtain ⟨w, u, hw, hset⟩ := result_bind_eq_ok_iff.1 hset
    rw [result_read, Prod.mk.injEq] at hw
    obtain ⟨hw, rfl⟩ := hw
    cases w with
    | map id => exact ⟨id, hw, hset⟩
    | _ => cases hset

/-- Setting a value at the end of a path writes it to a slot. -/
theorem setValue_sought (hp : Sought s root p.nodes (xs ++ [x]))
    (hset : (p.setValue .standard v).result s = (.ok (), t)) :
    ∃ h, p.WroteThrough root xs x v h s t := by
  rw [nodes_eq] at hp
  rcases hp.last_cases with ⟨h, hnode, hstanding⟩ | ⟨n, ns, habove, hnode, hn, hno⟩
  · rw [setValue_slot hnode] at hset
    rw [hnode] at hstanding
    exact ⟨h, hstanding, .inl hnode, p, hnode, hset⟩
  · obtain ⟨parent, hparent, rfl⟩ := exists_parent? habove
    rw [setValue_missing hnode] at hset
    obtain ⟨id, hvalue, hset⟩ := setMissing_eq_ok hparent hnode hset
    rw [habove] at hn
    have hend : parent.node.end? s = some (Holder.map id).value :=
      (value_eq_ok_iff hn.isPlain).1 hvalue
    have hstanding := (hn.standing hend (Holder.value_ne_null _)).slot (x := x) hend
    rw [← habove] at hstanding
    have hget : (s.slots (.map id)).get? x.name.text = none := by
      rw [Table.get?_eq_none_iff, ← Table.has_iff, hno (.map id) hend]
      exact Bool.false_ne_true
    have hblank : s.IsBlank (s.slot (.map id) x.name.text) := by
      rw [Store.slot, hget]
      exact s.isBlank_null
    exact ⟨.map id, hstanding, .inr ⟨hnode, hblank, id, rfl⟩, _, rfl, hset⟩

/-- Setting a value at a path that was created for it writes it to a slot. -/
theorem createAndSet_sought {factory : Option ObjectFactory}
    (hf : ∀ f ∈ factory, f.Keeps Store.Adds) (hroot : s.Has root.place)
    (hp : Sought s root p.nodes (xs ++ [x]))
    (hq : (p.createAndSet .standard factory v).result s = (.ok q, t)) :
    ∃ u h, s.FilledTo u ∧ q.WroteThrough root xs x v h u t := by
  unfold createAndSet at hq
  split at hq
  · next name index a parent hnode hparent =>
    obtain ⟨q', u, hq', hq⟩ := result_bind_eq_ok_iff.1 hq
    rw [nodes_parent? hparent, hnode] at hp
    rcases hp.last_cases with ⟨h, hslot, -⟩ | ⟨_, _, -, hmissing, hparents, -⟩
    · cases hslot
    cases hmissing
    obtain ⟨hsu, hstanding⟩ := createAt_standing hf hroot hparents hq'
    rw [nodes_eq] at hstanding
    rw [if_neg Bool.false_ne_true] at hq
    obtain ⟨h, hend, rfl, hput⟩ := createChild_eq_ok hstanding.isPlain hq
    exact ⟨u, h, hsu, hstanding.slot hend, .inl rfl, _, rfl, hput⟩
  · obtain ⟨_, u, hset, hq⟩ := result_bind_eq_ok_iff.1 hq
    rw [result_pure, Prod.mk.injEq, Except.ok.injEq] at hq
    obtain ⟨rfl, rfl⟩ := hq
    obtain ⟨h, hwrote⟩ := setValue_sought hp hset
    exact ⟨s, h, .refl s, hwrote⟩

/-- The entry at the pointer is one of the store, and none of those from which the nodes above are
read. -/
def IsClear (t : Store) (q : Pointer) : Prop :=
  ∃ e, q.target? .standard t = some e ∧ t.Has e.place ∧ ∀ n ∈ q.nodes.tail, e ∉ n.entries t

/-- If it is a list that comes to the first element of a slot, the slot holds a list already. -/
def Suits (s : Store) (q : Pointer) (v : Value) : Prop :=
  ∀ l, v = .list l → q.node.index = .element 0 → ∃ l', s.unwrap (q.base s) = .list l'

theorem StandsFor.unwrap_base {l : Nat} (hq : q.StandsFor t h x)
    (hl : s.unwrap (q.base s) = .list l) :
    q.node = .slot h x.name x.index false ∧ s.unwrap (s.slot h x.name.text) = .list l := by
  rcases hq with hnode | ⟨hnode, -⟩ <;> rw [base, hnode] at hl
  · exact ⟨hnode, hl⟩
  · cases hl

/-- A blank slot is written itself, whatever the index. -/
theorem target?_of_isBlank {e : Entry} (hblank : s.IsBlank (s.slot h name.text))
    (he : (Node.slot h name index a).target? s = some e) : e = s.slotEntry h name.text := by
  rw [Node.target?] at he
  cases index with
  | whole => exact (Option.some.inj he).symm
  | element i =>
    cases hk : (Index.element i).place? with
    | none =>
      simp only [Store.entryAt?, hk] at he
      cases he
    | some k =>
      rw [Store.entryAt?_sole hk fun l hl => Store.not_isBlank_of_list hl hblank] at he
      exact (Option.some.inj he).symm

namespace WroteThrough

/-- As long as the chain stands, the entry at the pointer is the one that its slot names. -/
theorem target?_eq (hq : q.StandsFor s h x)
    (hstanding : Standing t root (.slot h x.name x.index false :: q.nodes.tail) (xs ++ [x])) :
    q.target? .standard t = (Node.slot h x.name x.index false).target? t := by
  rcases hq with hnode | ⟨hnode, -, id, rfl⟩
  · exact target?_slot hnode
  · obtain ⟨n, ns, _, htail, hn, hend⟩ := hstanding.exists_above
    obtain ⟨parent, hparent, rfl⟩ := exists_parent? htail
    exact target?_missing hnode hparent hn.isPlain hend

/-- **The chain of a slot that was written stands as before, and shows what was written.** -/
theorem standing_after (hwrote : q.WroteThrough root xs x v h s t) (hv : v.IsShowable)
    (hsuits : q.Suits s v) (hclear : q.IsClear t) :
    Standing t root (.slot h x.name x.index false :: q.nodes.tail) (xs ++ [x]) ∧
      (Node.slot h x.name x.index false).end? t = some v := by
  obtain ⟨hstanding, hstands, p, hnode, hset⟩ := hwrote
  obtain ⟨e, he, hhas, hnotin⟩ := hclear
  have hlocal := writesAt_setSlot (v := v) (s := s) hnode
  rw [WritesAt, hset] at hlocal
  obtain ⟨e₀, w, he₀, hchange, -⟩ := hlocal
  have hsole (l : Nat) (hl : v = .list l) (hindex : x.index = .element 0) :
      ∃ l', s.unwrap (s.slot h x.name.text) = .list l' := by
    have hqindex : q.node.index = .element 0 := by
      rw [← hindex]
      rcases hstands with hnode | ⟨hnode, -⟩ <;> rw [hnode] <;> rfl
    obtain ⟨l', hl'⟩ := hsuits l hl hqindex
    exact ⟨l', (hstands.unwrap_base hl').2⟩
  have hafter : Standing t root (.slot h x.name x.index false :: q.nodes.tail) (xs ++ [x]) ∧
      (Node.slot h x.name x.index false).target? t = some e := by
    by_cases hblank : s.IsBlank (s.slot h x.name.text)
    · have hfilled : s.FilledTo t := hchange.filledTo fun v' hv' => by
        rw [target?_of_isBlank hblank he₀] at hv'
        exact Store.isBlank_slotEntry h x.name.text hblank hv'
      have hstanding' := hstanding.of_kept fun _ _ e _ => hfilled.kept e
      exact ⟨hstanding', (target?_eq hstands hstanding').symm.trans he⟩
    · have hq : q.node = .slot h x.name x.index false :=
        hstands.resolve_right fun h => hblank h.2.1
      rw [target?_slot hq] at he
      obtain ⟨-, hsame⟩ := setSlot_shows hnode hset hv hsole he hhas
      rw [hsame.resolve_right hblank] at he₀
      obtain rfl := Option.some.inj he₀
      refine ⟨hstanding.of_kept fun n hn e' he' => hchange.kept ?_, he⟩
      rintro rfl
      exact hnotin n hn he'
  exact ⟨hafter.1, (setSlot_shows hnode hset hv hsole hafter.2 hhas).1⟩

end WroteThrough

theorem Suits.of_filledTo (hsuits : q.Suits s v) (hst : s.FilledTo t) (hq : q.StandsFor t h x) :
    q.Suits t v := by
  intro l hl hindex
  obtain ⟨l', hl'⟩ := hsuits l hl hindex
  obtain ⟨hnode, hslot⟩ := hq.unwrap_base hl'
  have hblank := Store.not_isBlank_of_list hslot
  have hheld : s.slot h x.name.text ≠ .null := fun hnull => hblank ⟨0, hnull⟩
  have hsame : t.slot h x.name.text = s.slot h x.name.text :=
    Store.slot_eq (hst.kept (.slot h x.name.text) _ (Store.value?_slot rfl hheld) hblank)
  refine ⟨l', ?_⟩
  rw [base, hnode]
  show t.unwrap (t.slot h x.name.text) = .list l'
  rw [hsame, ← hslot]
  exact Store.unwrapUpTo_of_kept (fun c => hst.kept (.content c)) hblank _

end Pointer

/-! ## Reading -/

/-- The nodes to which a simple path leads are plain. -/
theorem Environment.isPlain_of_resolve {env : Environment} {o : Occasion} {p q : Pointer}
    {s u : Store} {xs : List NamedStep} (hxs : ∀ x ∈ xs, x.name.isWildcard = false)
    (hp : p.node.IsPlain)
    (hq : (env.resolve .standard o p (xs.map NamedStep.simple)).result s = (.ok q, u)) :
    q.node.IsPlain := by
  induction xs generalizing o p s with
  | nil =>
    simp only [List.map_nil, resolve, Action.result_pure, Prod.mk.injEq, Except.ok.injEq] at hq
    exact hq.1 ▸ hp
  | cons x xs ih =>
    rw [List.forall_mem_cons] at hxs
    rw [List.map_cons, resolve, Action.result_bind_eq_ok_iff] at hq
    obtain ⟨next, t, hnext, hq⟩ := hq
    have hstep := resolveStep_eq (s := s) env (o.part 0) hp hxs.1
    refine ih hxs.2 ?_ hq
    cases hw : s.step? (p.node.immediate s) x with
    | none =>
      rw [hw] at hstep
      exact (hstep next t hnext).1.plain
    | some w =>
      rw [hw] at hstep
      obtain ⟨next', hnext', hplain, -⟩ := hstep
      rw [hnext, Prod.mk.injEq, Except.ok.injEq] at hnext'
      exact hnext'.1 ▸ hplain

namespace CompiledPath

variable {ctx : Context} {c : CompiledPath} {s t u : Store} {root : Holder} {start : Start}
variable {xs : List NamedStep} {x : NamedStep} {v w : Value} {q : Pointer}

/-- The one result of a simple path is what it is resolved to. -/
theorem result_single_simple (hctx : ctx.StartsAt root) (hstart : ∀ e, start ≠ .value e)
    (hc : c.expr.value = .path start (xs.map NamedStep.step))
    (hxs : ∀ x ∈ xs, x.name.isWildcard = false) (s : Store) :
    (c.single ctx .standard).result s =
      (Single.pointer <$> ((ctx.env.resolve .standard (s.now.part 0) ctx.env.root
        (xs.map NamedStep.simple)).result s).1,
        ((ctx.env.resolve .standard (s.now.part 0) ctx.env.root
          (xs.map NamedStep.simple)).result s).2) := by
  obtain ⟨isAbsolute, hpath⟩ : ∃ isAbsolute,
      simplePath? start (xs.map NamedStep.step) = some (isAbsolute, xs.map NamedStep.simple) := by
    cases start with
    | value e => exact absurd rfl (hstart e)
    | _ => exact ⟨_, by rw [simplePath?, simplePath?_named hxs]; rfl⟩
  have hfrom : (if isAbsolute then ctx.env.root else ctx.here) = ctx.env.root := by
    rw [hctx.here, ite_self]
  rw [single, Environment.single, hc]
  simp only [Action.result_bind, Action.result_get, hpath, hfrom]
  rcases (ctx.env.resolve .standard (s.now.part 0) ctx.env.root
    (xs.map NamedStep.simple)).result s with ⟨e | q, u⟩ <;> rfl

/-- A value's own node exists. -/
theorem isActual_node (s : Store) (v : Value) (name : Option QName) :
    (v.node name).isActual s = true := by
  cases v <;> rfl

/-- A strict context reads the value to which a simple path leads. -/
theorem getValue_of_resolve? (hctx : ctx.StartsAt root) (hstrict : ctx.env.lenient = false)
    (hstart : ∀ e, start ≠ .value e) (hc : c.expr.value = .path start (xs.map NamedStep.step))
    (hxs : ∀ x ∈ xs, x.name.isWildcard = false) (hw : s.resolve? root.value xs = some w)
    (hend : s.endUpTo? (Store.maxIndirections - 1) w = some v) (hv : v.IsShowable) :
    (c.getValue ctx .standard).result s = (.ok (some v), s) := by
  obtain ⟨hplain, hexists, hvalue⟩ := hctx.holds s
  have hresolve := Environment.resolve_eq ctx.env (s.now.part 0) hxs hplain hexists
  rw [hvalue, hw] at hresolve
  obtain ⟨q, hq, hactual, rfl⟩ := hresolve
  have hqplain := Environment.isPlain_of_resolve hxs hplain hq
  rw [← Node.end?_eq hqplain] at hend
  obtain ⟨target, htarget, himm, hnode⟩ := Pointer.valuePointer_of_end hqplain hend
  have htargetActual : target.node.isActual s = true := by
    rcases hnode with hnode | ⟨-, -, hnull⟩
    · rw [hnode, isActual_node]
    · exact absurd hnull hv.ne_null
  rw [result_getValue, result_single_simple hctx hstart hc hxs, hq]
  simp only [Except.map_ok, valueOf_pointer htarget, hactual, htargetActual, hstrict, himm]
  cases v <;> first | rfl | exact absurd hv id

/-! ## Reading what was written -/

/-- The pointer to which a path leads where no list is entered. -/
theorem sought_of_single (hctx : ctx.StartsAt root) (hstart : ∀ e, start ≠ .value e)
    (hc : c.expr.value = .path start (xs.map NamedStep.step)) (hxs : ∀ x ∈ xs, x.IsBare)
    (hlists : s.EntersNoList root.value xs)
    (hq : (c.single ctx .standard).result s = (.ok (.pointer q), u)) :
    Sought s root q.nodes xs ∧ u = s := by
  obtain ⟨hplain, -, hvalue⟩ := hctx.holds s
  have hroot : Sought s root ctx.env.root.nodes [] := by
    rw [Pointer.nodes_eq, hctx.node, hctx.above]
    exact .root
  rw [result_single_simple hctx hstart hc fun x hx => (hxs x hx).proper, Prod.mk.injEq,
    Except.map_eq_ok_iff] at hq
  obtain ⟨⟨q', hq', hpointer⟩, rfl⟩ := hq
  obtain rfl := Single.pointer.inj hpointer
  exact Environment.resolve_sought hroot hxs (hvalue ▸ hlists) (Prod.ext hq' rfl)

/-- The value is written at the pointer: it is set at the one that is found, or at one that is
created, where no object factory does more than add objects. -/
def Writes (ctx : Context) (c : CompiledPath) (v : Value) (s : Store) (q : Pointer) (t : Store) :
    Prop :=
  (∃ u, (c.single ctx .standard).result s = (.ok (.pointer q), u)) ∧
      (c.setValue ctx .standard v).result s = (.ok (), t) ∨
    (∀ f ∈ ctx.env.factory?, f.Keeps Store.Adds) ∧
      (c.createAndSet ctx .standard v).result s = (.ok q, t)

/-- **A path reads the value that was written at it**, if no step of the path is taken from a list,
the write is not to one of the entries that the nodes above are read from, and no list becomes the
first element of a slot that holds none. -/
theorem getValue_written (hctx : ctx.StartsAt root) (hstrict : ctx.env.lenient = false)
    (hstart : ∀ e, start ≠ .value e)
    (hc : c.expr.value = .path start ((xs ++ [x]).map NamedStep.step))
    (hbare : ∀ y ∈ xs ++ [x], y.IsBare) (hroot : s.Has root.place)
    (hlists : s.EntersNoList root.value (xs ++ [x])) (hv : v.IsShowable)
    (hwrites : c.Writes ctx v s q t) (hsuits : q.Suits s v) (hclear : q.IsClear t)
    (htu : t.Unchanged u) :
    (c.getValue ctx .standard).result u = (.ok (some v), u) := by
  have hwrote : ∃ s' h, s.FilledTo s' ∧ q.WroteThrough root xs x v h s' t := by
    rcases hwrites with ⟨⟨s', hsingle⟩, hset⟩ | ⟨hf, hcreate⟩
    · obtain ⟨hsought, rfl⟩ := sought_of_single hctx hstart hc hbare hlists hsingle
      rw [setValue, Action.result_bind_ok hsingle] at hset
      obtain ⟨h, hwrote⟩ := Pointer.setValue_sought hsought hset
      exact ⟨s', h, .refl s', hwrote⟩
    · obtain ⟨p, s', htarget, hmade⟩ := Action.result_bind_eq_ok_iff.1 hcreate
      obtain ⟨hsought, rfl⟩ := sought_of_single hctx hstart hc hbare hlists
        (single_of_creationTarget htarget)
      exact Pointer.createAndSet_sought hf hroot hsought hmade
  obtain ⟨s', h, hfilled, hwrote⟩ := hwrote
  obtain ⟨hstanding, hend⟩ := hwrote.standing_after hv
    (hsuits.of_filledTo hfilled hwrote.standsFor) hclear
  have hkept := htu.filledTo.kept
  have hend' := Node.end?_slot_of_kept (fun e _ => hkept e) hend hv.ne_null
  have hresolve := (hstanding.of_kept fun _ _ e _ => hkept e).resolve?_eq hbare hend' hv.ne_null
  rw [Node.end?_eq (by trivial)] at hend'
  exact getValue_of_resolve? hctx hstrict hstart hc (fun y hy => (hbare y hy).proper) hresolve
    hend' hv

/-! ### A map that holds itself -/

/-- A map that holds nothing at one name, itself at another, and a list and a map besides. The
second map in the list holds the first. -/
def tangle : Store where
  lists := ⟨#[[.bool true], [.map 2, .map 3]]⟩
  maps := ⟨#[.ofList [("gap", .null), ("self", .map 0), ("rows", .list 1), ("box", .map 1)],
    .empty, .empty, .ofList [("cell", .map 2), ("note", .null)]]⟩
  foreigns := ⟨#[{ kind := "widget" }]⟩

/-- A strict context at the map. -/
def tangleContext (factory : Option ObjectFactory) : Context :=
  let root : Pointer := { visit := { node := .map 0 none, occasion := {} } }
  { env := { root, locale := {}, lenient := false, own := { scope := 0, factory } }, here := root }

/-- A factory that makes nothing and empties the map. -/
def emptier : ObjectFactory := fun _ _ _ => do
  modify (·.setMap 0 .empty)
  pure none

/-- A step to a child. -/
def childStep (name : String) (number : Option Nat := none) : NamedStep :=
  { name := .bare name, number }

/-- The path of some steps from the root. -/
def pathOf (source : String) (xs : List NamedStep) : CompiledPath where
  source
  expr := { id := 0, value := .path .root (xs.map NamedStep.step) }

/-- A path through the box, of which two nodes are missing. -/
def boxPath : CompiledPath :=
  pathOf "/box/lid/hinge" [childStep "box", childStep "lid", childStep "hinge"]

/-- What is put into the box is read from it. -/
theorem getValue_written_tangle : ∃ q t,
    boxPath.Writes (tangleContext none) (.bool true) tangle q t ∧ q.IsClear t ∧
      (boxPath.getValue (tangleContext none) .standard).result t =
        (.ok (some (.bool true)), t) := by
  obtain ⟨q, t, hcreate, htarget, hmaps, hentries⟩ : ∃ q t,
      (boxPath.createAndSet (tangleContext none) .standard (.bool true)).result tangle =
        (.ok q, t) ∧ q.target? .standard t = some (.slot (.map 4) "hinge") ∧ t.maps.size = 5 ∧
        q.nodes.tail.flatMap (·.entries t) = [.slot (.map 1) "lid", .slot (.map 0) "box"] :=
    Action.exists_result_ok (by decide +kernel) (by decide +kernel)
  have hclear : q.IsClear t := by
    refine ⟨_, htarget, by simp [Store.Has, Entry.place, hmaps], fun n hn he => ?_⟩
    have hmem := List.mem_flatMap_of_mem hn he
    rw [hentries] at hmem
    simp at hmem
  have hwrites : boxPath.Writes (tangleContext none) (.bool true) tangle q t :=
    .inr ⟨fun f hf => (by cases hf), hcreate⟩
  have hlists : tangle.EntersNoList (.map 0) ([childStep "box", childStep "lid"] ++
      [childStep "hinge"]) := by
    have hbox : tangle.step? (.map 0) (childStep "box") = some (.map 1) := rfl
    have hlid : tangle.step? (.map 1) (childStep "lid") = none := rfl
    refine ⟨fun l hl => (by cases hl), fun w hw => ?_⟩
    rw [hbox] at hw
    obtain rfl := Option.some.inj hw
    refine ⟨fun l hl => (by cases hl), fun w hw => ?_⟩
    rw [hlid] at hw
    cases hw
  have hbare (y : NamedStep) (hy : y ∈ [childStep "box", childStep "lid"] ++
      [childStep "hinge"]) : y.IsBare := by
    simp only [List.cons_append, List.nil_append, List.mem_cons, List.not_mem_nil, or_false] at hy
    rcases hy with rfl | rfl | rfl <;> exact ⟨rfl, rfl, by decide⟩
  have hctx : (tangleContext none).StartsAt (.map 0) := ⟨rfl, rfl, rfl⟩
  have hstart (e : Expr) : Start.root ≠ .value e := by rintro ⟨⟩
  have hroot : tangle.Has (Holder.map 0).place := Nat.zero_lt_succ 3
  have hsuits : q.Suits tangle (.bool true) := fun l hl => by cases hl
  exact ⟨q, t, hwrites, hclear, getValue_written hctx rfl hstart rfl hbare hroot hlists trivial
    hwrites hsuits hclear (.refl t)⟩

/-- The value is set at the path, and another is read. -/
def Misses (c : CompiledPath) (v : Value) (read : Except PathError (Option Value)) : Prop :=
  ∃ t, (c.setValue (tangleContext none) .standard v).result tangle = (.ok (), t) ∧
    (c.getValue (tangleContext none) .standard).result t = (read, t)

theorem getValue_tangle (factory : Option ObjectFactory) (c : CompiledPath) (t : Store) :
    (c.getValue (tangleContext factory) .standard).result t =
      (((c.getValue (tangleContext factory) .standard).result t).1, t) :=
  Prod.ext rfl (getValue_keeps (R := Eq) (fun _ _ _ hg => by cases hg) t).symm

theorem misses_of_results {c : CompiledPath} {v : Value} {read : Except PathError (Option Value)}
    (hset : ((c.setValue (tangleContext none) .standard v).result tangle).1 = .ok ())
    (hread : ((c.getValue (tangleContext none) .standard).result
      ((c.setValue (tangleContext none) .standard v).result tangle).2).1 = read) :
    Misses c v read :=
  ⟨_, Prod.ext hset rfl, (getValue_tangle none c _).trans (by rw [hread])⟩

/-- Where a path enters a list, the elements of a slot count as one each. -/
theorem misses_note :
    Misses (pathOf "/rows/note[2]" [childStep "rows", childStep "note" (some 2)]) (.bool true)
      (.error (.notFound "/rows/note[2]")) :=
  misses_of_results (by decide +kernel) (by decide +kernel)

/-- Where a path enters a list, another object of the list may come first afterwards. -/
theorem misses_cell :
    Misses (pathOf "/rows/cell/cell" [childStep "rows", childStep "cell", childStep "cell"])
      (.bool true) (.error (.notFound "/rows/cell/cell")) :=
  misses_of_results (by decide +kernel) (by decide +kernel)

/-- What was written is not read back when a list becomes the first element of a slot, when the path
goes through the slot that was written, from a list, or to a foreign value, and when the object
factory changes the way. -/
theorem getValue_misses_tangle :
    Grammar.parse "/gap[1]" = .ok (pathOf "/gap[1]" [childStep "gap" (some 1)]).expr.value ∧
      Misses (pathOf "/gap[1]" [childStep "gap" (some 1)]) (.list 0) (.ok (some (.bool true))) ∧
      Misses (pathOf "/self/self" [childStep "self", childStep "self"]) (.bool true)
        (.error (.notFound "/self/self")) ∧
      Misses (pathOf "/rows/note[2]" [childStep "rows", childStep "note" (some 2)]) (.bool true)
        (.error (.notFound "/rows/note[2]")) ∧
      Misses (pathOf "/rows/cell/cell" [childStep "rows", childStep "cell", childStep "cell"])
        (.bool true) (.error (.notFound "/rows/cell/cell")) ∧
      Misses (pathOf "/gap" [childStep "gap"]) (.foreign 0) (.error (.unresolvable "widget")) ∧
      ∃ q t, (boxPath.createAndSet (tangleContext (some emptier)) .standard (.bool true)).result
          tangle = (.ok q, t) ∧
        (boxPath.getValue (tangleContext (some emptier)) .standard).result t =
          (.error (.notFound "/box/lid/hinge"), t) := by
  refine ⟨by with_unfolding_all rfl, misses_of_results (by decide +kernel) (by decide +kernel),
    misses_of_results (by decide +kernel) (by decide +kernel), misses_note, misses_cell,
    misses_of_results (by decide +kernel) (by decide +kernel), ?_⟩
  obtain ⟨q, t, hcreate, hread⟩ : ∃ q t,
      (boxPath.createAndSet (tangleContext (some emptier)) .standard (.bool true)).result tangle =
        (.ok q, t) ∧
      ((boxPath.getValue (tangleContext (some emptier)) .standard).result t).1 =
        .error (.notFound "/box/lid/hinge") :=
    Action.exists_result_ok (by decide +kernel) (by decide +kernel)
  exact ⟨q, t, hcreate, (getValue_tangle _ _ t).trans (by rw [hread])⟩

end CompiledPath

end PathQuery
