import PathQuery.Proofs.CreatedChains

/-!
# Where simple paths lead

Step by step, a simple path leads along the chain that its names and the choices of its index
expressions describe.

* names: `Environment.ChoosesAt`, `Environment.Chooses`, `Environment.NamesSlot`,
  `Environment.NamesSlots`.
* `resolveStep_chosen`: one step, when its slot has been found.
* **`resolve_led`**: where a path leads. **`resolve_stands`**: a path leads somewhere if the chain
  of its links stands.
-/

namespace PathQuery

namespace Link

/-- The node for the link at the slot that was found for its name. -/
def chosen (x : Link) (n : Node) : Node :=
  match x.choice with
  | .whole => n
  | .element i => (n.atIndex? (.element i)).getD n
  | .nothing => x.missing

variable {x : Link}

theorem chosen_slot (hx : x.choice ≠ .nothing) (h : Holder) :
    x.chosen (.slot h x.name .whole x.isAttribute) = x.slot h := by
  obtain ⟨name, isAttribute, choice⟩ := x
  cases choice <;> first | rfl | exact absurd rfl hx

theorem chosen_nothing (hx : x.choice = .nothing) (n : Node) : x.chosen n = x.missing := by
  rw [Link.chosen, hx]

theorem chosen_missing (x : Link) : x.chosen (.missing x.name .whole x.isAttribute) = x.missing := by
  obtain ⟨name, isAttribute, choice⟩ := x
  cases choice <;> rfl

/-- The links of a path, the last one first. -/
def along (xs : List SimpleStep) (ks : List Choice) : List Link :=
  (List.zipWith SimpleStep.link xs ks).reverse

theorem along_cons (x : SimpleStep) (xs : List SimpleStep) (k : Choice) (ks : List Choice)
    (above : List Link) : along (x :: xs) (k :: ks) ++ above = along xs ks ++ x.link k :: above := by
  simp [along]

end Link

variable {s t u : Store} {base ns : List Node} {above : List Link}
variable {p q : Pointer} {h : Holder} {v : Value} {o : Occasion} {name : QName} {a : Bool}

namespace Environment

variable {env : Environment} {x : SimpleStep} {xs : List SimpleStep} {k : Choice} {ks : List Choice}

/-! ## The slot of a name -/

/-- Where the object has no slot of the step's name, no other node passes the name. -/
def NamesSlot (s : Store) (p : Pointer) (x : SimpleStep) : Prop :=
  p.slot? s .standard x.name x.isAttribute = .ok none →
    ∀ q, firstPassing .standard p x.name x.isAttribute s ≠ .ok (some q)

/-- The slot that exists is one of the object that the pointer shows. -/
theorem slot?_eq_ok (hp : p.node.IsPlain)
    (hq : p.slot? s .standard name a = .ok (some q)) :
    ∃ h : Holder, p.node.end? s = some h.value ∧ (s.slots h).has name.text = true ∧
      q = p.child s.now (.slot h name .whole a) := by
  rw [Pointer.slot?_eq hp] at hq
  obtain ⟨v, hv, hq⟩ := Except.bind_eq_ok_iff.1 hq
  rw [Pointer.value_eq_ok_iff hp] at hv
  cases hh : v.holder? with
  | none =>
    rw [hh] at hq
    cases hq
  | some h =>
    rw [hh] at hq
    dsimp only at hq
    split at hq
    · next hhas =>
      obtain rfl := Option.some.inj (Except.ok.inj hq)
      exact ⟨h, Holder.value_of_holder? hh ▸ hv, hhas, rfl⟩
    · cases hq

/-- The slot of an object is found under its name. -/
theorem slot?_of_has (name : QName) (a : Bool) (hp : p.node.IsPlain)
    (hend : p.node.end? s = some h.value) (hhas : (s.slots h).has name.text = true) :
    p.slot? s .standard name a = .ok (some (p.child s.now (.slot h name .whole a))) := by
  have hvalue : p.value s .standard = .ok h.value := (Pointer.value_eq_ok_iff hp).2 hend
  rw [Pointer.slot?_eq hp, hvalue]
  simp only [Except.ok_bind, Holder.holder?_value, hhas]
  rfl

/-- Nothing is found below nothing. -/
theorem slot?_of_null (name : QName) (a : Bool) (hp : p.node.IsPlain)
    (hend : p.node.end? s = some .null) :
    p.slot? s .standard name a = .ok none ∧
      firstPassing .standard p name a s = .ok none := by
  have hvalue : p.value s .standard = .ok .null := (Pointer.value_eq_ok_iff hp).2 hend
  have hchildren : p.children s .standard = .ok [] := by
    rw [Pointer.children]
    cases s.lists.size <;>
    · rw [Pointer.childrenUpTo, Pointer.childrenWith_eq hp, hvalue]
      rfl
  refine ⟨by rw [Pointer.slot?_eq hp, hvalue]; rfl, ?_⟩
  cases a with
  | true =>
    rw [firstPassing, if_pos rfl, Pointer.attributes_eq hp, hvalue]
    rfl
  | false =>
    rw [firstPassing, if_neg Bool.false_ne_true, hchildren]
    rfl

/-- A step that names a slot leads to it or to a missing one. -/
theorem slotOrMissing_cases (hp : p.node.IsPlain) (hx : NamesSlot s p x)
    (hq : slotOrMissing .standard p x.name x.isAttribute s = .ok q) :
    (∃ h : Holder, p.node.end? s = some h.value ∧ (s.slots h).has x.name.text = true ∧
        q = p.child s.now (.slot h x.name .whole x.isAttribute)) ∨
      (∀ h : Holder, p.node.end? s = some h.value → (s.slots h).has x.name.text = false) ∧
        q = p.child s.now (.missing x.name .whole x.isAttribute) := by
  by_cases hown : ∃ h : Holder, p.node.end? s = some h.value ∧ (s.slots h).has x.name.text = true
  · obtain ⟨h, hend, hhas⟩ := hown
    rw [slotOrMissing, slot?_of_has _ _ hp hend hhas] at hq
    exact .inl ⟨h, hend, hhas, (Except.ok.inj hq).symm⟩
  · have hno (h : Holder) (hend : p.node.end? s = some h.value) :
        (s.slots h).has x.name.text = false :=
      Bool.eq_false_of_not_eq_true fun hhas => hown ⟨h, hend, hhas⟩
    refine .inr ⟨hno, ?_⟩
    rw [slotOrMissing] at hq
    obtain ⟨slot, hslot, hq⟩ := Except.bind_eq_ok_iff.1 hq
    cases slot with
    | some slot =>
      obtain ⟨h, hend, hhas, -⟩ := slot?_eq_ok hp hslot
      exact absurd ⟨h, hend, hhas⟩ hown
    | none =>
      obtain ⟨other, hfirst, hq⟩ := Except.bind_eq_ok_iff.1 hq
      cases other with
      | some other => exact absurd hfirst (hx hslot other)
      | none => exact (Except.ok.inj hq).symm

/-! ## One step -/

/-- The index expression of the step chooses so at the pointer, and leaves the graph as it is. -/
def ChoosesAt (env : Environment) (s : Store) (o : Occasion) (p : Pointer) (x : SimpleStep)
    (k : Choice) : Prop :=
  match x.index with
  | none => k = .whole
  | some e => ∃ outcome answer t,
      (env.compute .standard e { node := p, occasion := o.part 0 }).result s = (.ok outcome, t) ∧
        s.SameGraph t ∧ outcome.all = .ok answer ∧ Choice.ofAnswer (t.on o) answer = k

/-- A number literal chooses the same element everywhere. -/
theorem choosesAt_number {n : Float} (hx : x.index = some (.number n)) :
    env.ChoosesAt s o p x (.element (Number.roundToInt n - 1)) := by
  rw [ChoosesAt, hx]
  exact ⟨.answer (.number n), .number n, s, by rw [compute]; rfl, .refl s, rfl, rfl⟩

/-- **When the slot of a step has been found, the step leads to what is chosen of it.** -/
theorem resolveStep_chosen {node : Node}
    (hslot : slotOrMissing .standard p x.name x.isAttribute (s.on o) =
      .ok (p.child (s.on o).now node))
    (hnode : node.index = .whole ∧ ∀ i, (node.atIndex? i).isSome)
    (hk : env.ChoosesAt s o p x k) :
    ∃ q t, (env.resolveStep .standard o p x).result s = (.ok q, t) ∧ s.SameGraph t ∧
      q.nodes = (x.link k).chosen node :: p.nodes := by
  rw [resolveStep, Action.result_bind_ok (x := p.child (s.on o).now node)
    (by rw [Action.result_read, hslot])]
  cases hindex : x.index with
  | none =>
    rw [ChoosesAt, hindex] at hk
    subst hk
    exact ⟨_, s, rfl, .refl s, rfl⟩
  | some e =>
    rw [ChoosesAt, hindex] at hk
    obtain ⟨outcome, answer, t, houtcome, hst, hanswer, rfl⟩ := hk
    dsimp only
    rw [Action.result_bind_ok houtcome,
      Action.result_bind_ok (x := answer) (by rw [Action.result_liftM, hanswer]),
      Action.result_bind_ok (Action.result_get t)]
    cases answer with
    | number n =>
      refine ⟨_, t, rfl, hst, ?_⟩
      obtain ⟨m, hm⟩ := Option.isSome_iff_exists.1
        (hnode.2 (.element (Number.roundToInt n - 1)))
      have hwhole : (p.child (s.on o).now node).node.index = .whole := hnode.1
      have hmoved : (p.child (s.on o).now node).node.atIndex?
          (.element (Number.roundToInt n - 1)) = some m := hm
      rw [elementOf, if_pos hwhole, Pointer.atIndex?, hmoved]
      simp only [Link.chosen, SimpleStep.link, Choice.ofAnswer, hm]
      rfl
    | _ =>
      dsimp only
      split <;> next hbool =>
        refine ⟨_, t, rfl, hst, ?_⟩
        simp only [Link.chosen, SimpleStep.link, Choice.ofAnswer, hbool]
        rfl

/-! ## Whole paths -/

/-- The steps of the path, from one pointer to the next, name slots. -/
def NamesSlots (env : Environment) (s : Store) (o : Occasion) (p : Pointer) :
    List SimpleStep → Prop
  | [] => True
  | x :: xs => NamesSlot (s.on (o.part 0)) p x ∧
      ∀ q t, (env.resolveStep .standard (o.part 0) p x).result s = (.ok q, t) →
        NamesSlots env t (o.part 1) q xs

/-- The index expressions of the path, from one pointer to the next, make these choices, and leave
the graph as it is. -/
inductive Chooses (env : Environment) :
    Store → Occasion → Pointer → List SimpleStep → List Choice → Prop
  | nil {s : Store} {o : Occasion} {p : Pointer} : Chooses env s o p [] []
  | cons {s : Store} {o : Occasion} {p : Pointer} {x : SimpleStep} {xs : List SimpleStep}
      {k : Choice} {ks : List Choice} (hk : env.ChoosesAt s (o.part 0) p x k)
      (hks : ∀ q t, (env.resolveStep .standard (o.part 0) p x).result s = (.ok q, t) →
        Chooses env t (o.part 1) q xs ks) :
      Chooses env s o p (x :: xs) (k :: ks)

/-- A step leads on along a chain. -/
theorem resolveStep_led (hp : Led s base p.nodes above) (hplain : p.node.IsPlain)
    (hx : NamesSlot (s.on o) p x) (hk : env.ChoosesAt s o p x k)
    (hq : (env.resolveStep .standard o p x).result s = (.ok q, t)) :
    Led t base q.nodes (x.link k :: above) ∧ s.SameGraph t := by
  have hon := Store.SameGraph.on s o
  have hslot : ∃ slot, slotOrMissing .standard p x.name x.isAttribute (s.on o) = .ok slot := by
    obtain ⟨slot, u, hslot, -⟩ := Action.result_bind_eq_ok_iff.1 hq
    rw [Action.result_read, Prod.mk.injEq] at hslot
    exact ⟨slot, hslot.1⟩
  obtain ⟨slot, hslot⟩ := hslot
  rcases slotOrMissing_cases hplain hx hslot with ⟨h, hend, hhas, rfl⟩ | ⟨hno, rfl⟩
  all_goals
    obtain ⟨q', t', hq', hst, hnodes⟩ := resolveStep_chosen hslot ⟨rfl, fun _ => rfl⟩ hk
    rw [hq, Prod.mk.injEq, Except.ok.injEq] at hq'
    obtain ⟨rfl, rfl⟩ := hq'
    rw [hnodes]
    refine ⟨Led.congr hst ?_, hst⟩
    rw [Pointer.nodes_eq] at hp ⊢
  · rw [hon.end?] at hend
    rw [hon.slots] at hhas
    by_cases hnothing : k = .nothing
    · rw [Link.chosen_nothing hnothing]
      exact hp.missing (.inl hnothing)
    · have hchosen : (x.link k).chosen (.slot h x.name .whole x.isAttribute) = (x.link k).slot h :=
        Link.chosen_slot hnothing h
      rw [hchosen]
      exact hp.slot hend hhas hnothing
  · have hchosen : (x.link k).chosen (.missing x.name .whole x.isAttribute) =
        (x.link k).missing := Link.chosen_missing _
    rw [hchosen]
    refine hp.missing (.inr fun h hend => ?_)
    rw [← hon.slots]
    exact hno h (hon.end? _ ▸ hend)

/-- **Where a path leads.** -/
theorem resolve_led (hp : Led s base p.nodes above) (hbase : ∀ n ∈ base, n.IsPlain)
    (hxs : env.NamesSlots s o p xs) (hks : env.Chooses s o p xs ks)
    (hq : (env.resolve .standard o p xs).result s = (.ok q, t)) :
    Led t base q.nodes (Link.along xs ks ++ above) ∧ s.SameGraph t := by
  induction hks generalizing above with
  | nil =>
    rw [resolve, Action.result_pure, Prod.mk.injEq, Except.ok.injEq] at hq
    obtain ⟨rfl, rfl⟩ := hq
    exact ⟨hp, .refl _⟩
  | cons hk hks ih =>
    rw [resolve, Action.result_bind_eq_ok_iff] at hq
    obtain ⟨next, u, hnext, hq⟩ := hq
    obtain ⟨hled, hsu⟩ := resolveStep_led hp (hp.isPlain hbase) hxs.1 hk hnext
    obtain ⟨hled', hut⟩ := ih next u hnext hled (hxs.2 next u hnext) hq
    rw [Link.along_cons]
    exact ⟨hled', hsu.trans hut⟩

/-- A step leads on where the slot of its link stands. -/
theorem resolveStep_stands (hstands : Stands s base ns (x.link k :: above))
    (hp : Led s base p.nodes above) (hplain : p.node.IsPlain) (hk : env.ChoosesAt s o p x k) :
    ∃ q t, (env.resolveStep .standard o p x).result s = (.ok q, t) ∧ s.SameGraph t ∧
      Led t base q.nodes (x.link k :: above) := by
  have hon := Store.SameGraph.on s o
  have hslot : NamesSlot (s.on o) p x ∧
      ∃ node, slotOrMissing .standard p x.name x.isAttribute (s.on o) =
        .ok (p.child (s.on o).now node) ∧ node.index = .whole ∧
          ∀ i, (node.atIndex? i).isSome := by
    cases hstands with
    | slot hn hend hhas =>
      rw [← hon.slots] at hhas
      rcases hp.eq_or_isMissing hn with hsame | ⟨m, hm, hmissing⟩
      · rw [Pointer.nodes_eq] at hsame
        obtain ⟨rfl, -⟩ := List.cons.inj hsame
        rw [← hon.end?] at hend
        have hslot := slot?_of_has x.name x.isAttribute hplain hend hhas
        refine ⟨fun hnone => ?_, _, by rw [slotOrMissing, hslot]; rfl, rfl, fun _ => rfl⟩
        rw [hslot] at hnone
        cases hnone
      · obtain rfl : p.node = m := by simpa [Pointer.nodes_eq] using hm
        have hnull : p.node.end? (s.on o) = some .null := Node.end?_of_isMissing hmissing
        obtain ⟨hslot, hfirst⟩ := slot?_of_null x.name x.isAttribute hplain hnull
        refine ⟨fun _ q hq => ?_, _, by rw [slotOrMissing, hslot, hfirst]; rfl, rfl, fun _ => rfl⟩
        rw [hfirst] at hq
        cases hq
  obtain ⟨hx, node, hfound, hnode⟩ := hslot
  obtain ⟨q, t, hq, hst, -⟩ := resolveStep_chosen hfound hnode hk
  exact ⟨q, t, hq, hst, (resolveStep_led hp hplain hx hk hq).1⟩

/-- **A path leads somewhere**, if the chain of its links stands. -/
theorem resolve_stands (hks : env.Chooses s o p xs ks) (hp : Led s base p.nodes above)
    (hbase : ∀ n ∈ base, n.IsPlain) (hstands : Stands s base ns (Link.along xs ks ++ above)) :
    ∃ q t, (env.resolve .standard o p xs).result s = (.ok q, t) ∧ s.SameGraph t ∧
      Led t base q.nodes (Link.along xs ks ++ above) := by
  induction hks generalizing above with
  | nil => exact ⟨_, _, rfl, .refl _, hp⟩
  | cons hk hks ih =>
    rw [Link.along_cons] at hstands ⊢
    obtain ⟨ms, habove⟩ := hstands.exists_above
    obtain ⟨next, u, hnext, hsu, hled⟩ :=
      resolveStep_stands habove hp (hp.isPlain hbase) hk
    obtain ⟨q, t, hq, hut, hled'⟩ := ih next u hnext hled (hstands.congr hsu)
    exact ⟨q, t, by rw [resolve, Action.result_bind_ok hnext, hq], hsu.trans hut, hled'⟩

end Environment

end PathQuery
