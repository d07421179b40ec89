import PathQuery.Proofs.ResolvedChains

/-!
# Steps with number literals

A step to a child whose index expression is a number literal, if it has one, chooses the same
everywhere. Its name, if it is unqualified, is that of a slot unless it is looked for in a list.

* names: `SimpleStep.IsBare`, `SimpleStep.choice`, `Environment.EntersNoList`.
* **`chooses_of_isBare`**, **`namesSlots_of_entersNoList`**: along paths of such steps.
* `entersNoList_of_values`: whether lists are entered can be read off the values of the graph.
-/

namespace PathQuery

/-! ## Steps with number literals -/

namespace SimpleStep

/-- The step is one to the children of an unqualified name, with a number literal at most. -/
structure IsBare (x : SimpleStep) : Prop where
  child : x.isAttribute = false
  unqualified : x.name.qualifier = none
  literal : ∀ e, x.index = some e → ∃ n, e = .number n

/-- What a number literal chooses: the element that it counts. -/
def choice (x : SimpleStep) : Choice :=
  match x.index with
  | some (.number n) => .element (Number.roundToInt n - 1)
  | _ => .whole

theorem choice_ne_nothing (x : SimpleStep) : x.choice ≠ .nothing := by
  rw [choice]
  split <;> nofun

end SimpleStep

theorem isWildcard_of_simple? {x : Step} {y : SimpleStep} (h : x.simple? = some y) :
    y.name.isWildcard = false := by
  obtain ⟨axis, test, predicates⟩ := x
  cases test with
  | name name =>
    rw [Step.simple?] at h
    split at h
    · next hsimple =>
      cases h
      simp only [Step.isSimple, Bool.and_eq_true] at hsimple
      simpa using hsimple.1.1.2
    · cases h
  | _ => cases h

/-- No name of a simple path stands for all names. -/
theorem isWildcard_of_simplePath? {start : Start} {steps : List Step} {isAbsolute : Bool}
    {slots : List SimpleStep} (h : simplePath? start steps = some (isAbsolute, slots)) :
    ∀ x ∈ slots, x.name.isWildcard = false := by
  have hmap : steps.mapM Step.simple? = some slots := by
    cases start with
    | value e => cases h
    | here | root =>
      obtain ⟨ys, hys, heq⟩ := Option.map_eq_some_iff.1 h
      cases heq
      exact hys
  clear h
  induction steps generalizing slots with
  | nil =>
    cases hmap
    exact fun _ hx => by cases hx
  | cons step steps ih =>
    rw [List.mapM_cons] at hmap
    obtain ⟨y, hy, hmap⟩ := Option.bind_eq_some_iff.1 hmap
    obtain ⟨ys, hys, hmap⟩ := Option.bind_eq_some_iff.1 hmap
    cases hmap
    exact List.forall_mem_cons.2 ⟨isWildcard_of_simple? hy, ih hys⟩

theorem Link.mem_along {slots : List SimpleStep} {x : Link}
    (hx : x ∈ Link.along slots (slots.map SimpleStep.choice)) :
    ∃ y ∈ slots, y.link y.choice = x := by
  rw [Link.along, List.mem_reverse, List.zipWith_map_right, List.zipWith_self] at hx
  exact List.mem_map.1 hx

variable {s t u : Store} {p q : Pointer} {o : Occasion} {base ns : List Node} {xs : List Link}

/-- In a chain along steps to children no attribute is missing. -/
theorem Led.isAttribute_of_isMissing (hn : Led s base ns xs)
    (hbase : ∀ n ∈ base, n.isMissing = true → n.isAttribute = false)
    (hxs : ∀ x ∈ xs, x.isAttribute = false) :
    ∀ n ∈ ns, n.isMissing = true → n.isAttribute = false := by
  induction hn with
  | base => exact hbase
  | slot hn hend hhas hx ih =>
    exact List.forall_mem_cons.2 ⟨nofun, ih (List.forall_mem_cons.1 hxs).2⟩
  | missing hn hno ih =>
    obtain ⟨hx, hxs⟩ := List.forall_mem_cons.1 hxs
    exact List.forall_mem_cons.2 ⟨fun _ => hx, ih hxs⟩

namespace Environment

variable {env : Environment} {slots : List SimpleStep}

/-- No step of the path is taken from a pointer to a list. -/
def EntersNoList (env : Environment) (s : Store) (o : Occasion) (p : Pointer) :
    List SimpleStep → Prop
  | [] => True
  | x :: xs => (∀ l, p.value s .standard ≠ .ok (.list l)) ∧
      ∀ q t, (env.resolveStep .standard (o.part 0) p x).result s = (.ok q, t) →
        EntersNoList env t (o.part 1) q xs

/-- **Number literals choose the same everywhere.** -/
theorem chooses_of_isBare (hslots : ∀ x ∈ slots, x.IsBare) :
    env.Chooses s o p slots (slots.map SimpleStep.choice) := by
  induction slots generalizing s o p with
  | nil => exact .nil
  | cons x xs ih =>
    obtain ⟨hx, hxs⟩ := List.forall_mem_cons.1 hslots
    refine .cons ?_ fun q t _ => ih hxs
    cases hindex : x.index with
    | none =>
      rw [ChoosesAt, hindex]
      simp [SimpleStep.choice, hindex]
    | some e =>
      obtain ⟨n, rfl⟩ := hx.literal e hindex
      rw [show x.choice = .element (Number.roundToInt n - 1) by simp [SimpleStep.choice, hindex]]
      exact choosesAt_number hindex

/-- An unqualified name is that of a slot, unless it is looked for in a list. -/
theorem namesSlot_of_not_list {x : SimpleStep} (hp : p.node.IsPlain) (hx : x.IsBare)
    (hproper : x.name.isWildcard = false) (hlist : ∀ l, p.node.end? s ≠ some (.list l)) :
    NamesSlot s p x := by
  intro hslot q hq
  rw [hx.child] at hslot hq
  have hno (h : Holder) (hend : p.node.end? s = some h.value) :
      (s.slots h).has x.name.text = false := by
    refine Bool.eq_false_of_not_eq_true fun hhas => ?_
    rw [slot?_of_has _ _ hp hend hhas] at hslot
    cases hslot
  cases firstPassing_eq_none (.refl s) hp hproper hx.unqualified hlist hno hq

theorem namesSlots_of_entersNoList {above : List Link} (hslots : ∀ x ∈ slots, x.IsBare)
    (hproper : ∀ x ∈ slots, x.name.isWildcard = false) (hp : Led s base p.nodes above)
    (hbase : ∀ n ∈ base, n.IsPlain) (hlists : env.EntersNoList s o p slots) :
    env.NamesSlots s o p slots := by
  induction slots generalizing s o p above with
  | nil => trivial
  | cons x xs ih =>
    obtain ⟨hx, hxs⟩ := List.forall_mem_cons.1 hslots
    obtain ⟨hw, hws⟩ := List.forall_mem_cons.1 hproper
    have hplain : p.node.IsPlain := hp.isPlain hbase
    have hon := Store.SameGraph.on s (o.part 0)
    have hnames : NamesSlot (s.on (o.part 0)) p x := by
      refine namesSlot_of_not_list hplain hx hw fun l hend => ?_
      rw [hon.end?, ← Pointer.value_eq_ok_iff hplain] at hend
      exact hlists.1 l hend
    refine ⟨hnames, fun q t hq => ?_⟩
    have hchosen : env.ChoosesAt s (o.part 0) p x x.choice := by
      have hone : env.Chooses s o p [x] ([x].map SimpleStep.choice) :=
        chooses_of_isBare (List.forall_mem_singleton.2 hx)
      cases hone with
      | cons hk _ => exact hk
    obtain ⟨hled, -⟩ := resolveStep_led hp hplain hnames hchosen hq
    exact ih hxs hws hled (hlists.2 q t hq)

theorem entersNoList_of_values {xs : List NamedStep}
    (hproper : ∀ x ∈ xs, x.name.isWildcard = false) (hp : p.node.IsPlain)
    (hlists : s.EntersNoList (p.node.immediate s) xs) :
    env.EntersNoList s o p (xs.map NamedStep.simple) := by
  induction xs generalizing o p with
  | nil => trivial
  | cons x xs ih =>
    obtain ⟨hx, hxs⟩ := List.forall_mem_cons.1 hproper
    refine ⟨fun l hl => ?_, fun q t hq => ?_⟩
    · rw [Pointer.value_eq_ok_iff hp, Node.end?_eq hp] at hl
      exact hlists.1 l hl
    · obtain ⟨hplain, hnext, rfl⟩ := entersNoList_of_resolveStep hp hx hlists hq
      exact ih hxs hplain hnext

end Environment

end PathQuery
