import PathQuery.Proofs.NestedLists

/-!
# The walk down, pointer by pointer

A walk down visits one pointer after another. It goes on below a pointer, unless its value is
nothing, a scalar or a value that the walk is in already. Each value that it enters is an object
that it is not in, so it is never in more values than there are objects, whatever cycles there are.

* names: `Pointer.Walks`, `Descent`, `Descent.next`, `Descent.Runs`.
* **`walks_descendants`**: the search for descendants is such a walk, and is not cut short.
* **`Walks.runs`**: taken in single steps, with a stack of the pointers that are still to be visited
  on every level, the walk ends after finitely many of them.
-/

namespace PathQuery

/-- A walk that is in these values does not enter the value. -/
def Value.stops (inside : List Value) (v : Value) : Bool :=
  v.isNull || v.isScalar || inside.any (·.same v)

namespace Pointer

/-- A walk that is in some values visits pointers in turn, with what is below each of them. -/
inductive Walks (s : Store) : List Value → List Pointer → List Pointer → Prop
  | done {inside : List Value} : Walks s inside [] []
  | stop {inside : List Value} {p : Pointer} {ps rest : List Pointer} {v : Value}
    (hv : p.value s .standard = .ok v) (hstops : v.stops inside = true)
    (hrest : Walks s inside ps rest) : Walks s inside (p :: ps) (p :: rest)
  | enter {inside : List Value} {p : Pointer} {ps cs below rest : List Pointer} {v : Value}
    (hv : p.value s .standard = .ok v) (hgoes : v.stops inside = false)
    (hcs : p.children s .standard = .ok cs) (hbelow : Walks s (v :: inside) cs below)
    (hrest : Walks s inside ps rest) : Walks s inside (p :: ps) (p :: (below ++ rest))

variable {s : Store} {root v : Value} {p : Pointer} {inside : List Value}
variable {ps ps' cs qs qs' : List Pointer}

theorem Walks.append (h : Walks s inside ps qs) (h' : Walks s inside ps' qs') :
    Walks s inside (ps ++ ps') (qs ++ qs') := by
  induction h with
  | done => exact h'
  | stop hv hstops _ ih => exact .stop hv hstops (ih h')
  | enter hv hgoes hcs hbelow _ _ ih =>
    rw [List.cons_append, List.cons_append, List.append_assoc]
    exact .enter hv hgoes hcs hbelow (ih h')

/-- The pointers themselves are visited. -/
theorem Walks.mem (h : Walks s inside ps qs) {c : Pointer} (hc : c ∈ ps) : c ∈ qs := by
  induction h with
  | done => cases hc
  | stop _ _ _ ih =>
    rcases List.mem_cons.1 hc with rfl | hc
    · exact List.mem_cons_self ..
    · exact List.mem_cons_of_mem _ (ih hc)
  | enter _ _ _ _ _ _ ih =>
    rcases List.mem_cons.1 hc with rfl | hc
    · exact List.mem_cons_self ..
    · exact List.mem_cons_of_mem _ (List.mem_append_right _ (ih hc))

/-- Searches that walk down from one pointer each walk down from all of them in turn. -/
theorem walks_flatMap {f : Pointer → Nodes}
    (h : ∀ c ∈ cs, ∃ qs, f c = .ofList qs ∧ Walks s inside [c] qs) :
    ∃ qs, (Nodes.ofList cs).flatMap f = .ofList qs ∧ Walks s inside cs qs := by
  induction cs with
  | nil => exact ⟨[], rfl, .done⟩
  | cons c cs ih =>
    obtain ⟨qs, hqs, hwalk⟩ := h c (List.mem_cons_self ..)
    obtain ⟨rest, hrest, hwalks⟩ := ih fun c hc => h c (List.mem_cons_of_mem _ hc)
    have hcons : (Nodes.ofList (c :: cs)).flatMap f = f c ++ (Nodes.ofList cs).flatMap f := rfl
    exact ⟨qs ++ rest, by rw [hcons, hqs, hrest]; rfl, hwalk.append hwalks⟩

theorem stops_of_not_isObject (hp : p.node.IsPlain) (hv : p.value s .standard = .ok v)
    (hobject : v.isObject = false) (inside : List Value) : v.stops inside = true := by
  have hforeign := ne_foreign_of_end? hp ((value_eq_ok_iff hp).1 hv)
  cases v <;> first | rfl | exact absurd rfl (hforeign _) | cases hobject

theorem isObject_of_goes_on (hp : p.node.IsPlain) (hv : p.value s .standard = .ok v)
    (hgoes : v.stops inside = false) : v.isObject = true := by
  by_contra hobject
  rw [stops_of_not_isObject hp hv (Bool.eq_false_iff.2 hobject)] at hgoes
  cases hgoes

theorem not_mem_of_goes_on (hgoes : v.stops inside = false) : v ∉ inside := by
  intro hmem
  have hany : inside.any (·.same v) = true := List.any_eq_true.2 ⟨v, hmem, v.same_refl⟩
  rw [Value.stops, hany, Bool.or_true] at hgoes
  cases hgoes

/-- **A walk is not cut short** that may go as many values deep as there are objects it is not in.
Induction on that number. -/
theorem walks_subtreeUpTo (hclosed : s.IsClosed root) (hends : s.Resolves root) {n : Nat}
    (hp : p.IsWithin s root) (hown : ∀ u ∈ inside, s.IsOwn u) (hnodup : inside.Nodup)
    (hn : s.objectCount ≤ inside.length + n) :
    ∃ qs, (p.subtreeUpTo s .standard n inside fun _ => .ended).nodes = .ofList qs ∧
      Walks s inside [p] qs := by
  induction n using Nat.strong_induction_on generalizing p inside with
  | _ n ih =>
    obtain ⟨v, hv⟩ := hp.exists_value hends
    cases hstops : v.stops inside with
    | true =>
      rw [subtreeUpTo_of_stops hv hstops, Search.nodes_found]
      exact ⟨[p], rfl, .stop hv hstops .done⟩
    | false =>
      obtain ⟨cs, hcs⟩ := hp.exists_children hends
      have hreach := hp.reaches_end ((value_eq_ok_iff hp.isPlain).1 hv)
      have hown := List.forall_mem_cons.2
        ⟨hclosed.isOwn hreach (isObject_of_goes_on hp.isPlain hv hstops), hown⟩
      have hnodup := List.nodup_cons.2 ⟨not_mem_of_goes_on hstops, hnodup⟩
      have hlength := Store.length_le_objectCount hown hnodup
      rw [List.length_cons] at hlength
      -- an object that the walk is not in is left
      obtain ⟨n, rfl⟩ : ∃ m, n = m + 1 := ⟨n - 1, by omega⟩
      obtain ⟨below, hbelow, hwalk⟩ := walks_flatMap fun c hc =>
        ih n (Nat.lt_succ_self n) (hp.child (isChild_of_mem hp.isPlain hcs hc)) hown hnodup
          (by rw [List.length_cons]; omega)
      refine ⟨p :: below, ?_, ?_⟩
      · rw [subtreeUpTo_of_goes_on hv hstops, hcs, Except.ok_bind, Except.pure_eq_ok,
          Search.ofExcept, Search.nodes_found,
          Search.nodes_each (nodes_subtreeUpTo s .standard n _), Search.nodes_ended,
          Nodes.append_nil, hbelow]
        rfl
      · rw [← List.append_nil below]
        exact .enter hv hstops hcs hwalk .done

theorem PointsInto.exists_value (hends : s.Resolves root) (hp : p.PointsInto s root) :
    ∃ v, p.value s .standard = .ok v := by
  rcases hp.reaches with hnull | hreach
  · refine ⟨.null, (value_eq_ok_iff hp.isPlain).2 ?_⟩
    rw [Node.end?, hnull]
    split <;> rfl
  · exact IsWithin.exists_value hends ⟨hp.isPlain, hreach⟩

/-- **The search for the nodes below a pointer walks down from its children**, and finds all that
the walk visits. -/
theorem walks_descendants (hclosed : s.IsClosed root) (hends : s.Resolves root)
    (hp : p.PointsInto s root) :
    ∃ cs v a qs, p.children s .standard = .ok cs ∧ p.value s .standard = .ok v ∧
      p.descendants s .standard = .ok a ∧ a.nodes = .ofList qs ∧ Walks s [v] cs qs := by
  obtain ⟨v, hv⟩ := hp.exists_value hends
  have hdescendants {cs : List Pointer} (hcs : p.children s .standard = .ok cs) :
      p.descendants s .standard =
        .ok (.each (subtreeUpTo s .standard s.objectCount [v]) cs fun _ => .ended) := by
    rw [descendants, hcs, hv]
    rfl
  cases hobject : v.isObject with
  | false =>
    have hcs := children_of_not_isObject hp.isPlain hv hobject
    exact ⟨[], v, _, [], hcs, hv, hdescendants hcs, rfl, .done⟩
  | true =>
    obtain ⟨hwithin, hreach⟩ := hp.reaches_end ((value_eq_ok_iff hp.isPlain).1 hv) hobject
    obtain ⟨cs, hcs⟩ := hwithin.exists_children hends
    obtain ⟨qs, hqs, hwalk⟩ := walks_flatMap fun c hc =>
      walks_subtreeUpTo hclosed hends
        (hwithin.child (isChild_of_mem hp.isPlain hcs hc))
        (by simpa using hclosed.isOwn hreach hobject) (List.nodup_singleton v)
        (Nat.le_add_left ..)
    refine ⟨cs, v, _, qs, hcs, hv, hdescendants hcs, ?_, hwalk⟩
    rw [Search.nodes_each (nodes_subtreeUpTo s .standard _ _), Search.nodes_ended,
      Nodes.append_nil, hqs]

/-- The walk down from a pointer visits it, and then walks down from its children. -/
theorem Walks.of_children (hp : p.node.IsPlain) (hcs : p.children s .standard = .ok cs)
    (hv : p.value s .standard = .ok v) (h : Walks s [v] cs qs) : Walks s [] [p] (p :: qs) := by
  cases hobject : v.isObject with
  | false =>
    obtain rfl : [] = cs :=
      Except.ok.inj ((children_of_not_isObject hp hv hobject).symm.trans hcs)
    cases h
    exact .stop hv (stops_of_not_isObject hp hv hobject []) .done
  | true =>
    have hgoes : v.stops [] = false := by cases v <;> first | rfl | cases hobject
    rw [← List.append_nil qs]
    exact .enter hv hgoes hcs h .done

end Pointer

/-! ## Single steps -/

/-- A walk on its way: the pointers that are still to be visited on each level and the values that
it is in, the innermost first. -/
structure Descent where
  levels : List (List Pointer)
  inside : List Value

namespace Descent

/-- One step of a walk: what it visits, if anything, and how the walk goes on. At the end there is
no step. -/
def next (s : Store) (r : Registry) : Descent → Option (Except PathError (Option Pointer × Descent))
  | ⟨[], _⟩ => none
  | ⟨[] :: levels, inside⟩ => some (.ok (none, ⟨levels, inside.tail⟩))
  | ⟨(p :: ps) :: levels, inside⟩ => some do
    let v ← p.value s r
    if v.stops inside then pure (some p, ⟨ps :: levels, inside⟩)
    else pure (some p, ⟨(← p.children s r) :: ps :: levels, v :: inside⟩)

/-- A walk ends after finitely many steps, none of which fails, and visits these pointers. -/
inductive Runs (s : Store) : Descent → List Pointer → Prop
  | ended {d : Descent} (h : d.next s .standard = none) : Runs s d []
  | back {d d' : Descent} {qs : List Pointer} (h : d.next s .standard = some (.ok (none, d')))
    (hrest : Runs s d' qs) : Runs s d qs
  | found {d d' : Descent} {p : Pointer} {qs : List Pointer}
    (h : d.next s .standard = some (.ok (some p, d'))) (hrest : Runs s d' qs) : Runs s d (p :: qs)

end Descent

/-- **A walk can be taken in single steps.** What is left of the levels above comes after it. -/
theorem Pointer.Walks.runs {s : Store} {inside : List Value} {ps qs rest : List Pointer}
    {levels : List (List Pointer)} (h : Walks s inside ps qs)
    (hrest : Descent.Runs s ⟨[] :: levels, inside⟩ rest) :
    Descent.Runs s ⟨ps :: levels, inside⟩ (qs ++ rest) := by
  induction h generalizing levels rest with
  | done => exact hrest
  | stop hv hstops _ ih =>
    refine .found ?_ (ih hrest)
    simp only [Descent.next, hv, Except.ok_bind, hstops, if_true, Except.pure_eq_ok]
  | enter hv hgoes hcs _ _ ihbelow ihrest =>
    rw [List.cons_append, List.append_assoc]
    refine .found ?_ (ihbelow (.back rfl (ihrest hrest)))
    simp only [Descent.next, hv, hcs, Except.ok_bind, hgoes, Bool.false_eq_true, if_false,
      Except.pure_eq_ok]

end PathQuery
