import Mathlib.Data.List.TakeDrop
import PathQuery.Proofs.Values
import PathQuery.Query.Eval

/-!
# What a walk finds

The axes move along children, parents and elements, and a walk is made of axes. A property that
those moves keep is a property of every pointer that a walk finds, in whatever order and however
many of them are pulled.

* names: `Pointer.Kept`, `Environment.KeepsAlong`, `Environment.find`, `Nodes.mem_flatMap`.
* **`Kept.along`** for one axis, **`kept_walk`** for the steps of a path.
-/

namespace PathQuery

/-! ## Members of sequences -/

namespace Nodes

variable {a b : Nodes} {f : Pointer → Nodes} {q : Pointer}

theorem mem_append (h : q ∈ (a ++ b).items) : q ∈ a.items ∨ q ∈ b.items := by
  obtain ⟨as, _ | e⟩ := a
  · exact List.mem_append.1 h
  · exact .inl h

theorem mem_flatMap (h : q ∈ (a.flatMap f).items) : ∃ p ∈ a.items, q ∈ (f p).items := by
  obtain ⟨as, failure⟩ := a
  induction as with
  | nil => simp [flatMap] at h
  | cons p as ih =>
    rcases mem_append (b := flatMap ⟨as, failure⟩ f) h with h | h
    · exact ⟨p, List.mem_cons_self .., h⟩
    · obtain ⟨p', hp', hq⟩ := ih h
      exact ⟨p', List.mem_cons_of_mem _ hp', hq⟩

/-- The first of what is found from several pointers is found from the first of them. -/
theorem head?_flatMap {p : Pointer} (ha : a.items.head? = some p)
    (hf : (f p).items.head? = some q) : (a.flatMap f).items.head? = some q := by
  obtain ⟨items, failure⟩ := a
  obtain ⟨ps, rfl⟩ := List.head?_eq_some_iff.1 ha
  obtain ⟨qs, hqs⟩ := List.head?_eq_some_iff.1 hf
  show (append (f p) (flatMap ⟨ps, failure⟩ f)).items.head? = some q
  rw [append]
  split <;> simp [hqs]

theorem all_eq_ok_iff {l : List Pointer} : a.all = .ok l ↔ a = ofList l := by
  obtain ⟨as, _ | e⟩ := a <;> simp [all, ofList]

end Nodes

theorem Search.all_eq_ok_iff {a : Search} {l : List Pointer} :
    a.all = .ok l ↔ a.nodes = .ofList l := Nodes.all_eq_ok_iff

namespace Pointer

theorem mem_of_mem_uniqueFrom {s : Store} {seen : TextSet} {ps : List Pointer} {q : Pointer}
    (h : q ∈ uniqueFrom s seen ps) : q ∈ ps := by
  induction ps generalizing seen with
  | nil => simp [uniqueFrom] at h
  | cons p ps ih =>
    simp only [uniqueFrom] at h
    split at h
    · exact List.mem_cons_of_mem _ (ih h)
    · rcases List.mem_cons.1 h with rfl | h
      · exact List.mem_cons_self ..
      · exact List.mem_cons_of_mem _ (ih h)

theorem ancestors_eq_nil {p : Pointer} (h : p.parent? = none) : p.ancestors = [] := by
  obtain ⟨visit, _ | _, locale⟩ := p
  · rfl
  · simp [parent?] at h

theorem ancestors_eq_cons {p q : Pointer} (h : p.parent? = some q) :
    p.ancestors = q :: q.ancestors := by
  obtain ⟨visit, _ | ⟨v, above⟩, locale⟩ := p
  · simp [parent?] at h
  · obtain rfl := Option.some.inj h
    have hgo (vs : List Visit) : ancestors.go ⟨visit, v :: above, locale⟩ vs =
        ancestors.go ⟨v, above, locale⟩ vs := by
      induction vs with
      | nil => rfl
      | cons w vs ih => rw [ancestors.go, ancestors.go, ih]
    exact congrArg _ (hgo above)

/-! ## Walking down -/

section Subtree

variable {s : Store} {r : Registry} {p : Pointer}

theorem subtreeUpTo_of_error {n : Nat} {inside : List Value} {rest : Unit → Search} {e : PathError}
    (hp : p.value s r = .error e) :
    p.subtreeUpTo s r n inside rest = .broken e := by
  unfold subtreeUpTo
  rw [hp]

theorem subtreeUpTo_of_stops {n : Nat} {inside : List Value} {rest : Unit → Search} {v : Value}
    (hp : p.value s r = .ok v)
    (hstops : (v.isNull || v.isScalar || inside.any (·.same v)) = true) :
    p.subtreeUpTo s r n inside rest = .found p rest := by
  unfold subtreeUpTo
  simp only [hp, hstops, if_true]

theorem subtreeUpTo_of_goes_on {n : Nat} {inside : List Value} {rest : Unit → Search} {v : Value}
    (hp : p.value s r = .ok v)
    (hgoes : (v.isNull || v.isScalar || inside.any (·.same v)) = false) :
    p.subtreeUpTo s r (n + 1) inside rest = .ofExcept (do
      let children ← p.children s r
      pure (.found p fun _ => .each (subtreeUpTo s r n (v :: inside)) children rest)) := by
  unfold subtreeUpTo
  simp only [hp, hgoes]
  cases p.children s r <;> rfl

end Subtree

/-! ## Properties that children keep -/

section Down

variable {s : Store} {r : Registry} {P : Pointer → Prop} {p q : Pointer}
variable (hchild : ∀ {p q : Pointer} {qs : List Pointer}, P p → p.children s r = .ok qs → q ∈ qs →
  P q)

include hchild

theorem kept_subtreeUpTo (n : Nat) (inside : List Value) (hp : P p)
    (hq : q ∈ (p.subtreeUpTo s r n inside fun _ => .ended).nodes.items) : P q := by
  induction n generalizing inside p q with
  | zero =>
    unfold Pointer.subtreeUpTo at hq
    repeat' split at hq
    all_goals simp_all [Nodes.fail]
  | succ n ih =>
    unfold Pointer.subtreeUpTo at hq
    split at hq
    · simp [Nodes.fail] at hq
    · split at hq
      · simp_all
      · split at hq
        · simp [Nodes.fail] at hq
        · simp at *
        · next children _ hcs hn =>
          cases hn
          rw [Search.nodes_found, Search.nodes_each (nodes_subtreeUpTo s r n _)] at hq
          rcases List.mem_append.1 hq with hq | hq
          · exact List.mem_singleton.1 hq ▸ hp
          · rw [Search.nodes_ended, Nodes.append_nil] at hq
            obtain ⟨c, hc, hq⟩ := Nodes.mem_flatMap hq
            exact ih _ (hchild hp hcs hc) hq

theorem kept_descendants {a : Search} (hp : P p) (ha : p.descendants s r = .ok a)
    (hq : q ∈ a.nodes.items) : P q := by
  obtain ⟨children, hcs, ha⟩ := Except.bind_eq_ok_iff.1 ha
  obtain ⟨v, -, ha⟩ := Except.bind_eq_ok_iff.1 ha
  obtain rfl := Except.ok.inj ha
  rw [Search.nodes_each (nodes_subtreeUpTo s r _ _), Search.nodes_ended, Nodes.append_nil] at hq
  obtain ⟨c, hc, hq⟩ := Nodes.mem_flatMap hq
  exact kept_subtreeUpTo hchild _ _ (hchild hp hcs hc) hq

theorem kept_descendantsOrSelf {a : Search} (hp : P p)
    (ha : p.descendantsOrSelf s r = .ok a) (hq : q ∈ a.nodes.items) : P q := by
  obtain ⟨below, hbelow, ha⟩ := Except.bind_eq_ok_iff.1 ha
  obtain rfl := Except.ok.inj ha
  rw [Search.nodes_found] at hq
  rcases List.mem_append.1 hq with hq | hq
  · exact List.mem_singleton.1 hq ▸ hp
  · exact kept_descendants hchild hp hbelow hq

end Down

/-! ## Properties that moves keep -/

/-- A property of pointers that every move but that to an attribute keeps. -/
structure Kept (s : Store) (r : Registry) (P : Pointer → Prop) : Prop where
  child {p q : Pointer} {qs : List Pointer} (hp : P p) (h : p.children s r = .ok qs)
    (hq : q ∈ qs) : P q
  binding {p q : Pointer} {qs : List Pointer} (hp : P p) (h : p.namespaces s r = .ok qs)
    (hq : q ∈ qs) : P q
  parent {p q : Pointer} (hp : P p) (h : p.parent? = some q) : P q
  element {p q : Pointer} (hp : P p) (h : q ∈ p.elements s) : P q

namespace Kept

variable {s : Store} {r : Registry} {P : Pointer → Prop} {p q : Pointer} {qs : List Pointer}

theorem ancestors (h : Kept s r P) (hp : P p) (hq : q ∈ p.ancestors) : P q := by
  induction hn : p.above.length generalizing p with
  | zero =>
    have : p.parent? = none := by simp [parent?, List.length_eq_zero_iff.1 hn]
    simp [ancestors_eq_nil this] at hq
  | succ n ih =>
    obtain ⟨v, above, habove⟩ := List.exists_cons_of_length_eq_add_one hn
    have hparent : p.parent? = some { p with visit := v, above } := by simp [parent?, habove]
    rw [ancestors_eq_cons hparent] at hq
    have hup := h.parent hp hparent
    rcases List.mem_cons.1 hq with rfl | hq
    · exact hup
    · refine ih hup hq ?_
      simpa [habove] using hn

theorem level (h : Kept s r P) (hp : P p) (hq : q ∈ p :: p.ancestors) : P q := by
  rcases List.mem_cons.1 hq with rfl | hq
  · exact hp
  · exact h.ancestors hp hq

theorem siblings (h : Kept s r P) {sides : List Pointer × List Pointer} (hp : P p)
    (hs : p.siblings s r = .ok sides) (hq : q ∈ sides.1 ∨ q ∈ sides.2) : P q := by
  rw [Pointer.siblings] at hs
  split at hs
  · cases hs
    simp at hq
  · next parent hparent =>
    split at hs
    · cases hs
      simp at hq
    · obtain ⟨cs, hcs, hs⟩ := Except.bind_eq_ok_iff.1 hs
      refine h.child (h.parent hp hparent) hcs ?_
      rw [List.span_eq_takeWhile_dropWhile] at hs
      obtain rfl := Except.ok.inj hs
      rcases hq with hq | hq
      · exact (List.takeWhile_sublist _).mem hq
      · exact (List.dropWhile_sublist _).mem (List.mem_of_mem_drop hq)

theorem precedingSiblings (h : Kept s r P) (hp : P p) (hqs : p.precedingSiblings s r = .ok qs)
    (hq : q ∈ qs) : P q := by
  obtain ⟨sides, hs, rfl⟩ := Except.map_eq_ok_iff.1 hqs
  exact h.siblings hp hs (.inl hq)

theorem followingSiblings (h : Kept s r P) (hp : P p) (hqs : p.followingSiblings s r = .ok qs)
    (hq : q ∈ qs) : P q := by
  obtain ⟨sides, hs, rfl⟩ := Except.map_eq_ok_iff.1 hqs
  exact h.siblings hp hs (.inr hq)

theorem following (h : Kept s r P) (hp : P p) (hqs : p.following s r = .ok qs)
    (hq : q ∈ qs) : P q := by
  obtain ⟨levels, hlevels, hqs⟩ := Except.bind_eq_ok_iff.1 hqs
  obtain rfl := Except.ok.inj hqs
  obtain ⟨level, hlevel, found, hfound, hq⟩ := (Except.mem_flatten_of_mapM hlevels).1 hq
  obtain ⟨after, hafter, hfound⟩ := Except.bind_eq_ok_iff.1 hfound
  obtain ⟨trees, htrees, hfound⟩ := Except.bind_eq_ok_iff.1 hfound
  obtain rfl := Except.ok.inj hfound
  obtain ⟨top, htop, tree, htree, hq⟩ := (Except.mem_flatten_of_mapM htrees).1 hq
  obtain ⟨below, hbelow, htree⟩ := Except.bind_eq_ok_iff.1 htree
  obtain ⟨all, hall, htree⟩ := Except.bind_eq_ok_iff.1 htree
  obtain rfl := Except.ok.inj htree
  have hkept := h.followingSiblings (h.level hp hlevel) hafter htop
  rcases List.mem_cons.1 hq with rfl | hq
  · exact hkept
  · refine kept_descendants h.child hkept hbelow ?_
    rwa [Search.all_eq_ok_iff.1 hall]

theorem preceding (h : Kept s r P) (hp : P p) (hqs : p.preceding s r = .ok qs)
    (hq : q ∈ qs) : P q := by
  obtain ⟨levels, hlevels, hqs⟩ := Except.bind_eq_ok_iff.1 hqs
  obtain rfl := Except.ok.inj hqs
  obtain ⟨level, hlevel, found, hfound, hq⟩ := (Except.mem_flatten_of_mapM hlevels).1 hq
  obtain ⟨before, hbefore, hfound⟩ := Except.bind_eq_ok_iff.1 hfound
  obtain ⟨trees, htrees, hfound⟩ := Except.bind_eq_ok_iff.1 hfound
  obtain rfl := Except.ok.inj hfound
  obtain ⟨top, htop, tree, htree, hq⟩ := (Except.mem_flatten_of_mapM htrees).1 hq
  obtain ⟨below, hbelow, htree⟩ := Except.bind_eq_ok_iff.1 htree
  obtain ⟨all, hall, htree⟩ := Except.bind_eq_ok_iff.1 htree
  obtain rfl := Except.ok.inj htree
  refine kept_descendantsOrSelf h.child ?_ hbelow ?_
  · exact h.precedingSiblings (h.level hp hlevel) hbefore (List.mem_reverse.1 htop)
  · rw [Search.all_eq_ok_iff.1 hall]
    exact List.mem_reverse.1 hq

/-- **Every axis but that of attributes keeps what moves keep.** -/
theorem along (h : Kept s r P) {axis : Axis} {a : Search} (haxis : axis ≠ .attribute) (hp : P p)
    (ha : p.along s r axis = .ok a) (hq : q ∈ a.nodes.items) : P q := by
  have hlist {f : Except PathError (List Pointer)} (hf : f.map Search.ofList = .ok a)
      (hkeep : ∀ qs, f = .ok qs → q ∈ qs → P q) : P q := by
    obtain ⟨qs, hqs, rfl⟩ := Except.map_eq_ok_iff.1 hf
    rw [Search.nodes_ofList] at hq
    exact hkeep qs hqs hq
  have hpure {qs : List Pointer}
      (hqs : (Except.ok (Search.ofList qs) : Except PathError Search) = .ok a)
      (hkeep : q ∈ qs → P q) : P q := by
    obtain rfl := Except.ok.inj hqs
    rw [Search.nodes_ofList] at hq
    exact hkeep hq
  cases axis with
  | self => exact hpure ha (h.element hp)
  | child => exact hlist ha fun _ => h.child hp
  | «attribute» => exact absurd rfl haxis
  | «namespace» => exact hlist ha fun _ => h.binding hp
  | parent => exact hpure ha fun hq => h.parent hp (by simpa using hq)
  | ancestor => exact hpure ha (h.ancestors hp)
  | ancestorOrSelf => exact hpure ha (h.level hp)
  | descendant => exact kept_descendants h.child hp ha hq
  | descendantOrSelf => exact kept_descendantsOrSelf h.child hp ha hq
  | followingSibling => exact hlist ha fun _ => h.followingSiblings hp
  | precedingSibling =>
    obtain ⟨qs, hqs, rfl⟩ := Except.map_eq_ok_iff.1 ha
    rw [Search.nodes_ofList] at hq
    exact h.precedingSiblings hp hqs (List.mem_reverse.1 hq)
  | following => exact hlist ha fun _ => h.following hp
  | preceding => exact hlist ha fun _ => h.preceding hp

end Kept

end Pointer

/-! ## Walks -/

namespace Environment

variable {r : Registry} {env : Environment} {s : Store} {q : Pointer}

theorem mem_of_mem_filterMapM {f : Pointer × Nat → Except PathError (Option Pointer)}
    {nodes kept : List Pointer} {k : Nat}
    (hf : ∀ p i x, f (p, i) = .ok (some x) → x = p)
    (h : (nodes.zipIdx k).filterMapM f = .ok kept) (hq : q ∈ kept) : q ∈ nodes := by
  induction nodes generalizing k kept with
  | nil =>
    obtain rfl := Except.ok.inj h
    simp at hq
  | cons p nodes ih =>
    rw [List.zipIdx_cons, List.filterMapM_cons] at h
    obtain ⟨one, hone, h⟩ := Except.bind_eq_ok_iff.1 h
    cases one with
    | none => exact List.mem_cons_of_mem _ (ih h hq)
    | some x =>
      obtain ⟨rest, hrest, rfl⟩ := Except.map_eq_ok_iff.1 h
      obtain rfl := hf _ _ _ hone
      rcases List.mem_cons.1 hq with rfl | hq
      · exact List.mem_cons_self ..
      · exact List.mem_cons_of_mem _ (ih hrest hq)

/-- Predicates only drop nodes. -/
theorem mem_of_mem_narrow {predicates : List Expr} {o : Occasion} {nodes kept : List Pointer}
    (h : env.narrow r predicates o nodes s = .ok kept) (hq : q ∈ kept) : q ∈ nodes := by
  induction predicates generalizing o nodes with
  | nil =>
    rw [narrow] at h
    exact Except.ok.inj h ▸ hq
  | cons predicate predicates ih =>
    rw [narrow] at h
    obtain ⟨left, hleft, h⟩ := Except.bind_eq_ok_iff.1 h
    refine mem_of_mem_filterMapM (fun p i x hx => ?_) hleft (ih h)
    obtain ⟨b, -, hx⟩ := Except.bind_eq_ok_iff.1 hx
    cases b <;> simp_all

variable {P : Pointer → Prop}

theorem mem_ofExcept {x : Except PathError Search} (hq : q ∈ (Search.ofExcept x).nodes.items) :
    ∃ a, x = .ok a ∧ q ∈ a.nodes.items := by
  cases x with
  | error e => simp [Search.ofExcept, Nodes.fail] at hq
  | ok a => exact ⟨a, rfl, hq⟩

/-- An axis keeps a property of pointers. -/
def KeepsAlong (s : Store) (r : Registry) (P : Pointer → Prop) (axis : Axis) : Prop :=
  ∀ {p q : Pointer} {a : Search}, P p → p.along s r axis = .ok a → q ∈ a.nodes.items → P q

theorem kept_candidates {axis : Axis} (h : KeepsAlong s r P axis) {test : NodeTest} {p : Pointer}
    (hp : P p) (hq : q ∈ (candidates r s axis test p).nodes.items) : P q := by
  obtain ⟨a, ha, hq⟩ := mem_ofExcept hq
  obtain ⟨b, hb, rfl⟩ := Except.map_eq_ok_iff.1 ha
  rw [Search.nodes_filter] at hq
  exact h hp hb (List.mem_filter.1 hq).1

/-- What a step finds from one pointer. -/
def find (r : Registry) (env : Environment) (s : Store) (o : Occasion) (axis : Axis)
    (test : NodeTest) (predicates : List Expr) (p : Pointer) : Search :=
  let found := candidates r (s.on (o.part 0)) axis test p
  if predicates.isEmpty then found
  else .ofExcept do
    pure (.ofList (← env.narrow r predicates ((o.part 0).part 0) (← found.all) s))

theorem walk_cons (axis : Axis) (test : NodeTest) (predicates : List Expr) (steps : List Step)
    (o : Occasion) (a : Search) :
    env.walk r (.mk axis test predicates :: steps) o s a =
      env.walk r steps (o.part 1) s (advance s axis (env.find r s o axis test predicates) a) := by
  rw [walk]
  rfl

section Find

variable {o : Occasion} {axis : Axis} {test : NodeTest} {predicates : List Expr} {p : Pointer}

/-- A step keeps those candidates that its predicates keep. -/
theorem nodes_find {cs kept : List Pointer}
    (hcs : p.along (s.on (o.part 0)) r axis = .ok (.ofList cs))
    (hkept : env.narrow r predicates ((o.part 0).part 0)
      (cs.filter fun q => q.passes (s.on (o.part 0)) test) s = .ok kept) :
    (env.find r s o axis test predicates p).nodes = .ofList kept := by
  have hfound : (candidates r (s.on (o.part 0)) axis test p).nodes =
      .ofList (cs.filter fun q => q.passes (s.on (o.part 0)) test) := by
    rw [candidates, hcs]
    show (Search.filter _ (.ofList cs)).nodes = _
    rw [Search.nodes_filter, Search.nodes_ofList]
    rfl
  rw [find]
  split
  · next h =>
    rw [List.isEmpty_iff.1 h, narrow] at hkept
    rw [hfound, Except.ok.inj hkept]
  · rw [Search.all_eq_ok_iff.2 hfound]
    simp only [Except.ok_bind, hkept, Except.pure_eq_ok, Search.ofExcept, Search.nodes_ofList]

theorem find_of_error {e : PathError} (h : p.along (s.on (o.part 0)) r axis = .error e) :
    env.find r s o axis test predicates p = .broken e := by
  have hbroken : candidates r (s.on (o.part 0)) axis test p = .broken e := by
    rw [candidates, h]
    rfl
  rw [find, hbroken]
  split <;> rfl

/-- What a step finds is a candidate. -/
theorem mem_find (hq : q ∈ (env.find r s o axis test predicates p).nodes.items) :
    q ∈ (candidates r (s.on (o.part 0)) axis test p).nodes.items := by
  rw [find] at hq
  split at hq
  · exact hq
  · obtain ⟨b, hb, hq⟩ := mem_ofExcept hq
    obtain ⟨found, hfound, hb⟩ := Except.bind_eq_ok_iff.1 hb
    obtain ⟨kept, hkept, hb⟩ := Except.bind_eq_ok_iff.1 hb
    obtain rfl := Except.ok.inj hb
    rw [Search.nodes_ofList] at hq
    rw [Search.all_eq_ok_iff.1 hfound]
    exact mem_of_mem_narrow hkept hq

end Find

/-- What a step finds from the nodes before it is found from one of them. -/
theorem mem_advance {axis : Axis} {f : Pointer → Search} {a : Search}
    (hq : q ∈ (advance s axis f a).nodes.items) : ∃ p ∈ a.nodes.items, q ∈ (f p).nodes.items := by
  have hgather {b : Search} (hq : q ∈ (b.gather f).nodes.items) :
      ∃ p ∈ b.nodes.items, q ∈ (f p).nodes.items := by
    rw [Search.nodes_gather] at hq
    exact Nodes.mem_flatMap hq
  unfold advance at hq
  split at hq
  · split at hq
    · simp at hq
    · simp [Nodes.fail] at hq
    · next p more =>
      split at hq
      · exact ⟨p, by simp, hq⟩
      · simp [Nodes.fail] at hq
      · next p' rest hmore =>
        rw [Search.nodes_distinct] at hq
        obtain ⟨p'', hp'', hq⟩ := hgather (Pointer.mem_of_mem_uniqueFrom hq)
        exact ⟨p'', by simpa [hmore] using hp'', hq⟩
  · exact hgather hq

/-- **A walk keeps what the axes of its steps keep.** -/
theorem kept_walk {steps : List Step} (h : ∀ o, ∀ step ∈ steps, KeepsAlong (s.on o) r P step.axis)
    {o : Occasion} {a : Search} (ha : ∀ p ∈ a.nodes.items, P p)
    (hq : q ∈ (env.walk r steps o s a).nodes.items) : P q := by
  induction steps generalizing o a with
  | nil =>
    rw [walk] at hq
    exact ha q hq
  | cons step steps ih =>
    obtain ⟨axis, test, predicates⟩ := step
    rw [walk_cons] at hq
    refine ih (fun o step hs => h o step (List.mem_cons_of_mem _ hs)) (fun p hp => ?_) hq
    obtain ⟨p₀, hp₀, hp⟩ := mem_advance hp
    have haxis : KeepsAlong (s.on (o.part 0)) r P axis := h _ _ (List.mem_cons_self ..)
    exact kept_candidates haxis (ha _ hp₀) (mem_find hp)

end Environment

end PathQuery
