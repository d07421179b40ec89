import PathQuery.Pointer.Root
import PathQuery.Proofs.Namesakes

/-!
# Steady paths

What an expression comes to at some time, it comes to at any other time, at any namesake of the
node, as long as nothing is written: time, settled roots and the way to the node play no part. So do
simple paths, resolved slot by slot.

* names: `Function.Steady`, `Environment.Steady`, `Environment.SameLookups`; `Store.SettlesOn`,
  `Pointer.StartsFrom`.
* Functions of the caller are steady if they write nothing and answer alike at namesakes.
* **`resolve_alike`**: a simple path leads from namesakes to namesakes. **`startsFrom_resolve`**: and
  to pointers that settle the value at the root of the graph.
-/

namespace PathQuery

open Pointer (Namesake)

/-! ## Steady functions -/

/-- The function leaves every store that holds the same as `s` as it is, and answers alike at
namesakes, whenever it is called. If not `b`, it answers alike in another language too. -/
def Function.Steady (b : Prop) (s : Store) (g : Function) : Prop :=
  ∀ t u, s.SameContents t → s.SameContents u →
    ∀ focus focus', focus.Alike (Namesake b s) (fun _ _ => True) focus' →
      ∀ args args', List.Forall₂ (Answer.Alike (Namesake b s) (· = ·)) args args' →
        Action.Alike t u (Answer.Alike (Namesake b s) (· = ·)) (g focus args) (g focus' args')

/-- All functions of the caller among the calls are steady, and where not `b` no call asks for the
language. -/
def Environment.Steady (b : Prop) (s : Store) (env : Environment) (cs : List (QName × Nat)) :
    Prop :=
  ∀ c ∈ cs, match c.1.core? with
    | some f => f = .lang → b
    | none => ∀ g, env.function? c.1 c.2 = some g → g.Steady b s

variable {b : Prop} {s t u : Store} {p q : Pointer} {env env' : Environment}
variable {cs : List (QName × Nat)}

theorem Function.Steady.congr {g : Function} (hg : g.Steady b s) (c : s.SameContents t) :
    g.Steady b t := by
  intro u u' hu hu'
  rw [c.namesake_eq b]
  exact hg u u' (c.trans hu) (c.trans hu')

namespace Environment

theorem Steady.congr (h : env.Steady b s cs) (c : s.SameContents t) : env.Steady b t cs := by
  intro x hx
  have hs := h x hx
  cases hcore : x.1.core? with
  | some f => simpa only [hcore] using hs
  | none =>
    simp only [hcore] at hs ⊢
    exact fun g hg => (hs g hg).congr c

theorem Steady.mono {cs' : List (QName × Nat)} (h : env.Steady b s cs) (hcs : cs' ⊆ cs) :
    env.Steady b s cs' := fun x hx => h x (hcs hx)

/-- The environments look up the same variables and functions, and start absolute paths at
namesakes. -/
structure SameLookups (b : Prop) (s t : Store) (env env' : Environment) : Prop where
  root : env.root.Namesake b s env'.root
  locale : env'.locale = env.locale
  scope? (name : String) : env'.scope? t name = env.scope? s name
  function? (f : QName) (n : Nat) : env'.function? f n = env.function? f n

/-- An environment looks up the same at another time. -/
theorem sameLookups_self (c : s.SameContents t) (h : env.root.Namesake b s env.root) :
    SameLookups b s t env env where
  root := h
  locale := rfl
  scope? name := by simp only [Environment.scope?, c.scope]
  function? _ _ := rfl

namespace SameLookups

variable (h : SameLookups b s t env env')

include h

/-- A name stands for one variable, whatever the time. -/
theorem variablePointer_alike (x : QName) (o o' : Occasion) :
    Except.Alike (Namesake b s) (env.variablePointer (s.on o) x)
      (env'.variablePointer (t.on o') x) := by
  have hs : env.scope? (s.on o) x.text = env.scope? s x.text := rfl
  have ht : env'.scope? (t.on o') x.text = env'.scope? t x.text := rfl
  rw [variablePointer, variablePointer, variablePointer?, variablePointer?, hs, ht, h.scope?,
    h.locale]
  cases env.scope? s x.text with
  | none => exact rfl
  | some scope => exact ⟨rfl, fun _ => rfl, .var scope x .whole, trivial, .root (.inl rfl)⟩

/-- **Environments that look up the same agree**, on any variables and on steady calls. -/
theorem alike (c : s.SameContents t) (hcs : env.Steady b s cs) (xs : List QName) :
    Alike (Namesake b s) (· = ·) (fun _ _ => True) .standard s t xs cs env env' where
  root := h.root
  locale := h.locale
  «variable» x _ o o' _ := h.variablePointer_alike x o o'
  call x hx args args' hlength hargs focus focus' hfocus := by
    have hs := hcs x hx
    cases hcore : x.1.core? with
    | some f =>
      simp only [hcore] at hs
      exact call_alike (c.counterparts b) hcore (fun hf => hfocus.node.locale (hs hf)) hfocus hargs
    | none =>
      simp only [hcore] at hs
      rw [QName.core?] at hcore
      rw [call, call, hcore, h.function?, ← hargs.length_eq, hlength]
      cases hg : env.function? x.1 x.2 with
      | none => exact ⟨_, _, rfl, rfl, rfl⟩
      | some g => exact hs g hg s t (.refl s) c focus focus' hfocus args args' hargs

end SameLookups

end Environment

/-! ## Slots -/

namespace Pointer.Namesake

open Environment

variable (h : p.Namesake b s q) (c : s.SameContents t) (name : QName) (isAttribute : Bool)

include h c

theorem slot? : Except.Alike (Option.Rel (Namesake b s)) (p.slot? s .standard name isAttribute)
    (q.slot? t .standard name isAttribute) := by
  rw [slot?_eq h.isPlain, slot?_eq h.isPlain_right]
  refine h.value_bind c fun v hv => ?_
  cases hk : v.holder? with
  | none => exact .none
  | some k =>
    simp only [c.slots]
    rw [Holder.value_of_holder? hk] at hv
    split
    · exact .some (h.child (n := .slot k name .whole isAttribute) hv s.now t.now)
    · exact .none

theorem firstPassing : Except.Alike (Option.Rel (Namesake b s))
    (firstPassing .standard p name isAttribute s)
    (firstPassing .standard q name isAttribute t) := by
  have hfind {ps qs : List Pointer} (hps : List.Forall₂ (Namesake b s) ps qs) :
      Option.Rel (Namesake b s) (ps.find? fun x => x.passes s (.name name))
        (qs.find? fun x => x.passes t (.name name)) :=
    forall₂_find? hps fun _ _ hx => hx.passes c _
  cases isAttribute with
  | true => exact (h.attributes c).bind fun _ _ hps => hfind hps
  | false => exact (h.children c).bind fun _ _ hps => hfind hps

omit c in
theorem missing (index : Index) : (missing p name isAttribute index s).Namesake b s
    (missing q name isAttribute index t) :=
  h.child (n := .missing name index isAttribute) trivial s.now t.now

theorem slotOrMissing : Except.Alike (Namesake b s) (slotOrMissing .standard p name isAttribute s)
    (slotOrMissing .standard q name isAttribute t) := by
  refine (h.slot? c name isAttribute).bind fun x y hxy => ?_
  cases hxy with
  | some hslot => exact hslot
  | none =>
    refine (h.firstPassing c name isAttribute).bind fun x y hxy => ?_
    cases hxy with
    | some hother => exact hother
    | none => exact h.missing name isAttribute .whole

theorem elementOf {slot slot' : Pointer} (hslot : slot.Namesake b s slot') (i : Int) :
    (elementOf p slot name isAttribute i s).Namesake b s
      (elementOf q slot' name isAttribute i t) := by
  have hmoved : Option.Rel (Namesake b s)
      (if slot.node.index = .whole then slot.atIndex? s (.element i) else none)
      (if slot'.node.index = .whole then slot'.atIndex? t (.element i) else none) := by
    rw [hslot.node]
    split
    · exact hslot.atIndex? _
    · exact .none
  rw [Environment.elementOf, Environment.elementOf]
  revert hmoved
  generalize (if slot.node.index = .whole then slot.atIndex? s (.element i) else none) = x
  generalize (if slot'.node.index = .whole then slot'.atIndex? t (.element i) else none) = y
  rintro (hx | _)
  · exact hx
  · simp only [hslot.node, c.isActual]
    split
    · exact hslot
    · exact h.missing name isAttribute _

end Pointer.Namesake

/-! ## Simple paths -/

/-- An index expression of a simple path calls what the path calls. -/
theorem calls_subset_of_mem {steps : List Step} {slots : List SimpleStep}
    (h : steps.mapM Step.simple? = some slots) {step : SimpleStep} (hstep : step ∈ slots) {e : Expr}
    (he : step.index = some e) : e.calls ⊆ Step.allCalls steps := by
  induction steps generalizing slots with
  | nil =>
    obtain rfl := Option.some.inj h
    cases hstep
  | cons first steps ih =>
    simp only [List.mapM_cons, Option.bind_eq_bind, Option.bind_eq_some_iff, Option.pure_def,
      Option.some.injEq] at h
    obtain ⟨slot, hslot, rest, hrest, rfl⟩ := h
    obtain ⟨axis, test, predicates⟩ := first
    rw [Step.allCalls]
    rcases List.mem_cons.1 hstep with rfl | hstep
    · cases test <;> simp only [Step.simple?, Option.ite_none_right_eq_some, Option.some.injEq,
        reduceCtorEq] at hslot
      obtain ⟨-, rfl⟩ := hslot
      obtain ⟨predicates, rfl⟩ := List.head?_eq_some_iff.1 he
      rw [Expr.allCalls]
      exact List.Subset.trans (List.subset_append_left ..) (List.subset_append_left ..)
    · exact List.Subset.trans (ih hrest hstep) (List.subset_append_right ..)

namespace Environment

variable (c : s.SameContents t)

include c

theorem resolveStep_alike {step : SimpleStep}
    (henv : ∀ e, step.index = some e → Alike (Namesake b s) (· = ·) (fun _ _ => True) .standard s t
      e.variables e.calls env env') (h : p.Namesake b s q) (o o' : Occasion) :
    Action.Alike s t (Namesake b s) (env.resolveStep .standard o p step)
      (env'.resolveStep .standard o' q step) := by
  -- What is found on one occasion is found on another.
  have hs := (Store.SameGraph.on s o).sameContents.namesake_eq b
  have c' := c.on o o'
  have h' : p.Namesake b (s.on o) q := by rwa [hs]
  have hslot := h'.slotOrMissing c' step.name step.isAttribute
  rw [hs] at hslot
  rw [resolveStep, resolveStep]
  refine (Action.alike_read (f := fun s => slotOrMissing .standard p step.name step.isAttribute
    (s.on o)) (g := fun s => slotOrMissing .standard q step.name step.isAttribute (s.on o'))
    hslot).bind fun slot slot' hslot => ?_
  cases hindex : step.index with
  | none => exact Action.alike_pure hslot
  | some e =>
    have hfocus : Focus.Alike (Namesake b s) (fun _ _ => True)
        { node := p, occasion := o.part 0 } { node := q, occasion := o'.part 0 } :=
      ⟨h, rfl, rfl, trivial⟩
    refine (compute_alike (c.counterparts b) e (henv e hindex) hfocus).bind fun x y hx =>
      Action.alike_liftM_bind hx.all fun a a' ha => Action.alike_get_bind ?_
    have hslot' : slot.Namesake b (s.on o) slot' := by rwa [hs]
    have hmirrors : Store.Mirrors (Namesake b s) (· = ·) (· = ·) .standard (s.on o) (t.on o') :=
      (c.counterparts b).on trivial
    have htruth := hmirrors.toBool_alike ha
    have hother : Action.Alike s t (Namesake b s)
        (if a.toBool (s.on o) then pure slot
          else pure (missing p step.name step.isAttribute (.element 0) (s.on o)) : Action Pointer)
        (if a'.toBool (t.on o') then pure slot'
          else pure (missing q step.name step.isAttribute (.element 0) (t.on o'))) := by
      rw [htruth]
      split
      · exact Action.alike_pure hslot
      · refine Action.alike_pure ?_
        rw [← hs]
        exact h'.missing step.name step.isAttribute _
    cases ha with
    | number x =>
      refine Action.alike_pure ?_
      rw [← hs]
      exact h'.elementOf c' step.name step.isAttribute hslot' _
    | _ => exact hother

/-- **A simple path leads from namesakes to namesakes**, at any two times. -/
theorem resolve_alike (henv : SameLookups b s t env env') {slots : List SimpleStep}
    (hcs : ∀ step ∈ slots, ∀ e, step.index = some e → env.Steady b s e.calls)
    (h : p.Namesake b s q) (o o' : Occasion) :
    Action.Alike s t (Namesake b s) (env.resolve .standard o p slots)
      (env'.resolve .standard o' q slots) := by
  induction slots generalizing p q o o' with
  | nil => exact Action.alike_pure h
  | cons step slots ih =>
    exact (resolveStep_alike c (fun e he => henv.alike c (hcs step (.head _) e he) _) h _ _).bind
      fun _ _ hnext => ih (fun step hs => hcs step (.tail _ hs)) hnext _ _

end Environment

/-! ## The value at the root -/

/-- Pointers that start from the value itself have settled nothing else about their roots. -/
def Store.SettlesOn (s : Store) (v : Value) : Prop :=
  ∀ e ∈ s.roots, (v.node none).IsVariant e.1.root → e.2 = v

/-- The pointer leads down from the value itself, and has settled nothing else about its root. -/
structure Pointer.StartsFrom (s : Store) (v : Value) (p : Pointer) : Prop where
  linked : Linked s (v.node none) p.nodes
  settled : ∀ x ∈ p.visit.settled, x = v

section Settled

variable {v : Value}

/-- The node of a value that is no cell holds the value, whatever else the store holds. -/
theorem Value.base_node (hv : ∀ c, v ≠ .cell c) : (v.node none).base s = v := by
  cases v <;> first | rfl | exact absurd rfl (hv _)

theorem Value.isPlain_node (hv : ∀ f, v ≠ .foreign f) : (v.node none).IsPlain := by
  cases v <;> first | trivial | rfl | exact absurd rfl (hv _)

/-- Settling a root keeps to the value that is there. -/
theorem Store.SettlesOn.settle (h : s.SettlesOn v) (hv : ∀ c, v ≠ .cell c) (p : Pointer) :
    (s.settle p).SettlesOn v := by
  rw [Store.settle]
  split
  · exact h
  · intro e he hvariant
    rcases List.mem_cons.1 he with rfl | he
    · exact (Node.base_of_isVariant hvariant).trans (Value.base_node hv)
    · exact h e he hvariant

namespace Pointer.StartsFrom

variable (h : p.StartsFrom s v)

include h

theorem namesake (hv : ∀ f, v ≠ .foreign f) : p.Namesake b s p :=
  ⟨rfl, fun _ => rfl, v.node none, Value.isPlain_node hv, h.linked⟩

theorem congr (ht : s.SameGraph t) : p.StartsFrom t v := ⟨h.linked.congr ht, h.settled⟩

theorem isVariant : (v.node none).IsVariant p.root := by
  rw [root_eq_getLast]
  exact h.linked.getLast _

theorem settledRoot? (hs : s.SettlesOn v) : ∀ x ∈ p.settledRoot? s, x = v := by
  intro x hx
  rw [Pointer.settledRoot?, Option.mem_def, Option.orElse_eq_some] at hx
  rcases hx with hx | ⟨-, hx⟩
  · exact h.settled x hx
  · obtain ⟨l, l', hroots, -⟩ := List.lookup_eq_some_iff.1 hx
    exact hs (p, x) (by rw [hroots]; simp) h.isVariant

/-- **The root value of the pointer is the value it leads down from.** -/
theorem rootValue (hs : s.SettlesOn v) (hv : ∀ c, v ≠ .cell c) : p.rootValue s = v := by
  rw [Pointer.rootValue]
  cases hx : p.settledRoot? s with
  | some x => exact h.settledRoot? hs x hx
  | none => exact (Node.base_of_isVariant h.isVariant).trans (Value.base_node hv)

end Pointer.StartsFrom

/-- Nothing else is settled where nothing is. -/
theorem Pointer.settled_of_none (h : p.visit.settled = none) : ∀ x ∈ p.visit.settled, x = v := by
  intro x hx
  rw [h] at hx
  cases hx

/-- A child is found for the first time, and has settled nothing. -/
theorem Pointer.IsChild.settled (h : p.IsChild s q) : q.visit.settled = none := by
  induction h with
  | slot => rfl
  | item _ _ _ ih => exact ih

namespace Environment

open Pointer

theorem settled_slotOrMissing {name : QName} {isAttribute : Bool} (hp : p.node.IsPlain)
    (h : slotOrMissing .standard p name isAttribute s = .ok q) : q.visit.settled = none := by
  obtain ⟨slot, hslot, h⟩ := Except.bind_eq_ok_iff.1 h
  cases slot with
  | some slot =>
    obtain rfl := Except.ok.inj h
    rw [slot?_eq hp] at hslot
    obtain ⟨v, -, hslot⟩ := Except.bind_eq_ok_iff.1 hslot
    split at hslot
    · split at hslot
      · obtain rfl := Option.some.inj (Except.ok.inj hslot)
        rfl
      · cases hslot
    · cases hslot
  | none =>
    obtain ⟨other, hother, h⟩ := Except.bind_eq_ok_iff.1 h
    obtain rfl := Except.ok.inj h
    cases other with
    | none => rfl
    | some other =>
      cases isAttribute with
      | true =>
        obtain ⟨qs, hqs, hother⟩ := Except.bind_eq_ok_iff.1 hother
        rw [attributes_eq hp] at hqs
        obtain ⟨v, -, hqs⟩ := Except.bind_eq_ok_iff.1 hqs
        obtain rfl := Except.ok.inj hqs
        obtain ⟨n, -, rfl⟩ := List.mem_map.1 (List.mem_of_find?_eq_some (Except.ok.inj hother))
        rfl
      | false =>
        obtain ⟨qs, hqs, hother⟩ := Except.bind_eq_ok_iff.1 hother
        exact (isChild_of_mem hp hqs (List.mem_of_find?_eq_some (Except.ok.inj hother))).settled

theorem startsFrom_elementOf {slot : Pointer} {name : QName} {isAttribute : Bool}
    (hs : s.SettlesOn v) (h : p.StartsFrom s v) (hslot : slot.StartsFrom s v) (i : Int) :
    (elementOf p slot name isAttribute i s).StartsFrom s v := by
  refine ⟨linked_elementOf h.linked hslot.linked i s, ?_⟩
  rw [elementOf]
  split
  · next x hx =>
    split at hx
    · obtain ⟨m, -, rfl⟩ := Option.map_eq_some_iff.1 hx
      exact hslot.settledRoot? hs
    · cases hx
  · split
    · exact hslot.settled
    · exact settled_of_none rfl

/-- **A simple path keeps to the graph of the value**, if its index expressions are steady. -/
theorem startsFrom_resolve {slots : List SimpleStep} (hv : ∀ f, v ≠ .foreign f)
    (hs : s.SettlesOn v) (henv : SameLookups b s s env env)
    (hcs : ∀ step ∈ slots, ∀ e, step.index = some e → env.Steady b s e.calls)
    (h : p.StartsFrom s v) {o : Occasion}
    (hq : (env.resolve .standard o p slots).result s = (.ok q, t)) : q.StartsFrom s v := by
  have hplain := Value.isPlain_node hv
  induction slots generalizing p o with
  | nil =>
    simp only [resolve, Action.result_pure, Prod.mk.injEq, Except.ok.injEq] at hq
    exact hq.1 ▸ h
  | cons step slots ih =>
    rw [resolve, Action.result_bind_eq_ok_iff] at hq
    obtain ⟨next, u, hnext, hq⟩ := hq
    obtain ⟨slot, hslot, hcases⟩ := resolveStep_cases hnext
    have hkeeps (e : Expr) (he : step.index = some e) (o : Occasion) :
        ((env.compute .standard e { node := p, occasion := o }).result s).2 = s := by
      have hfocus : Focus.Alike (Namesake b s) (fun _ _ => True) { node := p, occasion := o }
          { node := p, occasion := o } := ⟨h.namesake hv, rfl, rfl, trivial⟩
      have c := Store.SameContents.refl s
      obtain ⟨x, y, hx, -⟩ := compute_alike (c.counterparts b) e
        (henv.alike c (hcs step (.head _) e he) _) hfocus
      rw [hx]
    have hon : s.SameGraph (s.on (o.part 0)) := Store.SameGraph.on s _
    have h' := h.congr hon
    have hfound : slot.StartsFrom (s.on (o.part 0)) v := by
      have hnone := settled_slotOrMissing (h.linked.isPlain hplain) hslot
      exact ⟨linked_slotOrMissing hplain h'.linked hslot, settled_of_none hnone⟩
    have hrest := fun step hs => hcs step (.tail _ hs)
    have hgoes : u = s ∧ next.StartsFrom s v := by
      cases hi : step.index with
      | none =>
        simp only [hi] at hcases
        exact ⟨hcases.2, hcases.1 ▸ hfound.congr hon.symm⟩
      | some e =>
        simp only [hi, hkeeps e hi] at hcases
        obtain ⟨rfl, hcases⟩ := hcases
        refine ⟨rfl, ?_⟩
        rcases hcases with rfl | ⟨i, rfl⟩ | ⟨index, rfl⟩
        · exact hfound.congr hon.symm
        · have hs' : Store.SettlesOn (Store.on u (o.part 0)) v := hs
          exact (startsFrom_elementOf hs' h' hfound i).congr hon.symm
        · exact ⟨linked_missing h.linked _ _, settled_of_none rfl⟩
    obtain ⟨rfl, hgoes⟩ := hgoes
    exact ih hrest hgoes hq

end Environment

end Settled

end PathQuery
