import PathQuery.Proofs.Effects
import PathQuery.Proofs.FreshObjects
import PathQuery.Proofs.Walks
import PathQuery.Syntax.Parser

/-!
# What a failed creation leaves

Creating a path goes from the top down, one node at a time. A single node is made or nothing is
changed, so a creation that fails has made the nodes above the one that is refused, and no more.

* names: `Action.Clean`, `Pointer.IsVacant`, `Pointer.BuiltAbove`,
  `CompiledPath.LeftByFailure`.
* `createSlot_clean`, `createChild_clean`: one node is all or nothing, but for what the object
  factory changes by itself. `createAt_of_occupied`: a node that shows something is left alone.
* **`createAt_failed`**, **`creation_failed`**: what a failed creation leaves.
-/

namespace PathQuery

/-! ## All or nothing -/

namespace Action

variable {α β : Type} {env : Environment} {s : Store} {a : Action α} {f : α → Action β}

/-- If the action fails, nothing has changed but what functions and the object factory change. -/
def Clean (env : Environment) (a : Action α) (s : Store) : Prop :=
  ∀ e t, a.result s = (.error e, t) → env.Touches s t

theorem clean_of_ok {x : α} {t : Store} (h : a.result s = (.ok x, t)) : a.Clean env s := by
  intro e t' h'
  rw [h] at h'
  cases h'

theorem clean_of_error {e : PathError} (h : a.result s = (.error e, s)) : a.Clean env s := by
  intro e' t h'
  rw [h] at h'
  cases h'
  exact .refl

theorem clean_throw (e : PathError) : (throw e : Action α).Clean env s := clean_of_error rfl

theorem Clean.bind (ha : a.Clean env s)
    (hf : ∀ x t, a.result s = (.ok x, t) → env.Touches s t ∧ (f x).Clean env t) :
    (a >>= f).Clean env s := by
  intro e u h
  rw [result_bind] at h
  split at h
  · next x t hx =>
    obtain ⟨hst, hclean⟩ := hf x t hx
    exact hst.trans (hclean e u h)
  · next e' t hx =>
    cases h
    exact ha e u hx

theorem clean_get_bind {f : Store → Action β} (h : (f s).Clean env s) : (get >>= f).Clean env s := h

theorem clean_read_bind {g : Store → Except PathError α}
    (h : ∀ x, g s = .ok x → (f x).Clean env s) :
    (read g >>= f).Clean env s := by
  refine Clean.bind (fun e t he => ?_) fun x t hx => ?_
  · rw [result_read, Prod.mk.injEq] at he
    obtain ⟨-, rfl⟩ := he
    exact .refl
  · rw [result_read, Prod.mk.injEq] at hx
    obtain ⟨hx, rfl⟩ := hx
    exact ⟨.refl, h x hx⟩

/-- What cannot fail after the action does no harm. -/
theorem Clean.bind_ok (ha : a.Clean env s) (hf : ∀ x t, ∃ y u, (f x).result t = (.ok y, u)) :
    (a >>= f).Clean env s := by
  intro e u h
  rw [result_bind] at h
  split at h
  · next x t _ =>
    obtain ⟨y, u', hy⟩ := hf x t
    rw [hy] at h
    cases h
  · next e' t hx =>
    cases h
    exact ha e u hx

theorem Makes.clean_bind (ha : a.Makes (env.Touches s) s) (hf : ∀ x t, (f x).Clean env t) :
    (a >>= f).Clean env s := by
  obtain ⟨x, t, hx, hst⟩ := ha
  refine (clean_of_ok hx).bind fun x' t' hx' => ?_
  rw [hx] at hx'
  cases hx'
  exact ⟨hst, hf x t⟩

theorem clean_putSlot (h : Holder) (name : String) (v : Value) :
    (putSlot h name v).Clean env s := by
  cases hput : s.putSlot h name v with
  | ok t => exact clean_of_ok (by rw [result_putSlot, hput])
  | error e => exact clean_of_error (by rw [result_putSlot, hput])

theorem WritesAt.clean {a : Action Unit} {e : Option Entry} {v : Value} (h : a.WritesAt e v s) :
    a.Clean env s := by
  intro err t ht
  rw [WritesAt, ht] at h
  exact env.touches_of_unchanged h

end Action

/-! ## One node -/

namespace Pointer

open PathQuery.Action PathQuery.Environment

variable {env : Environment} {factory : Option ObjectFactory} {r : Registry} {s : Store}
variable {p : Pointer} {h : Holder} {name : QName} {index : Index} {isAttribute : Bool}

/-- An object for an empty slot is made by the factory, or beside what there is. -/
theorem makes_newObject (p : Pointer) (h : Holder) (name : QName) (s : Store) :
    (p.newObject env.factory? h name).Makes (env.Touches s) s :=
  newObject_makes .refl
    (fun _ hf parent name i t hst => hst.trans (factory_keeps_touches hf parent name i t))
    (fun t hst => hst.trans (touches_of_unchanged (t.unchanged_addMap .empty)))
    fun t _ template hst _ _ => hst.trans (touches_of_unchanged (template.unchanged_fresh t))

/-- An item of a list is made without fail. -/
theorem createItem_ok (l i : Nat) (s : Store) :
    ∃ t, (createSlot.createItem env.factory? p h name l i).result s = (.ok (), t) := by
  rw [createSlot.createItem, result_bind_ok (result_change ..), result_bind_ok (result_get _)]
  split
  · obtain ⟨v, t, hv, -⟩ := makes_newObject p h name (s.padList l (i + 1))
    exact ⟨_, by rw [result_bind_ok hv, result_change]⟩
  · exact ⟨_, rfl⟩

theorem fillSlot_clean : (p.fillSlot env.factory? h name).Clean env s := by
  refine clean_get_bind ?_
  split
  · exact (makes_newObject p h name s).clean_bind fun v t => clean_putSlot h name.text v
  · exact clean_of_ok rfl

theorem place_clean {α : Type} (p : Pointer) (kind : String) {f : Option Nat → Action α}
    (hf : ∀ i, (f i).Clean env s) : (p.place kind >>= f).Clean env s := by
  rcases result_place_cases p kind s with ⟨i, hplace⟩ | ⟨e, hplace⟩
  · rw [Clean, result_bind_ok hplace]
    exact hf i
  · exact clean_of_error (result_bind_error hplace)

/-- **A slot is made, or nothing is changed.** -/
theorem createSlot_clean : (p.createSlot env.factory? h name).Clean env s := by
  refine place_clean p "property" fun i => ?_
  cases i with
  | none => exact fillSlot_clean
  | some i =>
    refine clean_get_bind ?_
    dsimp only
    split
    · next l _ =>
      obtain ⟨t, ht⟩ : ∃ t, (createSlot.createItem env.factory? p h name l i).result s =
        (.ok (), t) := createItem_ok l i s
      exact clean_of_ok ht
    · split
      · exact fillSlot_clean
      · split
        · have hmake : (make (·.addList []) : Action Nat).Makes (env.Touches s) s :=
            ⟨_, _, rfl, touches_of_unchanged (s.unchanged_addList [])⟩
          refine hmake.clean_bind fun l t => (clean_putSlot h name.text (.list l)).bind_ok ?_
          exact fun _ u => ⟨(), createItem_ok l i u⟩
        · exact clean_throw _

theorem createListItem_clean (list i : Nat) (name : Option QName) :
    (p.createListItem env.factory? list i name).Clean env s := by
  have hok : ∃ t, (p.createListItem env.factory? list i name).result s = (.ok (), t) := by
    rw [createListItem, result_bind_ok (result_change ..), result_bind_ok (result_get _)]
    split
    · cases env.factory? with
      | none => exact ⟨_, rfl⟩
      | some f =>
        dsimp only
        generalize f (p.parent?.getD p) ((name.map QName.name).getD "") (some i) = m
        have hmade (s : Store) :
            (liftM m : Action (Option Value)).result s = (.ok (m.run s).1, (m.run s).2) := rfl
        rw [result_bind_ok (hmade _)]
        cases (m.run _).1 <;> exact ⟨_, rfl⟩
    · exact ⟨_, rfl⟩
  obtain ⟨t, ht⟩ := hok
  exact clean_of_ok ht

/-- **A child is made, or nothing is changed.** -/
theorem createChild_clean (v : Option Value) :
    (p.createChild r env.factory? name index v).Clean env s := by
  refine clean_read_bind fun target _ => ?_
  split
  · next h _ =>
    have hslot {a : Pointer → Action Unit}
        (ha : (a (p.child s.now (.slot h name index false))).Clean env s) : Action.Clean env (do
          let child := p.child (← get).now (.slot h name index false)
          a child
          pure child) s :=
      clean_get_bind (ha.bind_ok fun _ t => ⟨_, t, rfl⟩)
    have hset (v : Value) := hslot (a := (·.setSlot h name v)) (writesAt_setSlot rfl).clean
    have hcreate := hslot (a := (·.createSlot env.factory? h name)) createSlot_clean
    dsimp only
    split
    · refine clean_get_bind ?_
      split
      · exact clean_throw _
      · cases v with
        | some v => exact hset v
        | none => exact hcreate
    · cases v with
      | some v => exact hset v
      | none => exact hcreate
  · exact clean_of_error rfl

/-- **An attribute is made, or nothing is changed.** -/
theorem createAttribute_clean : (p.createAttribute r name).Clean env s := by
  refine clean_read_bind fun target _ => ?_
  split
  · refine clean_get_bind ?_
    dsimp only
    split
    · split
      · exact clean_of_ok rfl
      · exact clean_of_error rfl
    · exact clean_of_ok rfl
  · exact clean_of_error rfl

/-! ## Nodes above the target -/

/-- Nothing is at the pointer: it does not exist or holds null, in however many cells. -/
def IsVacant (s : Store) (p : Pointer) : Prop := s.unwrap (p.immediate s) = .null

/-- The objects are as they are when a pointer above this one, at which nothing was, has been
created. -/
def BuiltAbove (r : Registry) (env : Environment) (p : Pointer) (s t : Store) : Prop :=
  ∃ q ∈ p.ancestors, q.IsVacant s ∧
    ∃ q' u, (q.createPath r env.factory?).result s = (.ok q', u) ∧ env.Touches u t

theorem BuiltAbove.of_parent {q : Pointer} {t : Store} (hp : p.parent? = some q)
    (h : q.BuiltAbove r env s t) : p.BuiltAbove r env s t := by
  obtain ⟨q', hq', hbuilt⟩ := h
  exact ⟨q', ancestors_eq_cons hp ▸ List.mem_cons_of_mem _ hq', hbuilt⟩

theorem lt_length_of_getD {items : List Value} {i : Nat} (h : items.getD i .null ≠ .null) :
    i < items.length := by
  by_contra hlt
  exact h (by rw [List.getD_eq_getElem?_getD, List.getElem?_eq_none (by omega)]; rfl)

theorem fillSlot_of_occupied (hs : s.unwrap (s.slot h name.text) ≠ .null) :
    (p.fillSlot factory h name).result s = (.ok (), s) := by
  rw [fillSlot, result_bind_ok (result_get s), Value.isNull_eq_false hs]
  rfl

/-- An item that shows something is left alone. -/
theorem createItem_of_occupied {l i : Nat} (hi : (s.lists.get l).getD i .null ≠ .null) :
    (createSlot.createItem factory p h name l i).result s = (.ok (), s) := by
  have hpad : s.padList l (i + 1) = s := Store.padList_of_le (lt_length_of_getD hi)
  rw [createSlot.createItem, result_bind_ok (result_change ..), hpad, result_bind_ok (result_get s),
    Value.isNull_eq_false hi]
  rfl

/-- A slot that shows something is left alone. -/
theorem createSlot_of_occupied (hnode : p.node = .slot h name index isAttribute)
    (hp : ¬ p.IsVacant s) : (p.createSlot factory h name).result s = (.ok (), s) := by
  have himm : p.immediate s = s.select (s.slot h name.text) index := by
    rw [immediate, hnode]
    rfl
  obtain rfl : p.node.index = index := by rw [hnode]; rfl
  rw [IsVacant, himm] at hp
  rw [createSlot]
  cases hindex : p.node.index with
  | whole =>
    rw [hindex] at hp
    rw [result_bind_ok (result_place_whole "property" hindex)]
    exact fillSlot_of_occupied hp
  | element i =>
    rw [hindex] at hp
    cases hk : (Index.element i).place? with
    | none => exact absurd (by rw [Store.select_of_no_place hk]; rfl) hp
    | some k =>
      rw [result_bind_ok (result_place_element "property" hindex hk), result_bind_ok (result_get s)]
      dsimp only
      split
      · next l hl =>
        rw [Store.select_of_list hk hl] at hp
        exact createItem_of_occupied fun h => hp (by rw [h]; rfl)
      · next hl =>
        rw [Store.select_of_not_list hk hl] at hp
        by_cases h0 : k = 0
        · rw [if_pos h0] at hp ⊢
          exact fillSlot_of_occupied hp
        · rw [if_neg h0] at hp
          exact absurd rfl hp

/-- An item that shows something is left alone. -/
theorem createListItem_of_occupied {list i : Nat} {name : Option QName}
    (hi : (s.lists.get list).getD i .null ≠ .null) :
    (p.createListItem factory list i name).result s = (.ok (), s) := by
  have hpad : s.padList list (i + 1) = s := Store.padList_of_le (lt_length_of_getD hi)
  rw [createListItem, result_bind_ok (result_change ..), hpad, result_bind_ok (result_get s),
    Value.isNull_eq_false hi]
  rfl

/-- **A node that shows something is left alone.** -/
theorem createAt_of_occupied {visit : Visit} {above : List Visit} {locale : Locale}
    (hp : ¬ IsVacant s { visit, above, locale }) :
    ((createAt r factory locale visit above).result s).2 = s := by
  let p : Pointer := { visit, above, locale }
  unfold createAt
  cases hnode : visit.node with
  | slot h name index isAttribute =>
    dsimp only
    rw [result_bind_ok (createSlot_of_occupied (p := p) hnode hp)]
    rfl
  | missing name index isAttribute =>
    refine absurd ?_ hp
    show s.unwrap (visit.node.immediate s) = .null
    rw [hnode]
    exact congrArg s.unwrap (Store.select_null s index)
  | items list name index =>
    cases index with
    | whole =>
      have hplace := result_place_whole (p := p) (s := s) "collection" (congrArg Node.index hnode)
      dsimp only
      rw [result_bind_ok hplace]
      rfl
    | element i =>
      have himm : p.immediate s = (Node.items list name (.element i)).immediate s :=
        congrArg (Node.immediate s) hnode
      have hindex : p.node.index = .element i := congrArg Node.index hnode
      dsimp only
      cases hk : (Index.element i).place? with
      | none =>
        rw [result_bind_error (result_place_none (p := p) "collection" hindex hk)]
      | some k =>
        rw [result_bind_ok (result_place_element (p := p) "collection" hindex hk)]
        have hitem : (s.lists.get list).getD k .null ≠ .null := by
          intro hnull
          have hshown : (Node.items list name (.element i)).immediate s =
              (s.lists.get list).getD k .null := by
            simp [Node.immediate, hk, List.getD_eq_getElem?_getD]
          exact hp (by rw [IsVacant, himm, hshown, hnull]; rfl)
        dsimp only
        rw [result_bind_ok (createListItem_of_occupied hitem)]
        rfl
  | var scope name index =>
    dsimp only
    rw [result_bind_ok (result_get s)]
    split <;> rfl
  | _ => rfl

/-! ## The whole chain -/

/-- A node that was found is made, or nothing is changed. -/
theorem createAt_clean {visit : Visit} {above : List Visit} {locale : Locale}
    (hfound : ∀ name index a, visit.node ≠ .missing name index a) :
    (createAt r env.factory? locale visit above).Clean env s := by
  let p : Pointer := { visit, above, locale }
  unfold createAt
  cases hnode : visit.node with
  | missing name index a => exact absurd hnode (hfound name index a)
  | slot h name index a => exact createSlot_clean.bind_ok fun _ t => ⟨p, t, rfl⟩
  | var scope name index =>
    refine clean_get_bind ?_
    dsimp only
    split
    · exact clean_of_error rfl
    · exact clean_of_ok rfl
  | items list name index =>
    refine place_clean p "collection" fun i => ?_
    cases i with
    | none => exact clean_of_ok rfl
    | some i => exact (createListItem_clean list i name).bind_ok fun _ t => ⟨p, t, rfl⟩
  | _ => exact clean_of_ok rfl

/-- A child or attribute is made below a pointer, or nothing is changed. -/
theorem createBelow_clean (q : Pointer) (name : QName) (index : Index) (isAttribute : Bool)
    (s : Store) : Action.Clean env (
      if isAttribute then q.createAttribute r name
      else q.createChild r env.factory? name index none) s := by
  split
  · exact createAttribute_clean
  · exact createChild_clean none

/-- What fails after the node above is there leaves no more than that node. -/
theorem BuiltAbove.of_below {q q' : Pointer} {a : Action Pointer} {u t : Store} {e : PathError}
    (hparent : p.parent? = some q) (hq : (q.createPath r env.factory?).result s = (.ok q', u))
    (ha : a.Clean env u) (h : a.result u = (.error e, t)) :
    env.Touches s t ∨ BuiltAbove r env p s t := by
  have hut := ha e t h
  by_cases hvacant : q.IsVacant s
  · refine .inr ⟨q, ?_, hvacant, q', u, hq, hut⟩
    rw [ancestors_eq_cons hparent]
    exact List.mem_cons_self ..
  · have hsame : ((q.createPath r env.factory?).result s).2 = s := createAt_of_occupied hvacant
    obtain rfl : u = s := by rw [← hsame, hq]
    exact .inl hut

/-- **A creation that fails has created the nodes above the one that is refused, and no more.** -/
theorem createAt_failed (locale : Locale) (visit : Visit) (above : List Visit) {e : PathError}
    {t : Store}
    (h : (createAt r env.factory? locale visit above).result s = (.error e, t)) :
    env.Touches s t ∨ BuiltAbove r env { visit, above, locale } s t := by
  induction above generalizing visit e t with
  | nil =>
    by_cases hmissing : ∃ name index a, visit.node = .missing name index a
    · obtain ⟨name, index, a, hnode⟩ := hmissing
      unfold createAt at h
      rw [hnode] at h
      cases h
    · simp only [not_exists] at hmissing
      exact .inl (createAt_clean hmissing e t h)
  | cons parent above ih =>
    by_cases hmissing : ∃ name index a, visit.node = .missing name index a
    · obtain ⟨name, index, a, hnode⟩ := hmissing
      let p : Pointer := { visit, above := parent :: above, locale }
      have hparent : p.parent? = some { visit := parent, above, locale } := rfl
      unfold createAt at h
      rw [hnode] at h
      dsimp only at h
      cases hq : (createAt r env.factory? locale parent above).result s with
      | mk made u =>
        cases made with
        | error e' =>
          rw [result_bind_error hq] at h
          cases h
          exact (ih parent hq).imp_right (.of_parent hparent)
        | ok q' =>
          rw [result_bind_ok hq] at h
          exact BuiltAbove.of_below hparent hq (createBelow_clean q' name index a u) h
    · simp only [not_exists] at hmissing
      exact .inl (createAt_clean hmissing e t h)

/-! ### With a value -/

/-- A slot of a map takes any value. -/
theorem putSlot_map_ok (id : Nat) (name : String) (v : Value) (s : Store) :
    ∃ t, (putSlot (.map id) name v).result s = (.ok (), t) := by
  have hput : ∃ t, s.putSlot (.map id) name v = .ok t := by
    unfold Store.putSlot
    cases s.slot (.map id) name <;> exact ⟨_, rfl⟩
  obtain ⟨t, ht⟩ := hput
  exact ⟨t, by rw [result_putSlot, ht]⟩

/-- An attribute that did not exist is one of a map. -/
theorem createAttribute_cases (q : Pointer) (name : QName) (s : Store) :
    ((q.createAttribute r name).result s).2 = s ∨
      ∃ id created t, (q.createAttribute r name).result s = (.ok created, t) ∧
        created.node = .slot (.map id) name .whole true := by
  rw [createAttribute, result_bind, result_read]
  cases q.valuePointer s r with
  | error e => exact .inl rfl
  | ok target =>
    dsimp only
    split
    · next h _ =>
      rw [result_bind_ok (result_get s)]
      split
      · cases h with
        | map id => exact .inr ⟨id, _, _, rfl, rfl⟩
        | bean id => exact .inl rfl
      · exact .inl rfl
    · exact .inl rfl

theorem setValue_slot {v : Value} (hnode : p.node = .slot h name index isAttribute) :
    p.setValue r v = p.setSlot h name v := by
  obtain ⟨visit, above, locale⟩ := p
  unfold setValue setAt
  simp only [show visit.node = _ from hnode]

/-- A value is set, or nothing is changed. -/
theorem setValue_clean {v : Value} : (p.setValue r v).Clean env s := by
  intro e u h
  have hlocal := p.setValue_local r v s
  rw [h] at hlocal
  exact touches_of_unchanged hlocal

/-- An attribute is made and set, or nothing is changed. -/
theorem createAttribute_setValue_clean (q : Pointer) (name : QName) (v : Value) (s : Store) :
    Action.Clean env (do
      let created ← q.createAttribute r name
      created.setValue r v
      pure created) s := by
  rcases createAttribute_cases (r := r) q name s with hsame | ⟨id, created, t, hmade, hnode⟩
  · refine createAttribute_clean.bind fun created t hmade => ?_
    obtain rfl : s = t := by rw [← hsame, hmade]
    exact ⟨.refl, setValue_clean.bind_ok fun _ t => ⟨created, t, rfl⟩⟩
  · obtain ⟨u, hu⟩ := putSlot_map_ok id name.text v t
    have hvalue : (created.setValue r v).result t = (.ok (), u) := by
      rw [setValue_slot hnode, setSlot,
        result_bind_ok (result_place_whole "property" (congrArg Node.index hnode)), hu]
    exact clean_of_ok (by rw [result_bind_ok hmade, result_bind_ok hvalue, result_pure])

/-- **A creation with a value leaves no more than a creation, if it fails.** -/
theorem createAndSet_failed {v : Value} {e : PathError}
    {t : Store} (h : (p.createAndSet r env.factory? v).result s = (.error e, t)) :
    env.Touches s t ∨ BuiltAbove r env p s t := by
  unfold createAndSet at h
  split at h
  · next name index a q hnode hparent =>
    cases hq : (q.createPath r env.factory?).result s with
    | mk made u =>
      cases made with
      | error e' =>
        rw [result_bind_error hq] at h
        cases h
        exact (createAt_failed _ _ _ hq).imp_right (.of_parent hparent)
      | ok q' =>
        rw [result_bind_ok hq] at h
        refine BuiltAbove.of_below hparent hq ?_ h
        split
        · exact createAttribute_setValue_clean q' name v u
        · exact createChild_clean (some v)
  · exact .inl ((setValue_clean.bind_ok fun _ t => ⟨p, t, rfl⟩) e t h)

end Pointer

/-! ## Creation in a context -/

namespace CompiledPath

variable {ctx : Context} {r : Registry} {c : CompiledPath} {s : Store}

/-- What a creation that fails leaves: the objects as they were, or as they are when a pointer above
the one to be created, at which nothing was, has been created; and the changes that functions and
the object factory make by themselves. -/
def LeftByFailure (ctx : Context) (r : Registry) (c : CompiledPath) (s t : Store) : Prop :=
  ctx.env.Touches s t ∨ ∃ p u, (c.creationTarget ctx r).result s = (.ok p, u) ∧
    ctx.env.Touches s u ∧ p.BuiltAbove r ctx.env u t

theorem leftByFailure_of_target {f : Pointer → Action Pointer} {e : PathError} {t : Store}
    (hf : ∀ p u e t, (f p).result u = (.error e, t) →
      ctx.env.Touches u t ∨ p.BuiltAbove r ctx.env u t)
    (h : (c.creationTarget ctx r >>= f).result s = (.error e, t)) : c.LeftByFailure ctx r s t := by
  have htarget := creationTarget_keeps (c := c) (r := r) ctx.env.functionsKeep_touches s
  rw [Action.result_bind] at h
  split at h
  · next p u hp =>
    rw [hp] at htarget
    rcases hf p u e t h with hsame | hbuilt
    · exact .inl (htarget.trans hsame)
    · exact .inr ⟨p, u, hp, htarget, hbuilt⟩
  · next e' u hp =>
    rw [hp] at htarget
    cases h
    exact .inl htarget

/-- **A creation that fails leaves the objects as they were, or with the nodes above its target
that it had created by then.** -/
theorem creation_failed (ctx : Context) (r : Registry) (c : CompiledPath) (s : Store) :
    (∀ e t, (c.createPath ctx r).result s = (.error e, t) → c.LeftByFailure ctx r s t) ∧
      ∀ v e t, (c.createAndSet ctx r v).result s = (.error e, t) → c.LeftByFailure ctx r s t :=
  ⟨fun _ _ => leftByFailure_of_target fun p _ _ _ =>
      Pointer.createAt_failed p.locale p.visit p.above,
    fun _ _ _ => leftByFailure_of_target fun _ _ _ _ => Pointer.createAndSet_failed⟩

/-! ### A part that has no size -/

/-- A bean that has a maker for its part. -/
def partless : Store where
  beans := ⟨#[{ type := "Whole"
                properties := .ofList [("part", .null)]
                makers := .ofList [("part", .bean "Part" [] [] [] [])] }]⟩

/-- A strict context at the bean. -/
def partlessContext (factory : Option ObjectFactory) : Context :=
  let root : Pointer := { visit := { node := .bean 0 none, occasion := {} } }
  { env := { root, locale := {}, lenient := false, own := { scope := 0, factory } }, here := root }

/-- A factory that makes nothing and takes all properties from the bean. -/
def spoiler : ObjectFactory := fun _ _ _ => do
  modify (·.setBean 0 {})
  pure none

/-- The path to the size of the part. -/
def pathToSize : CompiledPath where
  source := "/part/size"
  expr := { id := 0
            value := .path .root [.mk .child (.name (.bare "part")) [],
              .mk .child (.name (.bare "size")) []] }

/-- The part is made before the size is refused. -/
theorem creation_failed_partless : ∃ e t,
    (pathToSize.createPath (partlessContext none) .standard).result partless = (.error e, t) ∧
      pathToSize.LeftByFailure (partlessContext none) .standard partless t := by
  obtain ⟨e, t, h⟩ : ∃ e t,
      (pathToSize.createPath (partlessContext none) .standard).result partless = (.error e, t) :=
    ⟨_, _, rfl⟩
  exact ⟨e, t, h, (creation_failed (partlessContext none) .standard pathToSize partless).1 e t h⟩

/-- A creation fails at the size, and still the bean has a part afterwards. Another fails at the
part, and its factory has changed the bean. -/
theorem creation_changes_partless :
    Grammar.parse "/part/size" = .ok pathToSize.expr.value ∧
      (∃ t, (pathToSize.createPath (partlessContext none) .standard).result partless =
          (.error (.bean "Part" (.unknown "Part" "size")), t) ∧
        (t.beans.get 0).properties.get? "part" = some (.bean 1) ∧ ¬ partless.Unchanged t) ∧
      ∃ t, (pathToSize.createPath (partlessContext (some spoiler)) .standard).result partless =
          (.error (.bean "" (.unknown "" "part")), t) ∧
        (t.beans.get 0).properties.get? "part" = none ∧ ¬ partless.Unchanged t := by
  have hchanged {t : Store} (ht : (t.beans.get 0).properties.get? "part" ≠ some .null) :
      ¬ partless.Unchanged t := fun h =>
    ht (congrArg (fun b => b.properties.get? "part")
      (Content.bean.inj (h (.bean 0) Nat.zero_lt_one).2))
  exact ⟨by with_unfolding_all rfl, ⟨_, rfl, rfl, hchanged nofun⟩, _, rfl, rfl, hchanged nofun⟩

end CompiledPath

end PathQuery
