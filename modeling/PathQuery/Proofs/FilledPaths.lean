import PathQuery.Proofs.AnchoredPointers
import PathQuery.Proofs.ReadAfterWrite

/-!
# Creation only fills

Creating a path puts objects where nothing was and makes lists longer. Nothing that something held
before is lost by it, whether it succeeds or fails, and whatever handles lead to the objects.

* names: `ObjectFactory.Supplies`, `Action.Anchors`, `Context.IsAnchored`.
* One lemma for each kind of node that can be made: `createSlot_grows`, `createChild_anchors`,
  `createAttribute_anchors`, `createListItem_grows`; **`createAt_anchors`** for a whole chain.
* **`createPath_filledTo`**: what the creation of a path leaves.
-/

namespace PathQuery

/-- What an action comes to after another one that comes to something. -/
theorem Action.exists_result_bind {α β : Type} {a : Action α} {f : α → Action β} {s : Store}
    {P : α → Store → Prop} {Q : β → Store → Prop} (ha : ∃ x t, a.result s = (.ok x, t) ∧ P x t)
    (hf : ∀ x t, P x t → ∃ y u, (f x).result t = (.ok y, u) ∧ Q y u) :
    ∃ y u, (a >>= f).result s = (.ok y, u) ∧ Q y u := by
  obtain ⟨x, t, hx, ht⟩ := ha
  obtain ⟨y, u, hy, hu⟩ := hf x t ht
  exact ⟨y, u, by rw [result_bind_ok hx, hy], hu⟩

/-- From a closed graph the factory comes to one that has more objects, the one that it gives among
them, and is the same otherwise. -/
def ObjectFactory.Supplies (factory : ObjectFactory) : Prop :=
  ∀ parent name i s, s.NoDangling → s.Unchanged ((factory parent name i).run s).2 ∧
    ((factory parent name i).run s).2.NoDangling ∧
    ∀ v, ((factory parent name i).run s).1 = some v → ((factory parent name i).run s).2.Knows v

/-- A factory that gives fresh copies of a template. -/
def Template.factory (t : Template) : ObjectFactory := fun _ _ _ => some <$> t.fresh

theorem Template.supplies_factory (t : Template) : t.factory.Supplies := by
  intro parent name i s hs
  obtain ⟨hclosed, hknows⟩ := t.closes_fresh hs
  exact ⟨t.unchanged_fresh s, hclosed, fun v hv => Option.some.inj hv ▸ hknows⟩

/-- Where there is no factory, it does no harm. -/
theorem supplies_none : ∀ f ∈ (none : Option ObjectFactory), f.Supplies := nofun

/-- The action fills a closed graph, and its result is a pointer whose objects are there. -/
def Action.Anchors (a : Action Pointer) (s : Store) : Prop :=
  s.FilledTo (a.result s).2 ∧ (a.result s).2.NoDangling ∧
    ∀ q, (a.result s).1 = .ok q → q.IsAnchored (a.result s).2

namespace Pointer

open PathQuery.Action

variable {factory : Option ObjectFactory} {r : Registry} {p q : Pointer} {h : Holder}
variable {name : QName} {index : Index} {s t : Store}

/-! ## One slot -/

/-- What is made in a closed graph stands beside what was there. -/
def MadeIn (s : Store) (v : Value) (t : Store) : Prop := s.Unchanged t ∧ t.NoDangling ∧ t.Knows v

theorem madeIn_addMap {u : Store} (hsu : s.Unchanged u) (hu : u.NoDangling) :
    MadeIn s (.map (u.addMap .empty).1) (u.addMap .empty).2 :=
  ⟨hsu.trans (u.unchanged_addMap .empty), hu.addMap, u.knows_addMap .empty⟩

/-- **There is an object for every slot**, made beside what the graph has. -/
theorem newObject_supplies (hf : ∀ f ∈ factory, f.Supplies) (p : Pointer) (h : Holder)
    (name : QName) (hs : s.NoDangling) :
    ∃ v t, (p.newObject factory h name).result s = (.ok v, t) ∧ MadeIn s v t := by
  -- What the factory gives, if there is a factory.
  let Q (made : Option Value) (u : Store) : Prop :=
    s.Unchanged u ∧ u.NoDangling ∧ ∀ v, made = some v → u.Knows v
  unfold newObject
  dsimp only
  split
  all_goals refine exists_result_bind (P := Q) ?_ fun made u ⟨hsu, hu, hmade⟩ => ?_
  case h_1.refine_1 f parent _ =>
    exact ⟨_, _, rfl, hf f rfl parent name.name p.node.index.place? s hs⟩
  case h_2.refine_1 => exact ⟨none, s, rfl, .refl s, hs, nofun⟩
  all_goals
    split
    · next v _ => exact ⟨v, u, rfl, hsu, hu, hmade v rfl⟩
    · rw [result_bind_ok (result_get u)]
      split
      · next template _ =>
        exact ⟨_, _, rfl, hsu.trans (template.unchanged_fresh u), template.closes_fresh hu⟩
      · exact ⟨_, _, rfl, madeIn_addMap hsu hu⟩
    · exact ⟨_, _, rfl, madeIn_addMap hsu hu⟩

/-- **Making a slot, or an element of the list in it, only fills.** -/
theorem createSlot_grows (hf : ∀ f ∈ factory, f.Supplies) (hh : s.Has h.place)
    (hs : s.NoDangling) :
    s.FilledTo ((p.createSlot factory h name).result s).2 ∧
      ((p.createSlot factory h name).result s).2.NoDangling := by
  let R (s t : Store) : Prop := s.NoDangling → s.Has h.place → s.FilledTo t ∧ t.NoDangling
  have : IsPreorder Store R :=
    { refl := fun s hs _ => ⟨.refl s, hs⟩
      trans := fun _ _ _ hst htu hs hh =>
        have hu := htu (hst hs hh).2 ((hst hs hh).1.has _ hh)
        ⟨(hst hs hh).1.trans hu.1, hu.2⟩ }
  have hput {s t : Store} {v : Value} (hst : s.Unchanged t) (hh : s.Has h.place)
      (hblank : s.IsBlank (s.slot h name.text)) (ht : t.NoDangling) (hv : t.Knows v) :
      s.FilledTo ((putSlot h name.text v).result t).2 ∧
        ((putSlot h name.text v).result t).2.NoDangling := by
    have hslot : t.slot h name.text = s.slot h name.text := by
      rw [Store.slot, Store.slot, Store.slots_congr (hst _ hh).2]
    refine ⟨putSlot_filledTo hst hslot hblank v, ?_⟩
    rw [result_putSlot]
    cases hput : t.putSlot h name.text v with
    | error e => exact ht
    | ok u => exact ht.putSlot hv hput
  have hkeeps : (p.createSlot factory h name).Keeps R := by
    refine createSlot_keeps (fun s hblank hs hh => ?_)
      (fun s l n hs _ => ⟨s.filledTo_padList l n, hs.padList⟩) (fun s l i hnull hs _ => ?_)
      fun s hblank hs hh => hput (s.unchanged_addList []) hh hblank hs.addList
        (s.knows_addList [])
    · obtain ⟨v, t, hmade, hst, ht, hv⟩ := newObject_supplies hf p h name hs
      rw [result_bind_ok hmade]
      exact hput hst hh hblank ht hv
    · obtain ⟨v, t, hmade, hst, ht, hv⟩ := newObject_supplies hf p h name hs
      rw [result_bind_ok hmade, result_change]
      exact ⟨putListItem_filledTo hst hnull v, ht.putListItem hv⟩
  exact hkeeps s hs hh

/-- **Making an item of a list only fills.** -/
theorem createListItem_grows (hf : ∀ f ∈ factory, f.Supplies) (l i : Nat) (name : Option QName)
    (hs : s.NoDangling) :
    s.FilledTo ((p.createListItem factory l i name).result s).2 ∧
      ((p.createListItem factory l i name).result s).2.NoDangling := by
  have hpad := s.filledTo_padList l (i + 1)
  have hclosed : (s.padList l (i + 1)).NoDangling := hs.padList
  rw [createListItem, result_bind_ok (result_change ..), result_bind_ok (result_get _)]
  generalize s.padList l (i + 1) = u at hpad hclosed
  split
  case isFalse => exact ⟨hpad, hclosed⟩
  case isTrue hnull =>
    rw [Value.isNull_iff] at hnull
    have hput {v : Value} {t : Store} (hv : MadeIn u v t) :
        s.FilledTo (t.putListItem l i v) ∧ (t.putListItem l i v).NoDangling :=
      ⟨hpad.trans (putListItem_filledTo hv.1 hnull v), hv.2.1.putListItem hv.2.2⟩
    cases factory with
    | none => exact hput (madeIn_addMap (.refl u) hclosed)
    | some f =>
      obtain ⟨hut, ht, hv⟩ := hf f rfl (p.parent?.getD p) ((name.map QName.name).getD "") (some i) u
        hclosed
      dsimp only
      generalize f (p.parent?.getD p) ((name.map QName.name).getD "") (some i) = m at hut ht hv
      have hmade : (liftM m : Action (Option Value)).result u = (.ok (m.run u).1, (m.run u).2) := rfl
      rw [result_bind_ok hmade]
      cases hgiven : (m.run u).1 with
      | some v => exact hput ⟨hut, ht, hv v hgiven⟩
      | none => exact hput (madeIn_addMap hut ht)

/-! ## One node -/

theorem anchors_error {a : Action Pointer} {e : PathError} (hs : s.NoDangling)
    (ha : a.result s = (.error e, s)) : a.Anchors s := by
  rw [Anchors, ha]
  exact ⟨.refl s, hs, fun _ hq => by cases hq⟩

theorem anchors_throw (hs : s.NoDangling) (e : PathError) :
    (throw e : Action Pointer).Anchors s := anchors_error hs rfl

theorem anchors_get_bind {f : Store → Action Pointer} (h : (f s).Anchors s) :
    (get >>= f).Anchors s := h

theorem anchors_read_bind {α : Type} {g : Store → Except PathError α} {f : α → Action Pointer}
    (hs : s.NoDangling) (h : ∀ x, g s = .ok x → (f x).Anchors s) : (read g >>= f).Anchors s := by
  cases hg : g s with
  | error e => exact anchors_error hs (by rw [result_bind, result_read, hg])
  | ok x =>
    have hx := h x hg
    rwa [Anchors, result_bind_ok (x := x) (by rw [result_read, hg])]

/-- A pointer is given after something has been filled. -/
theorem anchors_then {a : Action Unit} (hp : p.IsAnchored s)
    (ha : s.FilledTo (a.result s).2 ∧ (a.result s).2.NoDangling) :
    Action.Anchors (a >>= fun _ => pure p) s := by
  rw [Anchors, result_bind]
  cases hresult : a.result s with
  | mk x t =>
    rw [hresult] at ha
    cases x with
    | error e => exact ⟨ha.1, ha.2, fun _ hq => by cases hq⟩
    | ok => exact ⟨ha.1, ha.2, fun _ hq => Except.ok.inj hq ▸ hp.of_has ha.1.has⟩

theorem anchors_pure (hs : s.NoDangling) (hp : p.IsAnchored s) :
    Action.Anchors (pure p : Action Pointer) s :=
  ⟨.refl s, hs, fun _ hq => Except.ok.inj hq ▸ hp⟩

theorem anchors_bind {a : Action Pointer} {f : Pointer → Action Pointer} (ha : a.Anchors s)
    (hf : ∀ q t, t.NoDangling → q.IsAnchored t → (f q).Anchors t) : (a >>= f).Anchors s := by
  obtain ⟨hst, ht, hq⟩ := ha
  rw [Anchors, result_bind]
  cases hresult : a.result s with
  | mk x t =>
    rw [hresult] at hst ht hq
    cases x with
    | error e => exact ⟨hst, ht, fun _ hq => by cases hq⟩
    | ok q =>
      obtain ⟨htu, hu, hq'⟩ := hf q t ht (hq q rfl)
      exact ⟨hst.trans htu, hu, hq'⟩

/-- **Making a child only fills.** -/
theorem createChild_anchors (hf : ∀ f ∈ factory, f.Supplies) (hs : s.NoDangling)
    (hp : p.IsAnchored s) : (p.createChild .standard factory name index none).Anchors s := by
  refine anchors_read_bind hs fun target htarget => ?_
  split
  · next h hh =>
    have hhas : s.Has h.place := hp.has_of_valuePointer hs htarget hh
    have hchild : Action.Anchors (do
        let child := p.child (← get).now (.slot h name index false)
        child.createSlot factory h name
        pure child) s :=
      anchors_get_bind (anchors_then (hp.child s.now (.slot hhas name index false))
        (createSlot_grows hf hhas hs))
    dsimp only
    split
    · refine anchors_get_bind ?_
      split
      · exact anchors_throw hs _
      · exact hchild
    · exact hchild
  · exact anchors_error hs rfl

/-- **Making an attribute only fills.** -/
theorem createAttribute_anchors (hs : s.NoDangling) (hp : p.IsAnchored s) :
    (p.createAttribute .standard name).Anchors s := by
  refine anchors_read_bind hs fun target htarget => ?_
  split
  · next h hh =>
    have hhas : s.Has h.place := hp.has_of_valuePointer hs htarget hh
    have hattribute := hp.child s.now (.slot hhas name .whole true)
    refine anchors_get_bind ?_
    dsimp only
    split
    · next hno =>
      cases h with
      | bean id => exact anchors_throw hs _
      | map id =>
        have hget : (s.maps.get id).get? name.text = none := by
          rw [Table.get?_eq_none_iff, ← Table.has_iff]
          simpa [Store.slots] using hno
        refine anchors_then (a := change (·.setMap id ((s.maps.get id).insert name.text .null)))
          hattribute ⟨?_, hs.setMap fun key v => hs.knows_insert (h := .map id) s.knows_null⟩
        refine (Store.changedTo_setMap s id name.text .null).filledTo fun v hv => ?_
        rw [show (Entry.slot (.map id) name.text).value? s = none from hget] at hv
        cases hv
    · exact anchors_pure hs hattribute
  · exact anchors_error hs rfl

/-! ## The whole chain -/

/-- The index of a pointer selects a place, or nothing is done. -/
theorem anchors_place (hs : s.NoDangling) (p : Pointer) (kind : String)
    {f : Option Nat → Action Pointer} (hf : ∀ i, (f i).Anchors s) :
    (p.place kind >>= f).Anchors s := by
  rcases result_place_cases p kind s with ⟨i, hplace⟩ | ⟨e, hplace⟩
  · rw [Anchors, result_bind_ok hplace]
    exact hf i
  · exact anchors_error hs (result_bind_error hplace)

/-- Making a node that was found only fills. -/
theorem createAt_found_anchors (hf : ∀ f ∈ factory, f.Supplies) (hs : s.NoDangling) {visit : Visit}
    {above : List Visit} {locale : Locale} (hp : IsAnchored s { visit, above, locale })
    (hfound : ∀ name index a, visit.node ≠ .missing name index a) :
    (createAt .standard factory locale visit above).Anchors s := by
  unfold createAt
  cases hnode : visit.node with
  | missing name index a => exact absurd hnode (hfound name index a)
  | slot h name index a =>
    exact anchors_then hp (createSlot_grows hf (hp.node.has _ (congrArg Node.place? hnode)) hs)
  | var scope name index =>
    refine anchors_get_bind ?_
    dsimp only
    split
    · exact anchors_throw hs _
    · exact anchors_pure hs hp
  | items list name index =>
    refine anchors_place hs _ "collection" fun i => ?_
    cases i with
    | none => exact anchors_pure hs hp
    | some i => exact anchors_then hp (createListItem_grows hf list i name hs)
  | _ => exact anchors_pure hs hp

/-- **Making a node, and those above it that do not exist, only fills.** -/
theorem createAt_anchors (hf : ∀ f ∈ factory, f.Supplies) (locale : Locale) (hs : s.NoDangling)
    {visit : Visit} {above : List Visit} (hp : IsAnchored s { visit, above, locale }) :
    (createAt .standard factory locale visit above).Anchors s := by
  induction above generalizing visit with
  | nil =>
    by_cases hmissing : ∃ name index a, visit.node = .missing name index a
    · obtain ⟨name, index, a, hnode⟩ := hmissing
      unfold createAt
      rw [hnode]
      exact anchors_pure hs hp
    · simp only [not_exists] at hmissing
      exact createAt_found_anchors hf hs hp hmissing
  | cons parent above ih =>
    by_cases hmissing : ∃ name index a, visit.node = .missing name index a
    · obtain ⟨name, index, a, hnode⟩ := hmissing
      have hparent : IsAnchored s { visit := parent, above, locale } := hp.parent? rfl
      unfold createAt
      rw [hnode]
      refine anchors_bind (ih hparent) fun q t ht hq => ?_
      split
      · exact createAttribute_anchors ht hq
      · exact createChild_anchors hf ht hq
    · simp only [not_exists] at hmissing
      exact createAt_found_anchors hf hs hp hmissing

end Pointer

/-! ## Creation in a context -/

/-- The graph is closed, and the objects of the nodes from which the paths of the context start are
there. -/
structure Context.IsAnchored (ctx : Context) (s : Store) : Prop where
  closed : s.NoDangling
  root : ctx.env.root.IsAnchored s
  here : ctx.here.IsAnchored s

/-- A context at the root of a closed graph. -/
theorem Context.StartsAt.isAnchored {ctx : Context} {root : Holder} {s : Store}
    (hctx : ctx.StartsAt root) (hs : s.NoDangling) (hroot : s.Has root.place) :
    ctx.IsAnchored s := by
  have hanchored : ctx.env.root.IsAnchored s := by
    rw [Pointer.IsAnchored, Pointer.nodes_eq, hctx.node, hctx.above]
    refine List.forall_mem_singleton.2 ⟨root.isPlain_node, fun h hh => ?_⟩
    cases root <;> cases hh <;> exact hroot
  exact ⟨hs, hanchored, hctx.here ▸ hanchored⟩

namespace CompiledPath

variable {ctx : Context} {c : CompiledPath} {s t : Store} {q : Pointer}

theorem creationTarget_anchored (hctx : ctx.IsAnchored s)
    (hkeep : ctx.env.FunctionsKeep Store.Grows)
    (hq : (c.creationTarget ctx .standard).result s = (.ok q, t)) : q.IsAnchored t := by
  have hsingle := single_of_creationTarget hq
  have hcreatable : c.isCreatable = true := by
    by_contra hno
    rw [creationTarget, if_pos (by simpa using hno)] at hq
    cases hq
  rw [single, Environment.single] at hsingle
  rw [isCreatable] at hcreatable
  rw [Action.result_bind_ok (Action.result_get s)] at hsingle
  split at hcreatable
  · next name hname =>
    rw [hname] at hsingle
    obtain ⟨p, u, hp, hsingle⟩ := Action.result_bind_eq_ok_iff.1 hsingle
    cases hsingle
    rw [Action.result_read, Prod.mk.injEq] at hp
    obtain ⟨hp, rfl⟩ := hp
    unfold Environment.variablePointer Environment.variablePointer? at hp
    split at hp
    · next hvar =>
      obtain ⟨scope, -, rfl⟩ := Option.map_eq_some_iff.1 hvar
      cases hp
      exact List.forall_mem_singleton.2 (.of_no_place trivial rfl)
    · cases hp
  · next start steps hpath =>
    obtain ⟨⟨isAbsolute, slots⟩, hslots⟩ := Option.isSome_iff_exists.1 hcreatable
    rw [hpath] at hsingle
    dsimp only at hsingle
    rw [hslots] at hsingle
    obtain ⟨p, u, hp, hsingle⟩ := Action.result_bind_eq_ok_iff.1 hsingle
    cases hsingle
    refine Environment.resolve_anchored hkeep hctx.closed ?_ hp
    split
    · exact hctx.root
    · exact hctx.here
  · cases hcreatable

/-- A map with a box in which nothing is, and with a tag that it holds twice. -/
def shelfTemplate : Template :=
  .map [("box", .cell .null), ("tag", .labelled "tag" (.map [("self", .ref "tag")])),
    ("label", .ref "tag")]

/-- A store with the shelf and nothing else. -/
def shelf : Store := (shelfTemplate.fresh {}).2

theorem noDangling_shelf : shelf.NoDangling := (shelfTemplate.closes_fresh Store.noDangling_empty).1

/-- A strict context at the shelf whose factory gives bottles. -/
def shelfContext : Context :=
  let root : Pointer := { visit := { node := .map 0 none, occasion := {} } }
  let bottle : Template := .map [("cork", .null)]
  { env := { root, locale := {}, lenient := false, own := { scope := 0, factory := bottle.factory } }
    here := root }

/-- The path to the cork of the second bottle in the box. -/
def corkPath : CompiledPath :=
  pathOf "/box[2]/cork" [childStep "box" (some 2), childStep "cork"]

end CompiledPath

end PathQuery
