import PathQuery.Proofs.DocumentOrder
import PathQuery.Proofs.MadeNodes

/-!
# Chains that paths lead to and create

A simple path leads along slots as far as there are slots, and along missing ones from there on. Its
creation turns the missing ones into slots, along which the path leads from then on.

* names: `Choice`, `Link`, `Led`, `Stands`.
* **`Node.end?_of_filledTo`**: after filling, a node shows what it showed.
* `Led.stands`: where a chain shows something, nothing of it is missing. **`Led.eq_or_isMissing`**:
  a path leads along the chain that stands, or to a missing node.
-/

namespace PathQuery

/-! ## Links -/

/-- What the index expression of a step chooses at its slot. -/
inductive Choice where
  | whole
  | element (i : Int)
  | nothing

namespace Choice

/-- The index of the slot that is chosen or, if nothing is, of the missing one instead. -/
def index : Choice → Index
  | whole => .whole
  | element i => .element i
  | nothing => .element 0

/-- A number chooses an element, counted from one; any other answer all or nothing. -/
def ofAnswer (s : Store) : Answer → Choice
  | .number x => element (Number.roundToInt x - 1)
  | a => if a.toBool s then whole else nothing

end Choice

/-- A step with what its index expression has chosen. -/
structure Link where
  name : QName
  isAttribute : Bool
  choice : Choice

namespace Link

/-- The slot that the link names in an object. -/
def slot (x : Link) (h : Holder) : Node := .slot h x.name x.choice.index x.isAttribute

/-- The missing slot for the link. -/
def missing (x : Link) : Node := .missing x.name x.choice.index x.isAttribute

end Link

/-- The link of a step. -/
def SimpleStep.link (x : SimpleStep) (k : Choice) : Link := ⟨x.name, x.isAttribute, k⟩

/-! ## What is shown after filling -/

section Filling

variable {s t : Store} {n : Node} {v w : Value} {index : Index}

theorem Store.FilledTo.end_select (hst : s.FilledTo t)
    (hw : s.endUpTo? (Store.maxIndirections - 1) (s.select v index) = some w) (hnull : w ≠ .null) :
    t.endUpTo? (Store.maxIndirections - 1) (t.select v index) = some w :=
  Store.end_select_of_kept (fun e _ => hst.kept e) hw hnull

/-- **A node shows what it showed**, if that was something. -/
theorem Node.end?_of_filledTo (hn : n.IsPlain) (hst : s.FilledTo t) (hw : n.end? s = some w)
    (hnull : w ≠ .null) : n.end? t = some w := by
  -- A node that selects the same at an index shows the same.
  have hselected (v : Value) (index : Index) (himm : n.immediate s = s.select v index)
      (himm' : n.immediate t = t.select v index) : n.end? t = some w := by
    rw [end?_eq hn] at hw ⊢
    rw [himm] at hw
    rw [himm']
    exact hst.end_select hw hnull
  cases n with
  | slot h name index a => exact end?_slot_of_kept (fun e _ => hst.kept e) hw hnull
  | missing name index a =>
    rw [end?_of_isMissing rfl] at hw
    exact absurd (Option.some.inj hw).symm hnull
  | var scope name index =>
    have himm (u : Store) : (Node.var scope name index).immediate u =
        u.select (((u.scopes.get scope).get? name.text).getD .null) index := rfl
    rw [end?_eq hn, himm] at hw
    have hblank := Store.not_isBlank_of_end_select hw hnull
    cases hget : (s.scopes.get scope).get? name.text with
    | none =>
      rw [hget] at hblank
      exact absurd s.isBlank_null hblank
    | some v =>
      rw [hget] at hblank
      have hafter : (t.scopes.get scope).get? name.text = some v :=
        hst.kept (.binding scope name.text) v hget hblank
      exact hselected v index (by rw [himm, hget]; rfl) (by rw [himm, hafter]; rfl)
  | items l name index =>
    have himm (u : Store) : (Node.items l name index).immediate u = u.select (.list l) index := by
      cases index with
      | whole => rfl
      | element i =>
        cases hk : (Index.element i).place? with
        | none => simp [Node.immediate, Store.select_of_no_place hk, hk]
        | some k =>
          rw [Store.select_of_list hk rfl, List.getD_eq_getElem?_getD]
          simp [Node.immediate, hk]
    exact hselected _ _ (himm s) (himm t)
  | cell c name =>
    rw [end?_eq hn] at hw
    have hwhole : s.endUpTo? (Store.maxIndirections - 1) (s.select (s.cells.get c) .whole) = some w :=
      hw
    have hblank : ¬ s.IsBlank (s.cells.get c) := Store.not_isBlank_of_end_select hwhole hnull
    have hafter : t.cells.get c = s.cells.get c :=
      Option.some.inj (hst.kept (.content c) _ rfl hblank)
    exact hselected (s.cells.get c) .whole rfl hafter
  | map | bean | leaf | null => exact hw
  | element | markupText => exact absurd hn id

end Filling

/-! ## Chains -/

section Chains

variable (s : Store) (base : List Node)

/-- Below the nodes at which a path starts come, link by link, the slots of the objects at the end
of the nodes before, or missing ones where there is no slot or nothing was chosen of it. -/
inductive Led : List Node → List Link → Prop
  | base : Led base []
  | slot {n : Node} {ns : List Node} {xs : List Link} {h : Holder} {x : Link}
      (hn : Led (n :: ns) xs) (hend : n.end? s = some h.value)
      (hhas : (s.slots h).has x.name.text = true) (hx : x.choice ≠ .nothing) :
      Led (x.slot h :: n :: ns) (x :: xs)
  | missing {n : Node} {ns : List Node} {xs : List Link} {x : Link} (hn : Led (n :: ns) xs)
      (hno : x.choice = .nothing ∨
        ∀ h : Holder, n.end? s = some h.value → (s.slots h).has x.name.text = false) :
      Led (x.missing :: n :: ns) (x :: xs)

/-- Below the nodes at which a path starts come, link by link, the slots of the objects at the end
of the nodes before. -/
inductive Stands : List Node → List Link → Prop
  | base : Stands base []
  | slot {n : Node} {ns : List Node} {xs : List Link} {h : Holder} {x : Link}
      (hn : Stands (n :: ns) xs) (hend : n.end? s = some h.value)
      (hhas : (s.slots h).has x.name.text = true) : Stands (x.slot h :: n :: ns) (x :: xs)

end Chains

variable {s t u : Store} {base : List Node} {n m : Node} {ns ms : List Node} {xs ys : List Link}
variable {x : Link} {h : Holder} {v w : Value}

namespace Led

theorem isAnchored (hn : Led s base ns xs) (hs : s.NoDangling)
    (hbase : ∀ n ∈ base, n.IsAnchored s) :
    ∀ n ∈ ns, n.IsAnchored s := by
  induction hn with
  | base => exact hbase
  | slot hn hend hhas hx ih =>
    have habove := (List.forall_mem_cons.1 ih).1
    exact List.forall_mem_cons.2 ⟨.slot (habove.knows_end hs hend).holder .., ih⟩
  | missing hn hno ih => exact List.forall_mem_cons.2 ⟨.missing .., ih⟩

theorem isPlain (hn : Led s base (n :: ns) xs) (hbase : ∀ n ∈ base, n.IsPlain) : n.IsPlain := by
  cases hn with
  | base => exact hbase n (List.mem_cons_self ..)
  | slot | missing => trivial

theorem congr (hst : s.SameGraph t) (hn : Led s base ns xs) : Led t base ns xs := by
  induction hn with
  | base => exact .base
  | slot hn hend hhas hx ih => exact ih.slot (hst.end? _ ▸ hend) (hst.slots _ ▸ hhas) hx
  | missing hn hno ih =>
    refine ih.missing (hno.imp_right fun hno h hend => ?_)
    rw [hst.slots]
    exact hno h (hst.end? _ ▸ hend)

/-- Where a chain shows something, it stands. -/
theorem stands (hn : Led s base (n :: ns) xs) (hend : n.end? s = some w) (hw : w ≠ .null) :
    Stands s base (n :: ns) xs := by
  generalize hchain : n :: ns = chain at hn
  induction hn generalizing n ns w with
  | base => exact .base
  | slot hn hend' hhas hx ih => exact (ih hend' (Holder.value_ne_null _) rfl).slot hend' hhas
  | missing =>
    obtain ⟨rfl, rfl⟩ := List.cons.inj hchain
    rw [Node.end?_of_isMissing rfl] at hend
    exact absurd (Option.some.inj hend).symm hw

/-- A chain ends in a missing node, or is the one that stands along the same links. -/
theorem eq_or_isMissing (hn : Led s base ns xs) (hm : Stands s base ms xs) :
    ns = ms ∨ ∃ n ∈ ns.head?, n.isMissing = true := by
  induction hn generalizing ms with
  | base =>
    cases hm
    exact .inl rfl
  | @slot n ns xs h x hn hend hhas hx ih =>
    cases hm with
    | slot hm hend' hhas' =>
      rcases ih hm with hsame | ⟨_, ⟨⟩, hmissing⟩
      · obtain ⟨rfl, rfl⟩ := List.cons.inj hsame
        rw [hend] at hend'
        exact .inl (by rw [Holder.value_injective (Option.some.inj hend')])
      · rw [Node.end?_of_isMissing hmissing] at hend
        exact absurd (Option.some.inj hend).symm h.value_ne_null
  | missing => exact .inr ⟨_, rfl, rfl⟩

/-- Above a node that shows something, something was chosen of every slot. -/
theorem choice_ne_nothing (hn : Led s base (n :: ns) xs) (hend : n.end? s = some w)
    (hw : w ≠ .null) : ∀ x ∈ xs, x.choice ≠ .nothing := by
  generalize hchain : n :: ns = chain at hn
  induction hn generalizing n ns w with
  | base => exact fun _ hx => by cases hx
  | slot hn hend' hhas hx ih =>
    exact List.forall_mem_cons.2 ⟨hx, ih hend' (Holder.value_ne_null _) rfl⟩
  | missing =>
    obtain ⟨rfl, rfl⟩ := List.cons.inj hchain
    rw [Node.end?_of_isMissing rfl] at hend
    exact absurd (Option.some.inj hend).symm hw

/-- **If something was chosen of every slot, the path leads along the chain that stands.** -/
theorem eq_of_chosen (hn : Led s base ns xs) (hm : Stands s base ms xs)
    (hxs : ∀ x ∈ xs, x.choice ≠ .nothing) : ns = ms := by
  induction hn generalizing ms with
  | base =>
    cases hm
    rfl
  | slot hn hend hhas hx ih =>
    cases hm with
    | slot hm hend' hhas' =>
      obtain ⟨rfl, rfl⟩ := List.cons.inj (ih hm (List.forall_mem_cons.1 hxs).2)
      rw [hend] at hend'
      rw [Holder.value_injective (Option.some.inj hend')]
  | missing hn hno ih =>
    cases hm with
    | slot hm hend' hhas' =>
      obtain ⟨hx, hxs⟩ := List.forall_mem_cons.1 hxs
      obtain ⟨rfl, rfl⟩ := List.cons.inj (ih hm hxs)
      rw [hno.resolve_left hx _ hend'] at hhas'
      cases hhas'

end Led

namespace Stands

theorem congr (hst : s.SameGraph t) (hn : Stands s base ns xs) : Stands t base ns xs := by
  induction hn with
  | base => exact .base
  | slot hn hend hhas ih => exact ih.slot (hst.end? _ ▸ hend) (hst.slots _ ▸ hhas)

/-- Filling leaves a chain where it stands. -/
theorem of_filledTo (hn : Stands s base ns xs) (hbase : ∀ n ∈ base, n.IsPlain)
    (hst : s.FilledTo t) : Stands t base ns xs ∧ ∀ n ∈ ns, n.IsPlain := by
  induction hn with
  | base => exact ⟨.base, hbase⟩
  | slot hn hend hhas ih =>
    obtain ⟨hstands, hplain⟩ := ih
    have hend' := Node.end?_of_filledTo (List.forall_mem_cons.1 hplain).1 hst hend
      (Holder.value_ne_null _)
    have hhas' := Table.has_iff.2 ((hst.keys _).subset (Table.has_iff.1 hhas))
    exact ⟨hstands.slot hend' hhas', List.forall_mem_cons.2 ⟨trivial, hplain⟩⟩

/-- Above the last links of a chain that stands there stands one. -/
theorem exists_above (hn : Stands s base ns (xs ++ ys)) : ∃ ms, Stands s base ms ys := by
  induction xs generalizing ns with
  | nil => exact ⟨ns, hn⟩
  | cons x xs ih =>
    cases hn with
    | slot hn => exact ih hn

end Stands

end PathQuery
