import PathQuery.Proofs.Filling
import PathQuery.Proofs.SimplePaths

/-!
# Chains along a path

A path of child steps is resolved slot by slot. The chain of nodes that it comes to stands in the
graph as far as there are objects to stand in, and is made of missing slots from there on.

* names: `NamedStep.IsBare`, `Store.EntersNoList`, `Sought`, `Standing`, `Node.entries`.
* **`Standing.resolve?_eq`**: where a chain stands and shows something, its path leads.
* **`Standing.of_kept`**: a chain stands as long as the entries that it is read from are kept.
-/

namespace PathQuery

/-! ## Steps to children -/

namespace NamedStep

/-- The step is one to the children of an unqualified name. -/
structure IsBare (x : NamedStep) : Prop where
  child : x.isAttribute = false
  unqualified : x.name.qualifier = none
  proper : x.name.isWildcard = false

/-- The index that the step's number stands for. -/
def index (x : NamedStep) : Index := (x.number.map fun n => .element (place n)).getD .whole

end NamedStep

namespace Store

/-- No step is taken from a list. -/
def EntersNoList (s : Store) : Value → List NamedStep → Prop
  | _, [] => True
  | v, x :: xs => (∀ l, s.endUpTo? (maxIndirections - 1) v ≠ some (.list l)) ∧
      ∀ w, s.step? v x = some w → s.EntersNoList w xs

variable {s : Store} {v w : Value} {x : NamedStep} {xs ys : List NamedStep} {h : Holder}

/-- Nothing is entered below nothing. -/
theorem entersNoList_of_null
    (hv : ∀ w, s.endUpTo? (maxIndirections - 1) v = some w → w = .null) :
    s.EntersNoList v xs := by
  cases xs with
  | nil => trivial
  | cons x xs =>
    refine ⟨fun l hl => ?_, fun w hw => ?_⟩
    · cases hv _ hl
    · rw [step?, named?_eq_none hv] at hw
      cases hw

theorem resolve?_append : s.resolve? v (xs ++ ys) = (s.resolve? v xs).bind (s.resolve? · ys) := by
  induction xs generalizing v with
  | nil => rfl
  | cons x xs ih =>
    rw [List.cons_append, resolve?, resolve?]
    cases s.step? v x with
    | none => rfl
    | some w => exact ih

/-- What shows something after an index is one of those that the value counts as. -/
theorem counted_of_select {i : Int} (hw : s.endUpTo? (maxIndirections - 1)
    (s.select v (.element i)) = some w) (hnull : w ≠ .null) :
    ∃ k : Nat, i = k ∧ (s.counted v)[k]? = some (s.select v (.element i)) := by
  by_contra hno
  refine hnull (end_select_not_counted (fun k hk => ?_) hw)
  by_contra hlt
  refine hno ⟨k, hk, ?_⟩
  have hsome := List.getElem?_eq_getElem (Nat.lt_of_not_le hlt)
  rw [hsome, hk, select_counted hsome]

/-- A step leads to the slot of its name, if that shows something. -/
theorem step?_slot (hx : x.IsBare) (hv : s.endUpTo? (maxIndirections - 1) v = some h.value)
    (hw : (Node.slot h x.name x.index false).end? s = some w) (hnull : w ≠ .null) :
    s.step? v x = some ((Node.slot h x.name x.index false).immediate s) := by
  have himm : (Node.slot h x.name x.index false).immediate s =
      s.select (s.slot h x.name.text) x.index := rfl
  have hhas : (s.slots h).has x.name.text = true := by
    by_contra hno
    rw [Table.has_iff, ← Table.get?_eq_none_iff] at hno
    have hslot : s.slot h x.name.text = .null := by rw [slot, hno]; rfl
    rw [Node.end?_eq (by trivial), himm, hslot, select_null] at hw
    exact hnull (Option.some.inj hw).symm
  have hnamed : s.named? v x.name x.isAttribute = some (.slot h x.name .whole false) := by
    rw [named?, hv, hx.child]
    simp [hhas]
  rw [Node.end?_eq (by trivial), himm] at hw
  rw [step?, hnamed, Option.bind_some, himm]
  cases hnumber : x.number with
  | none =>
    have hindex : x.index = .whole := by rw [NamedStep.index, hnumber]; rfl
    rw [hindex]
    rfl
  | some n =>
    have hindex : x.index = .element (NamedStep.place n) := by
      rw [NamedStep.index, hnumber]
      rfl
    rw [hindex] at hw ⊢
    obtain ⟨k, hk, hcounted⟩ := counted_of_select hw hnull
    rw [hk] at hcounted ⊢
    rw [picked, hk]
    exact hcounted

end Store

/-! ## Chains -/

section Chains

variable (s : Store) (root : Holder)

/-- Every node after the root is the slot of its step in the object at the end of the one before. -/
inductive Standing : List Node → List NamedStep → Prop
  | root : Standing [root.value.node none] []
  | slot {n : Node} {ns : List Node} {xs : List NamedStep} {h : Holder} {x : NamedStep}
      (hn : Standing (n :: ns) xs) (hend : n.end? s = some h.value) :
      Standing (.slot h x.name x.index false :: n :: ns) (xs ++ [x])

/-- Every node after the root is the slot of its step in the object at the end of the one before, or
a missing one if there is no such slot. -/
inductive Sought : List Node → List NamedStep → Prop
  | root : Sought [root.value.node none] []
  | slot {n : Node} {ns : List Node} {xs : List NamedStep} {h : Holder} {x : NamedStep}
      (hn : Sought (n :: ns) xs) (hend : n.end? s = some h.value) :
      Sought (.slot h x.name x.index false :: n :: ns) (xs ++ [x])
  | missing {n : Node} {ns : List Node} {xs : List NamedStep} {x : NamedStep}
      (hn : Sought (n :: ns) xs)
      (hno : ∀ h : Holder, n.end? s = some h.value → (s.slots h).has x.name.text = false) :
      Sought (.missing x.name x.index false :: n :: ns) (xs ++ [x])

end Chains

variable {s t : Store} {root h : Holder} {n : Node} {ns : List Node} {xs ys : List NamedStep}
variable {x : NamedStep} {v w : Value}

namespace Sought

theorem isPlain (h : Sought s root (n :: ns) xs) : n.IsPlain := by
  cases h with
  | root => exact root.isPlain_node
  | slot | missing => trivial

/-- Where a chain shows something, nothing above is missing. -/
theorem standing (h : Sought s root (n :: ns) xs) (hend : n.end? s = some w) (hw : w ≠ .null) :
    Standing s root (n :: ns) xs := by
  generalize hchain : n :: ns = chain at h
  induction h generalizing n ns w with
  | root => exact .root
  | slot _ hend' ih => exact .slot (ih hend' (Holder.value_ne_null _) rfl) hend'
  | missing =>
    obtain ⟨rfl, rfl⟩ := List.cons.inj hchain
    rw [Node.end?_eq (by trivial)] at hend
    exact absurd ((Node.isLost_missing ..).null hend) hw

end Sought

namespace Standing

theorem isPlain (h : Standing s root (n :: ns) xs) : n.IsPlain := by
  cases h with
  | root => exact root.isPlain_node
  | slot => trivial

/-- Above a slot is the node that shows its object. -/
theorem exists_above {name : QName} {index : Index} {a : Bool}
    (hn : Standing s root (.slot h name index a :: ns) xs) :
    ∃ n ms ys, ns = n :: ms ∧ Standing s root (n :: ms) ys ∧ n.end? s = some h.value := by
  generalize hchain : Node.slot h name index a :: ns = chain at hn
  cases hn with
  | root => cases root <;> cases (List.cons.inj hchain).1
  | slot hn hend =>
    obtain ⟨hnode, rfl⟩ := List.cons.inj hchain
    cases hnode
    exact ⟨_, _, _, rfl, hn, hend⟩

/-- **Where a chain shows something, its path leads.** -/
theorem resolve?_eq (h : Standing s root (n :: ns) xs) (hxs : ∀ x ∈ xs, x.IsBare)
    (hend : n.end? s = some w) (hw : w ≠ .null) :
    s.resolve? root.value xs = some (n.immediate s) := by
  generalize hchain : n :: ns = chain at h
  induction h generalizing n ns w with
  | root =>
    obtain ⟨rfl, rfl⟩ := List.cons.inj hchain
    rw [Store.resolve?]
    cases root <;> rfl
  | @slot m ms xs h x hm hend' ih =>
    obtain ⟨rfl, rfl⟩ := List.cons.inj hchain
    rw [List.forall_mem_append, List.forall_mem_singleton] at hxs
    have habove := ih hxs.1 hend' h.value_ne_null rfl
    rw [Node.end?_eq hm.isPlain] at hend'
    rw [Store.resolve?_append, habove, Option.bind_some, Store.resolve?,
      Store.step?_slot hxs.2 hend' hend hw]
    rfl

end Standing

/-! ## What a chain is read from -/

namespace Store

/-- The contents of the cells through which a value is looked at, the first `n` of them. -/
def cellsUpTo (s : Store) : Nat → Value → List Entry
  | n + 1, .cell c => .content c :: s.cellsUpTo n (s.cells.get c)
  | _, _ => []

/-- The entries from which one reads what an index selects of a value. -/
def entriesOf (s : Store) (v : Value) (index : Index) : List Entry :=
  s.cellsUpTo maxIndirections v ++
    match index.place?, s.listId? v with
    | some i, some l =>
      .item l i :: s.cellsUpTo maxIndirections ((s.lists.get l).getD i .null)
    | _, _ => []

end Store

/-- The entries from which one reads what a slot shows. -/
def Node.entries (s : Store) : Node → List Entry
  | .slot h name index _ => .slot h name.text :: s.entriesOf (s.slot h name.text) index
  | _ => []

namespace Store

variable {n m : Nat} {l : Nat} {index : Index}

/-- The inside of a value stays the same if the cells on the way are kept. -/
theorem unwrapUpTo_of_kept_cells (hkept : ∀ e ∈ t.cellsUpTo n v, e.Kept s t)
    (hv : s.unwrapUpTo n v = w) (hblank : ¬ s.IsBlank v) : t.unwrapUpTo n v = w := by
  induction n generalizing v with
  | zero => exact hv
  | succ n ih =>
    cases v with
    | cell c =>
      rw [isBlank_cell] at hblank
      have hc : t.cells.get c = s.cells.get c :=
        Option.some.inj (hkept _ (List.mem_cons_self ..) _ rfl hblank)
      rw [unwrapUpTo] at hv ⊢
      rw [cellsUpTo, List.forall_mem_cons, hc] at hkept
      rw [hc]
      exact ih hkept.2 hv hblank
    | _ => exact hv

theorem endUpTo?_of_kept_cells (hkept : ∀ e ∈ t.cellsUpTo n v, e.Kept s t) (hnm : m ≤ n)
    (hv : s.endUpTo? m v = some w) (hnull : w ≠ .null) : t.endUpTo? m v = some w := by
  induction m generalizing n v with
  | zero => cases v <;> cases hv
  | succ m ih =>
    obtain ⟨n, rfl⟩ : ∃ k, n = k + 1 := ⟨n - 1, by omega⟩
    cases v with
    | cell c =>
      rw [endUpTo?] at hv ⊢
      have hc : t.cells.get c = s.cells.get c := Option.some.inj
        (hkept _ (List.mem_cons_self ..) _ rfl (not_isBlank_of_endUpTo? hv hnull))
      rw [cellsUpTo, List.forall_mem_cons, hc] at hkept
      rw [hc]
      exact ih hkept.2 (by omega) hv
    | _ => exact hv

/-- What an index selects of a value shows the same if the entries on the way are kept. -/
theorem end_select_of_kept (hkept : ∀ e ∈ t.entriesOf v index, e.Kept s t)
    (hw : s.endUpTo? (maxIndirections - 1) (s.select v index) = some w) (hnull : w ≠ .null) :
    t.endUpTo? (maxIndirections - 1) (t.select v index) = some w := by
  rw [entriesOf, List.forall_mem_append] at hkept
  obtain ⟨hcells, hentry⟩ := hkept
  obtain ⟨x, hselects, hx⟩ := exists_selects_of_end hw hnull
  cases hselects with
  | whole => exact endUpTo?_of_kept_cells hcells (by decide) hx hnull
  | @item i k l _ hk hl hitem =>
    have hl' : t.unwrap v = .list l :=
      unwrapUpTo_of_kept_cells hcells hl (not_isBlank_of_list hl)
    rw [hk, listId?_eq_some.2 hl', List.forall_mem_cons] at hentry
    have hafter : (t.lists.get l)[k]? = some x :=
      hentry.1 x hitem (not_isBlank_of_endUpTo? hx hnull)
    have hsame : (t.lists.get l).getD k .null = x := by
      rw [List.getD_eq_getElem?_getD, hafter]
      rfl
    rw [hsame] at hentry
    rw [select_of_list hk hl', hsame]
    exact endUpTo?_of_kept_cells hentry.2 (by decide) hx hnull
  | sole hlist =>
    have hx' := endUpTo?_of_kept_cells hcells (by decide) hx hnull
    have hlist' (l : Nat) : t.unwrap v ≠ .list l := by
      have hs : s.unwrap v = w := unwrapUpTo_of_endUpTo? (by decide) hx
      have ht : t.unwrap v = w := unwrapUpTo_of_endUpTo? (by decide) hx'
      rw [ht, ← hs]
      exact hlist l
    rw [select_of_not_list rfl hlist']
    exact hx'

/-- What is shown after an index is not blank before it. -/
theorem not_isBlank_of_end_select
    (hw : s.endUpTo? (maxIndirections - 1) (s.select v index) = some w) (hnull : w ≠ .null) :
    ¬ s.IsBlank v := by
  obtain ⟨x, hselects, hx⟩ := exists_selects_of_end hw hnull
  cases hselects with
  | whole | sole => exact not_isBlank_of_endUpTo? hx hnull
  | item _ hl => exact not_isBlank_of_list hl

end Store

/-- A slot shows the same if the entries that it is read from are kept. -/
theorem Node.end?_slot_of_kept {name : QName} {index : Index} {a : Bool}
    (hkept : ∀ e ∈ (Node.slot h name index a).entries t, e.Kept s t)
    (hw : (Node.slot h name index a).end? s = some w) (hnull : w ≠ .null) :
    (Node.slot h name index a).end? t = some w := by
  rw [entries, List.forall_mem_cons] at hkept
  obtain ⟨hslot, hrest⟩ := hkept
  have hblank : ¬ s.IsBlank (s.slot h name.text) := Store.not_isBlank_of_end_select hw hnull
  have hheld : s.slot h name.text ≠ .null := by
    intro hnull'
    rw [hnull'] at hblank
    exact hblank s.isBlank_null
  have hafter : (t.slots h).get? name.text = some (s.slot h name.text) :=
    hslot _ (Store.value?_slot rfl hheld) hblank
  have hsame : t.slot h name.text = s.slot h name.text := Store.slot_eq hafter
  rw [hsame] at hrest
  have himm : (Node.slot h name index a).immediate t = t.select (s.slot h name.text) index := by
    rw [← hsame]
    rfl
  rw [Node.end?_eq (by trivial), himm]
  exact Store.end_select_of_kept hrest hw hnull

namespace Standing

/-- **A chain stands as long as the entries that the nodes above its last one are read from are
kept.** -/
theorem of_kept (hn : Standing s root (n :: ns) xs)
    (hkept : ∀ m ∈ ns, ∀ e ∈ m.entries t, e.Kept s t) : Standing t root (n :: ns) xs := by
  generalize hchain : n :: ns = chain at hn
  induction hn generalizing n ns with
  | root => exact .root
  | @slot m ms xs h x hm hend ih =>
    obtain ⟨rfl, rfl⟩ := List.cons.inj hchain
    rw [List.forall_mem_cons] at hkept
    refine .slot (ih hkept.2 rfl) ?_
    cases hm with
    | root =>
      rw [← hend]
      cases root <;> rfl
    | slot => exact Node.end?_slot_of_kept hkept.1 hend h.value_ne_null

end Standing

end PathQuery
