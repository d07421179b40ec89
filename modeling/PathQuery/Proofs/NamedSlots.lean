import PathQuery.Pointer.Order
import PathQuery.Pointer.Test
import PathQuery.Proofs.Children
import PathQuery.Proofs.Dispatch
import PathQuery.Proofs.Integers
import PathQuery.Proofs.Names

/-!
# Named slots among children

A slot of an object is found by its name, and among the children that the object gives its owner.
Both ways lead to the same pointers.

* names: `Pointer.namedSlot?`, `Pointer.slotChildren`; `unsettled`, `IgnoresSettled`, `Pointer.Agrees`.
* `value_unsettled`: what a pointer shows does not depend on what is settled about its root, unless
  a factory asks for that.
* **`namedSlot_agrees_slotChildren`**: the children of a name are the elements of the named slot.
-/

namespace PathQuery

/-! ## What is settled plays no part -/

/-- The visit with nothing settled. -/
def Visit.unsettled (x : Visit) : Visit := { x with settled := none }

/-- The request for a value below a chain with nothing settled. -/
def Request.unsettled (q : Request) : Request := { q with above := q.above.map Visit.unsettled }

/-- The factory does not ask a chain what is settled about its root. -/
def Factory.IgnoresSettled (f : Factory) : Prop := ∀ s q, f.make s q.unsettled = f.make s q

namespace Registry

variable {r : Registry}

/-- No factory asks a chain what is settled about its root. -/
def IgnoresSettled (r : Registry) : Prop := ∀ f ∈ r.factories, f.IgnoresSettled

theorem ignoresSettled_ofFactories {fs : List Factory} (h : ∀ f ∈ fs, f.IgnoresSettled) :
    (ofFactories fs).IgnoresSettled :=
  fun f hf => h f ((factories_perm fs).mem_iff.1 hf)

theorem ignoresSettled_standard : standard.IgnoresSettled :=
  ignoresSettled_ofFactories fun f hf => by
    fin_cases hf <;> exact fun _ _ => rfl

theorem node?_unsettled (hr : r.IgnoresSettled) (s : Store) (q : Request) :
    r.node? s q.unsettled = r.node? s q := by
  have hmake (fs : List Factory) (h : ∀ f ∈ fs, f.IgnoresSettled) :
      (fs.findSome? fun f => f.make s q.unsettled) = fs.findSome? fun f => f.make s q := by
    induction fs with
    | nil => rfl
    | cons f fs ih =>
      rw [List.findSome?_cons, List.findSome?_cons, h f (List.mem_cons_self ..),
        ih fun g hg => h g (List.mem_cons_of_mem _ hg)]
  rw [node?, node?, hmake _ hr]
  rfl

end Registry

namespace Pointer

variable {s : Store} {r : Registry} {p q : Pointer}

/-- The pointer with nothing settled along its chain. -/
def unsettled (p : Pointer) : Pointer :=
  { p with visit := p.visit.unsettled, above := p.above.map Visit.unsettled }

@[simp] theorem node_unsettled (p : Pointer) : p.unsettled.node = p.node := rfl

@[simp] theorem path_unsettled (p : Pointer) : p.unsettled.path s = p.path s := by
  have hnodes : p.unsettled.nodes = p.nodes := by
    simp [nodes, chain, unsettled, Visit.unsettled, Function.comp_def]
  rw [path, path, hnodes]

theorem create_unsettled (hr : r.IgnoresSettled) (name : Option QName) (v : Value)
    (locale : Locale) (above : List Visit) :
    r.create s name v locale (above.map Visit.unsettled) =
      (r.create s name v locale above).map unsettled := by
  have hnode := Registry.node?_unsettled hr s { name, value := v, locale, above }
  rw [Request.unsettled] at hnode
  rw [Registry.create, Registry.create, hnode]
  cases r.node? s { name, value := v, locale, above } <;> rfl

theorem next?_unsettled (hr : r.IgnoresSettled) (p : Pointer) :
    p.unsettled.next? s r = (p.next? s r).map (Option.map unsettled) := by
  -- what is done at a link; at the end of a chain there is nothing to follow
  let follow (x : Except PathError Pointer) : Except PathError (Option Pointer) := do
    pure (some (← x))
  have hfollow : follow (r.create s p.node.name? (p.immediate s) p.locale p.unsettled.chain) =
      (follow (r.create s p.node.name? (p.immediate s) p.locale p.chain)).map
        (Option.map unsettled) := by
    rw [show p.unsettled.chain = p.chain.map Visit.unsettled from rfl, create_unsettled hr]
    generalize r.create s p.node.name? (p.immediate s) p.locale p.chain = x
    cases x <;> rfl
  obtain ⟨⟨node, occasion, settled⟩, above, locale⟩ := p
  cases node with
  | slot | var | cell => exact hfollow
  | items list name index =>
    cases index with
    | whole => rfl
    | element i => exact hfollow
  | _ => rfl

theorem valuePointerUpTo_unsettled (hr : r.IgnoresSettled) (n : Nat) (p : Pointer) :
    p.unsettled.valuePointerUpTo s r n = (p.valuePointerUpTo s r n).map (Option.map unsettled) := by
  induction n generalizing p with
  | zero => rfl
  | succ n ih =>
    rw [valuePointerUpTo, valuePointerUpTo, next?_unsettled hr]
    cases p.next? s r with
    | error e => rfl
    | ok q? =>
      cases q? with
      | none => rfl
      | some q => exact ih q

theorem value_unsettled (hr : r.IgnoresSettled) (p : Pointer) :
    p.unsettled.value s r = p.value s r := by
  rw [value, value, valuePointer, valuePointer, valuePointerUpTo_unsettled hr, path_unsettled]
  cases p.valuePointerUpTo s r Store.maxIndirections with
  | error e => rfl
  | ok q? => cases q? <;> rfl

/-- The pointers stand at the same position, have the same path and show the same value. -/
structure Agrees (s : Store) (p q : Pointer) : Prop where
  samePosition : p.samePosition s q = true
  path : p.path s = q.path s
  value {r : Registry} (hr : r.IgnoresSettled) : p.value s r = q.value s r

theorem agrees_of_unsettled (h : p.unsettled = q.unsettled) : p.Agrees s q where
  samePosition := by
    have hnode : p.unsettled.node = q.unsettled.node := congrArg node h
    rw [node_unsettled, node_unsettled] at hnode
    have habove : p.above.map Visit.unsettled = q.above.map Visit.unsettled := congrArg above h
    rw [samePosition, base, base, hnode]
    cases hp : p.above <;> cases hq : q.above <;> simp [hp, hq, Node.alike] at habove ⊢
  path := by rw [← path_unsettled p, h, path_unsettled]
  value hr := by rw [← value_unsettled hr p, h, value_unsettled hr]

/-! ## The slots of an object below an owner -/

/-- The children that an object gives its owner. -/
def slotChildren (s : Store) (h : Holder) (owner : Pointer) : List Pointer :=
  (s.childNodes h).map (owner.child s.now)

/-- The slot of this name that an object gives its owner. -/
def namedSlot? (s : Store) (h : Holder) (owner : Pointer) (name : QName) (isAttribute : Bool) :
    Option Pointer :=
  if (s.slots h).has name.text then some (owner.child s.now (.slot h name .whole isAttribute))
  else none

variable {h : Holder} {owner v : Pointer} {n name : String} {index : Index} {o : Occasion}

/-- Children and named slots of a pointer are those of the object at the end of its link. -/
theorem children_eq_slotChildren (hv : owner.valuePointer s r = .ok v) (hh : v.node.holder? = some h) :
    owner.children s r = .ok (owner.slotChildren s h) ∧
      ∀ name isAttribute,
        owner.slot? s r name isAttribute = .ok (owner.namedSlot? s h name isAttribute) := by
  constructor
  · have hwith (inner : Pointer → Except PathError (List Pointer)) :
        owner.childrenWith s r inner = .ok (owner.slotChildren s h) := by
      rw [childrenWith, hv, Except.ok_bind]
      cases hnode : v.node with
      | map | bean =>
        rw [hnode] at hh
        obtain rfl := Option.some.inj hh
        rfl
      | _ =>
        rw [hnode] at hh
        cases hh
    rw [children]
    cases s.lists.size <;> exact hwith _
  · intro name isAttribute
    simp only [slot?, hv, Except.ok_bind, hh, namedSlot?]
    split <;> rfl

/-- A name is no wildcard, and means the one slot that has it. -/
theorem passes_slot (hn : Grammar.IsName n) :
    (owner.child o (.slot h (.bare name) index false)).passes s (.name (.bare n)) =
      decide (name = n) := by
  have hwild : (QName.bare n).isWildcard = false := by
    rw [QName.isWildcard, beq_eq_false_iff_ne]
    rintro (rfl : n = "*")
    exact Grammar.not_mem_of_isOutside hn (c := '*') (by decide) (by decide)
  rw [passes, node_child, Bool.eq_iff_iff]
  simp [Node.name?, Node.isContainer, sameNamespace, hwild]
  simp [QName.bare, eq_comm]

theorem filter_slotChildren (hn : Grammar.IsName n) :
    (owner.slotChildren s h).filter (fun q => q.passes s (.name (.bare n))) =
      match (s.slots h).get? n with
      | some w => (s.slotNodes h n w).map (owner.child s.now)
      | none => [] :=
  Store.filter_map_childNodes fun _ _ => passes_slot hn

theorem namedSlot?_bare (isAttribute : Bool) :
    owner.namedSlot? s h (.bare n) isAttribute =
      ((s.slots h).get? n).map fun _ =>
        owner.child s.now (.slot h (.bare n) .whole isAttribute) := by
  rw [namedSlot?, show (QName.bare n).text = n from rfl]
  cases hentry : (s.slots h).get? n with
  | none => rw [if_neg fun hhas => Table.get?_eq_none_iff.1 hentry (Table.has_iff.1 hhas)]; rfl
  | some w => rw [if_pos (Table.has_iff_get?.2 ⟨w, hentry⟩)]; rfl

theorem isSome_namedSlot? (isAttribute : Bool) :
    (owner.namedSlot? s h (.bare n) isAttribute).isSome = (s.slots h).has n := by
  rw [Bool.eq_iff_iff, Table.has_iff_get?, namedSlot?_bare, Option.isSome_map,
    Option.isSome_iff_exists]

/-- The elements of a slot, as they are listed and as they are reached from the whole slot. -/
theorem agrees_slotNodes {w : Value} :
    let slot := owner.child s.now (.slot h (.bare n) .whole false)
    ∃ named : List Pointer,
      (match s.items? w with
        | some items => named.map some =
          (List.range items.length).map fun (i : Nat) => slot.atIndex? s (.element i)
        | none => named = [slot]) ∧
      List.Forall₂ (Agrees s) ((s.slotNodes h n w).map (owner.child s.now)) named ∧
        (s.roots.lookup slot = none → (s.slotNodes h n w).map (owner.child s.now) = named) := by
  intro slot
  rw [Store.slotNodes]
  cases s.items? w with
  | none =>
    exact ⟨[slot], rfl, List.forall₂_same.2 fun _ _ => agrees_of_unsettled rfl, fun _ => rfl⟩
  | some items =>
    -- reached from the whole slot, an element keeps what that has settled about its root
    let element (i : Nat) : Pointer :=
      { slot with visit :=
        ⟨.slot h (.bare n) (.element i) false, s.now, slot.settledRoot? s⟩ }
    refine ⟨(List.range items.length).map element, by rw [List.map_map]; rfl, ?_, fun hslot => ?_⟩
    · rw [List.map_map, List.forall₂_map_left_iff, List.forall₂_map_right_iff]
      exact List.forall₂_same.2 fun i _ => agrees_of_unsettled rfl
    · have hsettled : slot.settledRoot? s = none := hslot
      rw [List.map_map]
      refine List.map_congr_left fun i _ => ?_
      simp only [element, hsettled]
      rfl

/-- **Look-up by name agrees with the list of children.** An object gives its owner a slot of a name
if it has one. The children that the name passes are then, in order, the elements of that slot if it
holds a list, however many cells it is wrapped in, and the slot itself if it holds anything else. If
the slot has settled nothing about its root yet, they are the very same pointers. -/
theorem namedSlot_agrees_slotChildren (s : Store) (h : Holder) (owner : Pointer) {n : String}
    (hn : Grammar.IsName n) :
    (∀ r v, owner.valuePointer s r = .ok v → v.node.holder? = some h →
      owner.children s r = .ok (owner.slotChildren s h) ∧ ∀ name isAttribute,
        owner.slot? s r name isAttribute = .ok (owner.namedSlot? s h name isAttribute)) ∧
    (∀ isAttribute, (owner.namedSlot? s h (.bare n) isAttribute).isSome = (s.slots h).has n) ∧
    let found := (owner.slotChildren s h).filter fun q => q.passes s (.name (.bare n))
    match owner.namedSlot? s h (.bare n) false with
    | none => found = []
    | some slot => ∃ named : List Pointer,
      (match s.items? (s.slot h n) with
        | some items => named.map some =
          (List.range items.length).map fun (i : Nat) => slot.atIndex? s (.element i)
        | none => named = [slot]) ∧
      List.Forall₂ (Agrees s) found named ∧ (s.roots.lookup slot = none → found = named) := by
  refine ⟨fun r v hv hh => children_eq_slotChildren hv hh, isSome_namedSlot?, ?_⟩
  rw [filter_slotChildren hn, namedSlot?_bare]
  cases hentry : (s.slots h).get? n with
  | none => exact rfl
  | some w =>
    rw [show s.slot h n = w by rw [Store.slot, hentry, Option.getD_some]]
    exact agrees_slotNodes

/-- A map with a list in a cell, and with nothing under another name. -/
def rack : Store where
  lists := ⟨#[[.bool true, .null]]⟩
  cells := ⟨#[.list 0]⟩
  maps := ⟨#[.ofList [("row", .cell 0), ("gap", .null)]]⟩

theorem namedSlot_agrees_rack :
    let owner : Pointer := { visit := { node := .map 0 none, occasion := {} } }
    Grammar.IsName "row" ∧ ∃ cs slot,
      owner.children rack .standard = .ok cs ∧
      owner.slot? rack .standard (.bare "row") false = .ok (some slot) ∧
      (cs.filter fun q => q.passes rack (.name (.bare "row"))).map some =
        [slot.atIndex? rack (.element 0), slot.atIndex? rack (.element 1)] := by
  intro owner
  have hname : Grammar.IsName "row" := by with_unfolding_all rfl
  obtain ⟨hrun, -, hfound⟩ := namedSlot_agrees_slotChildren rack (.map 0) owner hname
  obtain ⟨hchildren, hslot⟩ := hrun .standard owner rfl rfl
  obtain ⟨named, hnamed, -, hsame⟩ := hfound
  refine ⟨hname, _, _, hchildren, hslot _ _, ?_⟩
  rw [hsame rfl]
  exact hnamed

end Pointer

end PathQuery
