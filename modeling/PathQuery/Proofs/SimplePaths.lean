import Mathlib.Data.List.Find
import PathQuery.Proofs.ChildLists
import PathQuery.Proofs.Resolving
import PathQuery.Proofs.Selections

/-!
# What a simple path resolves to

A simple path is resolved step by step, without a look at any node but one. What it comes to can be
read off the values of the graph.

* names: `NamedStep`, `Store.named?`, `Store.picked`, `Store.resolve?`, `Node.ComesTo`.
* **`getPointer_simple`**: a strict context finds a simple path exactly if it can be resolved.
-/

namespace PathQuery

/-! ## Steps -/

/-- A step to children or attributes of a name, with one number at most. -/
structure NamedStep where
  name : QName
  isAttribute : Bool := false
  number : Option Nat := none

namespace NamedStep

/-- The step as it stands in a path. -/
def step (x : NamedStep) : Step :=
  .mk (if x.isAttribute then .attribute else .child) (.name x.name)
    (x.number.toList.map fun n => .number (Number.ofNat n))

/-- The slot that the step names. -/
def simple (x : NamedStep) : SimpleStep :=
  ⟨x.name, x.isAttribute, x.number.map fun n => .number (Number.ofNat n)⟩

/-- The place that a number denotes, counted from zero. -/
def place (n : Nat) : Int := Number.roundToInt (Number.ofNat n) - 1

theorem place_of_le {n : Nat} (hn : n ≤ 2 ^ 53) : place n = n - 1 := by
  rw [place, Number.roundToInt_ofNat hn]

theorem le_place {n : Nat} (hn : 2 ^ 53 ≤ n) : 2 ^ 53 ≤ place n + 1 := by
  rw [place, Int.sub_add_cancel]
  exact Number.le_roundToInt_ofNat hn

/-- An element counted from one has a place, the first one only the first place. -/
theorem place_first {n : Nat} (hn : 0 < n) : 0 ≤ place n ∧ (place n = 0 ↔ n = 1) := by
  rcases Nat.le_total n (2 ^ 53) with hsmall | hlarge
  · rw [place_of_le hsmall]
    omega
  · have := le_place hlarge
    omega

theorem simple?_step {x : NamedStep} (hx : x.name.isWildcard = false) :
    x.step.simple? = some x.simple := by
  obtain ⟨name, isAttribute, number⟩ := x
  cases isAttribute <;> cases number <;>
    simp_all [step, Step.simple?, Step.isSimple, simple, Expr.anyDependsOnContext,
      Expr.dependsOnContext]

end NamedStep

theorem simplePath?_named {xs : List NamedStep} (hxs : ∀ x ∈ xs, x.name.isWildcard = false) :
    (xs.map NamedStep.step).mapM Step.simple? = some (xs.map NamedStep.simple) := by
  induction xs with
  | nil => rfl
  | cons x xs ih =>
    rw [List.forall_mem_cons] at hxs
    rw [List.map_cons, List.mapM_cons, NamedStep.simple?_step hxs.1, ih hxs.2]
    rfl

/-! ## Values on the way -/

namespace Store

variable (s : Store)

/-- Pointers are seen as what they show before cells are looked through, their children as nodes. -/
def valueView : View Value Node where
  shown? s v := s.endUpTo? (maxIndirections - 1) v
  item s _ l i := ((s.lists.get l)[i]?).getD .null
  child _ node := node

/-- The nodes of the children below a value, or of its attributes. -/
def nodesBelow? (v : Value) (isAttribute : Bool) : Option (List Node) :=
  if isAttribute then
    (s.endUpTo? (maxIndirections - 1) v).map fun w => (w.holder?.map s.attributeNodes).getD []
  else valueView.below s s.lists.size v

/-- The node that a name stands for below a value: the slot of that name, or else the first node
whose name passes. -/
def named? (v : Value) (name : QName) (isAttribute : Bool) : Option Node := do
  let w ← s.endUpTo? (maxIndirections - 1) v
  match w.holder? with
  | some h =>
    if (s.slots h).has name.text then some (.slot h name .whole isAttribute)
    else (← s.nodesBelow? v isAttribute).find? fun node => node.name?.any (·.name == name.name)
  | none => (← s.nodesBelow? v isAttribute).find? fun node => node.name?.any (·.name == name.name)

/-- The values that a value counts as: the items of a list, nothing for null, else the value. -/
def counted (v : Value) : List Value :=
  match s.unwrap v with
  | .list l => s.lists.get l
  | .null => []
  | _ => [v]

/-- What is left of a node by a number, if there is one. An item found under a name counts as its
own first item. -/
def picked (node : Node) : Option Nat → Option Value
  | none => some (node.immediate s)
  | some n =>
    match node.index, NamedStep.place n with
    | .whole, .ofNat i => (s.counted (node.base s))[i]?
    | .element _, .ofNat 0 => some (node.immediate s)
    | _, _ => none

/-- The value that a step comes to below a value, if there is one. -/
def step? (v : Value) (x : NamedStep) : Option Value :=
  (s.named? v x.name x.isAttribute).bind (s.picked · x.number)

/-- **The value that a simple path comes to below a value**, if there is one. -/
def resolve? : Value → List NamedStep → Option Value
  | v, [] => some v
  | v, x :: xs => (s.step? v x).bind (resolve? · xs)

end Store

/-! ## What pointers show -/

/-- What a plain node shows is at the end of what it holds. -/
theorem Node.end?_eq {s : Store} {n : Node} (hn : n.IsPlain) :
    n.end? s = s.endUpTo? (Store.maxIndirections - 1) (n.immediate s) := by
  rw [Node.end?]
  split
  · rfl
  · next hlink =>
    cases n with
    | missing name index isAttribute =>
      rw [show (Node.missing name index isAttribute).immediate s = .null from
        Store.select_null s index]
      rfl
    | leaf v name =>
      cases v <;> simp_all [Node.IsPlain, Value.isScalar, Node.immediate, Node.base, Store.select,
        Node.index, Store.endUpTo?, Store.maxIndirections]
    | items l name index =>
      cases index with
      | whole => rfl
      | element => simp [Node.isLink] at hlink
    | element | markupText => exact absurd hn id
    | _ => first | rfl | simp [Node.isLink] at hlink

namespace Pointer

variable {s t : Store} {p : Pointer}

theorem shows_valueView (s t : Store) : Store.valueView.Shows s t
    (fun p => p.node.IsPlain) (fun p => p.node.immediate s) Pointer.node where
  plain hp := hp
  shown? hp := (Node.end?_eq hp).symm
  item {p l i} hp hend hi := by
    refine ⟨isPlain_item .., ?_⟩
    have hselect {v : Value} (hv : s.endUpTo? (Store.maxIndirections - 1) v = some (.list l)) :
        s.select v (.element i) = ((s.lists.get l)[i]?).getD .null := by
      have hitems := Store.items?_of_endUpTo? hv
      simp [Store.select, Index.place?, hitems]
    rcases item_cases (s := t) p l p.node.name? i with ⟨-, hq⟩ | ⟨-, hwhole, node, hn, hq, -, -⟩
    · rw [hq]
      exact Node.immediate_item
    · rw [hq]
      rw [Node.end?_eq hp] at hend
      cases hnode : p.node with
      | slot h name index isAttribute =>
        rw [hnode] at hn hend hwhole
        obtain rfl := Option.some.inj hn
        obtain rfl : index = .whole := hwhole
        exact hselect hend
      | var scope name index =>
        rw [hnode] at hn hend hwhole
        obtain rfl := Option.some.inj hn
        obtain rfl : index = .whole := hwhole
        exact hselect hend
      | items l' name index =>
        rw [hnode] at hn hend hwhole
        obtain rfl := Option.some.inj hn
        obtain rfl : index = .whole := hwhole
        obtain rfl : l' = l := by
          simpa [Node.immediate, Store.endUpTo?, Store.maxIndirections] using hend
        exact Node.immediate_item
      | missing name index isAttribute =>
        rw [hnode, show (Node.missing name index isAttribute).immediate s = .null from
          Store.select_null s index] at hend
        simp [Store.endUpTo?, Store.maxIndirections] at hend
      | _ => simp [hnode, Node.atIndex?] at hn
  child _ _ _ := rfl

/-- The nodes of the children or attributes are those below what the pointer holds. -/
theorem toOption_nodesBelow (ht : s.SameGraph t) (hp : p.node.IsPlain) (isAttribute : Bool) :
    (if isAttribute then p.attributes t .standard else p.children t .standard).toOption.map
      (List.map node) = s.nodesBelow? (p.node.immediate s) isAttribute := by
  rw [Store.nodesBelow?]
  cases isAttribute with
  | false =>
    rw [if_neg (by simp), if_neg (by simp), children, ht.lists]
    exact toOption_childrenUpTo ht (shows_valueView s t) _ hp
  | true =>
    have hslots : t.attributeNodes = s.attributeNodes := by
      funext h
      simp only [Store.attributeNodes, ht.slots]
    rw [if_pos rfl, if_pos rfl, attributes_eq hp, ← Node.end?_eq hp, ← ht.end?,
      ← toOption_value hp, hslots]
    cases p.value t .standard with
    | error e => rfl
    | ok v => simp [Except.toOption, Function.comp_def]

/-- Children and attributes are slots. -/
theorem mem_nodesBelow? {v : Value} {isAttribute : Bool} {ns : List Node} {n : Node}
    (h : s.nodesBelow? v isAttribute = some ns) (hn : n ∈ ns) :
    ∃ h name index a, n = .slot h (.bare name) index a ∧ n.isActual s = true := by
  rw [Store.nodesBelow?] at h
  split at h
  · obtain ⟨w, -, rfl⟩ := Option.map_eq_some_iff.1 h
    cases hw : w.holder? with
    | none => simp [hw] at hn
    | some h =>
      obtain ⟨name, rfl⟩ := Store.mem_attributeNodes (by simpa [hw] using hn)
      exact ⟨h, name, .whole, true, rfl, rfl⟩
  · obtain ⟨_, h, node, hnode, rfl⟩ := Store.View.exists_child_of_mem h hn
    obtain ⟨name, v, hentry, hnode⟩ := Store.mem_childNodes.1 hnode
    obtain ⟨index, rfl⟩ := Store.mem_slotNodes hnode
    exact ⟨h, name, index, false, rfl,
      Node.isActual_of_mem_slotNodes (Table.get?_eq_some_iff.2 hentry) hnode⟩

theorem passes_of_nodesBelow {v : Value} {isAttribute : Bool} {name : QName} {cs : List Pointer}
    (hname : name.isWildcard = false) (h : s.nodesBelow? v isAttribute = some (cs.map node)) :
    ∀ c ∈ cs, c.passes t (.name name) = c.node.name?.any (·.name == name.name) := by
  intro c hc
  obtain ⟨_, key, index, a, hnode, -⟩ := mem_nodesBelow? h (List.mem_map_of_mem hc)
  rw [passes_name hnode hname, hnode]
  rfl

/-- The first child or attribute of a name stands for a node below the value. -/
theorem firstPassing_eq (ht : s.SameGraph t) (hp : p.node.IsPlain) {name : QName}
    (hname : name.isWildcard = false) (isAttribute : Bool) :
    (Environment.firstPassing .standard p name isAttribute t).toOption.map (Option.map node) =
      (s.nodesBelow? (p.node.immediate s) isAttribute).map
        (List.find? fun n => n.name?.any (·.name == name.name)) := by
  have hcandidates := toOption_nodesBelow ht hp isAttribute
  have hfind (found : Except PathError (List Pointer))
      (h : found.toOption.map (List.map node) =
        s.nodesBelow? (p.node.immediate s) isAttribute) :
      (found.map (List.find? fun q => q.passes t (.name name))).toOption.map (Option.map node) =
        (s.nodesBelow? (p.node.immediate s) isAttribute).map
          (List.find? fun n => n.name?.any (·.name == name.name)) := by
    cases found with
    | error e =>
      rw [← h]
      rfl
    | ok cs =>
      rw [← h]
      simp only [Except.map, Except.toOption, Option.map_some, List.find?_map]
      congr 2
      exact List.find?_congr (passes_of_nodesBelow hname h.symm)
  cases isAttribute <;> exact hfind _ hcandidates

end Pointer

/-! ## One step -/

/-- Nothing has a name below nothing. -/
theorem Store.named?_eq_none {s : Store} {v : Value} {name : QName} {isAttribute : Bool}
    (h : ∀ w, s.endUpTo? (maxIndirections - 1) v = some w → w = .null) :
    s.named? v name isAttribute = none := by
  rw [named?]
  cases hend : s.endUpTo? (maxIndirections - 1) v with
  | none => rfl
  | some w =>
    obtain rfl := h w hend
    have hbelow : s.nodesBelow? v isAttribute = some [] := by
      rw [nodesBelow?]
      cases isAttribute with
      | true =>
        rw [if_pos rfl, hend]
        rfl
      | false =>
        have hwith (inner : Value → Option (List Node)) :
            valueView.belowWith s inner v = some [] := by
          rw [View.belowWith, show valueView.shown? s v = some .null from hend]
          rfl
        rw [if_neg (by simp)]
        cases s.lists.size <;> exact hwith _
    simp [Value.holder?, hbelow]

/-- What a name stands for is a slot that exists. -/
theorem Store.named?_slot {s : Store} {v : Value} {name : QName} {isAttribute : Bool} {n : Node}
    (h : s.named? v name isAttribute = some n) :
    ∃ h name index a, n = .slot h name index a ∧ n.isActual s = true := by
  have hother {ns : Option (List Node)} (hns : s.nodesBelow? v isAttribute = ns)
      (h : (do (← ns).find? fun node => node.name?.any (·.name == name.name)) = some n) :
      ∃ h name index a, n = .slot h name index a ∧ n.isActual s = true := by
    obtain ⟨ns, rfl, h⟩ := Option.bind_eq_some_iff.1 h
    obtain ⟨h, key, index, a, hn, hactual⟩ :=
      Pointer.mem_nodesBelow? hns (List.mem_of_find?_eq_some h)
    exact ⟨h, _, index, a, hn, hactual⟩
  obtain ⟨w, -, h⟩ := Option.bind_eq_some_iff.1 h
  split at h
  · split at h
    · obtain rfl := Option.some.inj h
      exact ⟨_, _, _, _, rfl, rfl⟩
    · exact hother rfl h
  · exact hother rfl h

namespace Store

variable {s : Store} {v w : Value}

theorem length_slot (h : Holder) (name : QName) (index : Index) (a : Bool) :
    (Node.slot h name index a).length s = (s.counted (s.slot h name.text)).length := by
  rw [counted, Node.length, Node.base]
  cases s.unwrap (s.slot h name.text) <;> rfl

theorem items?_eq_none_iff : s.items? v = none ↔ ∀ l, s.unwrap v ≠ .list l := by
  rw [items?]
  cases s.unwrap v <;> simp

theorem select_counted {i : Nat} (h : (s.counted v)[i]? = some w) :
    s.select v (.element i) = w := by
  cases hv : s.items? v with
  | some items =>
    obtain ⟨l, hl, rfl⟩ := items?_eq_some_iff.1 hv
    rw [counted, hl] at h
    simp [select, Index.place?, hv, h]
  | none =>
    have hlist := items?_eq_none_iff.1 hv
    have hcounted : s.counted v = [] ∨ s.counted v = [v] := by
      rw [counted]
      cases hu : s.unwrap v <;> simp
      exact absurd hu (hlist _)
    rcases hcounted with hc | hc
    · simp [hc] at h
    · rw [hc, List.getElem?_singleton] at h
      split at h
      · next hi =>
        obtain rfl := Option.some.inj h
        simp [select, Index.place?, hv, hi]
      · simp at h

/-- Past what a value counts as there is nothing. -/
theorem end_select_not_counted {i : Int} (h : ∀ k : Nat, i = k → (s.counted v).length ≤ k)
    (hw : s.endUpTo? (maxIndirections - 1) (s.select v (.element i)) = some w) : w = .null := by
  have hnull (hselect : s.select v (.element i) = .null) : w = .null := by
    rw [hselect] at hw
    exact (Option.some.inj hw).symm
  by_cases hi : 0 ≤ i
  · obtain ⟨k, rfl⟩ := Int.eq_ofNat_of_zero_le hi
    have hk := h k rfl
    cases hv : s.items? v with
    | some items =>
      obtain ⟨l, hl, rfl⟩ := items?_eq_some_iff.1 hv
      rw [counted, hl] at hk
      exact hnull (by simp [select, Index.place?, hv, List.getElem?_eq_none hk])
    | none =>
      by_cases hzero : k = 0
      · subst hzero
        have hselect : s.select v (.element (0 : Nat)) = v := by simp [select, Index.place?, hv]
        rw [hselect] at hw
        have hu : s.unwrap v = w := unwrapUpTo_of_endUpTo? (by decide) hw
        rw [counted, hu] at hk
        cases w with
        | null => rfl
        | list l => exact absurd hu (items?_eq_none_iff.1 hv l)
        | _ => simp at hk
      · exact hnull (by simp [select, Index.place?, hv, hzero])
  · exact hnull (by simp [select, Index.place?, hi])

end Store

/-- The node does not exist, and nothing is found below it. -/
structure Node.IsLost (s : Store) (n : Node) : Prop where
  plain : n.IsPlain
  actual : n.isActual s = false
  null {v : Value} (hv : s.endUpTo? (Store.maxIndirections - 1) (n.immediate s) = some v) :
    v = .null

/-- The node exists with this value in it, or is lost where there is none. -/
def Node.ComesTo (s : Store) (n : Node) : Option Value → Prop
  | some w => n.IsPlain ∧ n.isActual s = true ∧ n.immediate s = w
  | none => n.IsLost s

theorem Node.isLost_missing (s : Store) (name : QName) (index : Index) (isAttribute : Bool) :
    (Node.missing name index isAttribute).IsLost s := by
  refine ⟨trivial, rfl, fun hv => ?_⟩
  rw [show (Node.missing name index isAttribute).immediate s = .null from
    Store.select_null s index] at hv
  exact (Option.some.inj hv).symm

namespace Environment

variable {s t : Store} {p : Pointer}

/-- The slot of a name is the node that it stands for; else there is none. -/
theorem slotOrMissing_eq (ht : s.SameGraph t) (hp : p.node.IsPlain) {name : QName}
    (hname : name.isWildcard = false) (isAttribute : Bool) :
    match s.named? (p.node.immediate s) name isAttribute with
    | some node => ∃ q, slotOrMissing .standard p name isAttribute t = .ok q ∧ q.node = node
    | none => ∀ q, slotOrMissing .standard p name isAttribute t = .ok q →
        q.node = .missing name .whole isAttribute := by
  have hvalue := Pointer.toOption_value (s := t) hp
  rw [ht.end?, Node.end?_eq hp] at hvalue
  have hfirst := Pointer.firstPassing_eq ht hp hname isAttribute
  rw [slotOrMissing, Pointer.slot?_eq hp, Store.named?, ← hvalue]
  cases p.value t .standard with
  | error e => simp [Except.toOption]
  | ok v =>
    have hother : match (s.nodesBelow? (p.node.immediate s) isAttribute).bind
          (List.find? fun n => n.name?.any (·.name == name.name)) with
        | some node => ∃ q, (do
            let other ← firstPassing .standard p name isAttribute t
            pure (other.getD (missing p name isAttribute .whole t))) = .ok q ∧ q.node = node
        | none => ∀ q, (do
            let other ← firstPassing .standard p name isAttribute t
            pure (other.getD (missing p name isAttribute .whole t))) = Except.ok q →
            q.node = .missing name .whole isAttribute := by
      have hjoin {o : Option (List Node)} (f : List Node → Option Node) :
          o.bind f = (o.map f).join := by
        cases o <;> rfl
      rw [hjoin, ← hfirst]
      rcases firstPassing .standard p name isAttribute t with e | _ | q
      · intro q h
        cases h
      · rintro _ ⟨⟩
        rfl
      · exact ⟨q, rfl, rfl⟩
    simp only [Except.ok_bind, Except.toOption, Option.bind_eq_bind, Option.bind_some, ht.slots]
    cases v.holder? with
    | none => exact hother
    | some h =>
      dsimp only
      cases (s.slots h).has name.text with
      | true => exact ⟨_, rfl, rfl⟩
      | false => exact hother

/-- An element of a whole slot is one of those that the slot counts, or lost. -/
theorem elementOf_whole (p : Pointer) {q : Pointer} {h : Holder} {key : QName} {a : Bool}
    (name : QName) (hq : q.node = .slot h key .whole a) (isAttribute : Bool) (n : Nat) :
    (elementOf p q name isAttribute (NamedStep.place n) t).node.ComesTo s
      (s.picked q.node (some n)) := by
  rw [hq, Store.picked]
  generalize NamedStep.place n = i
  obtain ⟨q', hq', hnode⟩ : ∃ q', elementOf p q name isAttribute i t = q' ∧
      q'.node = .slot h key (.element i) a := by
    refine ⟨_, rfl, ?_⟩
    simp only [elementOf, Pointer.atIndex?, hq, Node.index, Node.atIndex?, Option.map_some,
      if_true]
    rfl
  have hrange : q'.node.isActual s = true ↔
      0 ≤ i ∧ i < (s.counted (s.slot h key.text)).length := by
    simp [hnode, Node.isActual, Node.inRange, Node.index, Store.length_slot]
  have himmediate : q'.node.immediate s = s.select (s.slot h key.text) (.element i) := by
    rw [hnode]
    rfl
  have hplain : q'.node.IsPlain := by rw [hnode]; trivial
  rw [hq']
  have hlost (hout : ∀ k : Nat, i = k → (s.counted (s.slot h key.text)).length ≤ k) :
      q'.node.IsLost s := by
    refine ⟨hplain, ?_, fun hv => Store.end_select_not_counted hout (himmediate ▸ hv)⟩
    rw [← Bool.not_eq_true, hrange]
    rintro ⟨hi, hlength⟩
    have := hout i.toNat (by omega)
    omega
  cases i with
  | negSucc k => exact hlost fun k' h => by omega
  | ofNat k =>
    cases hcounted : (s.counted (s.slot h key.text))[k]? with
    | none =>
      simp only [Node.index, Node.base, hcounted]
      refine hlost fun k' hk => ?_
      obtain rfl : k = k' := by simpa using hk
      exact List.getElem?_eq_none_iff.1 hcounted
    | some w =>
      simp only [Node.index, Node.base, hcounted]
      have hk := (List.getElem?_eq_some_iff.1 hcounted).1
      exact ⟨hplain, hrange.2 ⟨by simp, by simpa using hk⟩,
        himmediate.trans (Store.select_counted hcounted)⟩

/-- The element of a slot is what is left of it by the number. -/
theorem elementOf_eq (ht : s.SameGraph t) (p : Pointer) {q : Pointer} {h : Holder} {key : QName}
    {index : Index} {a : Bool} (name : QName) (hq : q.node = .slot h key index a)
    (hactual : q.node.isActual s = true) (isAttribute : Bool) (n : Nat) :
    (elementOf p q name isAttribute (NamedStep.place n) t).node.ComesTo s
      (s.picked q.node (some n)) := by
  cases index with
  | whole => exact elementOf_whole p name hq isAttribute n
  | element j =>
    rw [hq] at hactual ⊢
    rw [Store.picked]
    generalize NamedStep.place n = i
    have hindex : q.node.index ≠ .whole := by
      rw [hq]
      exact Index.noConfusion
    have hmoved : elementOf p q name isAttribute i t =
        if i = 0 then q else missing p name isAttribute (.element i) t := by
      rw [elementOf, if_neg hindex, ht.isActual, hq, hactual]
      simp
    rw [hmoved]
    cases i with
    | negSucc k =>
      rw [if_neg (by omega)]
      exact Node.isLost_missing ..
    | ofNat k =>
      cases k with
      | zero =>
        rw [if_pos (by rfl), hq]
        exact ⟨trivial, hactual, rfl⟩
      | succ k =>
        rw [if_neg (by simp; omega)]
        exact Node.isLost_missing ..

/-- The pointer that a step with this number moves to from its slot. -/
def moved (p slot : Pointer) (x : NamedStep) (t : Store) : Pointer :=
  match x.number with
  | none => slot
  | some n => elementOf p slot x.name x.isAttribute (NamedStep.place n) t

theorem node_moved_missing {q : Pointer} {x : NamedStep}
    (hq : q.node = .missing x.name .whole x.isAttribute) :
    (moved p q x t).node = .missing x.name
      ((x.number.map fun n => .element (NamedStep.place n)).getD .whole) x.isAttribute := by
  rw [moved]
  cases x.number with
  | none => exact hq
  | some n =>
    simp only [elementOf, Pointer.atIndex?, hq, Node.index, Node.atIndex?, Option.map_some, if_true]
    rfl

theorem result_resolveStep (env : Environment) (o : Occasion) (p : Pointer) (x : NamedStep)
    (s : Store) :
    (env.resolveStep .standard o p x.simple).result s =
      ((moved p · x (s.on o)) <$> slotOrMissing .standard p x.name x.isAttribute (s.on o), s) := by
  obtain ⟨name, isAttribute, number⟩ := x
  rw [resolveStep, Action.result_bind, Action.result_read]
  cases hslot : slotOrMissing .standard p name isAttribute (s.on o) with
  | error e => simp [NamedStep.simple, hslot]
  | ok slot =>
    cases number with
    | none => simp [NamedStep.simple, hslot, moved]
    | some n =>
      simp only [NamedStep.simple, hslot, Option.map_some, compute, Action.result_bind,
        Action.result_pure, Action.result_liftM, Action.result_get, Outcome.all]
      rfl

/-- **One step leads to what is picked of the node that its name stands for**, if there is any. -/
theorem resolveStep_eq (env : Environment) (o : Occasion) (hp : p.node.IsPlain) {x : NamedStep}
    (hx : x.name.isWildcard = false) :
    match s.step? (p.node.immediate s) x with
    | some w => ∃ q, (env.resolveStep .standard o p x.simple).result s = (.ok q, s) ∧
        q.node.IsPlain ∧ q.node.isActual s = true ∧ q.node.immediate s = w
    | none => ∀ q u, (env.resolveStep .standard o p x.simple).result s = (.ok q, u) →
        q.node.IsLost s ∧ u = s := by
  have ht := Store.SameGraph.on s o
  have hslot := slotOrMissing_eq ht hp hx x.isAttribute
  rw [result_resolveStep, Store.step?]
  cases hnamed : s.named? (p.node.immediate s) x.name x.isAttribute with
  | none =>
    rw [hnamed] at hslot
    intro q u hq
    rw [Prod.mk.injEq, Except.map_eq_ok_iff] at hq
    obtain ⟨⟨slot, hfound, rfl⟩, rfl⟩ := hq
    refine ⟨?_, rfl⟩
    rw [node_moved_missing (hslot slot hfound)]
    exact Node.isLost_missing ..
  | some node =>
    rw [hnamed] at hslot
    obtain ⟨q, hfound, rfl⟩ := hslot
    obtain ⟨h, key, index, a, hnode, hactual⟩ := Store.named?_slot hnamed
    rw [hfound, Option.bind_some]
    cases hnumber : x.number with
    | none =>
      have hmoved : moved p q x (s.on o) = q := by rw [moved, hnumber]
      exact ⟨q, by simp [hmoved], by rw [hnode]; trivial, hactual, rfl⟩
    | some n =>
      have hmoved : moved p q x (s.on o) =
          elementOf p q x.name x.isAttribute (NamedStep.place n) (s.on o) := by
        rw [moved, hnumber]
      have helement := elementOf_eq ht p x.name hnode hactual x.isAttribute n
      rw [← hmoved] at helement
      cases hpicked : s.picked q.node (some n) with
      | none =>
        rw [hpicked] at helement
        intro q' u hq'
        simp only [Except.map_ok, Prod.mk.injEq, Except.ok.injEq] at hq'
        exact ⟨hq'.1 ▸ helement, hq'.2.symm⟩
      | some w =>
        rw [hpicked] at helement
        exact ⟨_, rfl, helement⟩

/-! ## A whole path -/

variable {env : Environment} {o : Occasion} {xs : List NamedStep}

/-- What is lost stays lost. -/
theorem isLost_of_resolve (hxs : ∀ x ∈ xs, x.name.isWildcard = false) (hp : p.node.IsLost s)
    {q : Pointer} {u : Store}
    (h : (env.resolve .standard o p (xs.map NamedStep.simple)).result s = (.ok q, u)) :
    q.node.IsLost s := by
  induction xs generalizing o p with
  | nil =>
    simp only [List.map_nil, resolve, Action.result_pure, Prod.mk.injEq, Except.ok.injEq] at h
    exact h.1 ▸ hp
  | cons x xs ih =>
    rw [List.forall_mem_cons] at hxs
    rw [List.map_cons, resolve, Action.result_bind_eq_ok_iff] at h
    obtain ⟨next, t, hnext, h⟩ := h
    have hstep := resolveStep_eq (s := s) env (o.part 0) hp.plain hxs.1
    rw [Store.step?, Store.named?_eq_none fun _ => hp.null] at hstep
    obtain ⟨hlost, rfl⟩ := hstep next t hnext
    exact ih hxs.2 hlost h

/-- **A simple path leads to what it comes to**, if it comes to anything. -/
theorem resolve_eq (env : Environment) (o : Occasion)
    (hxs : ∀ x ∈ xs, x.name.isWildcard = false) (hp : p.node.IsPlain)
    (hactual : p.node.isActual s = true) :
    match s.resolve? (p.node.immediate s) xs with
    | some w => ∃ q, (env.resolve .standard o p (xs.map NamedStep.simple)).result s = (.ok q, s) ∧
        q.node.isActual s = true ∧ q.node.immediate s = w
    | none => ∀ q u, (env.resolve .standard o p (xs.map NamedStep.simple)).result s = (.ok q, u) →
        q.node.IsLost s := by
  induction xs generalizing o p with
  | nil => exact ⟨p, rfl, hactual, rfl⟩
  | cons x xs ih =>
    rw [List.forall_mem_cons] at hxs
    have hstep := resolveStep_eq (s := s) env (o.part 0) hp hxs.1
    rw [Store.resolve?, List.map_cons, resolve]
    cases hw : s.step? (p.node.immediate s) x with
    | none =>
      rw [hw] at hstep
      intro q u h
      rw [Action.result_bind_eq_ok_iff] at h
      obtain ⟨next, t, hnext, h⟩ := h
      obtain ⟨hlost, rfl⟩ := hstep next t hnext
      exact isLost_of_resolve hxs.2 hlost h
    | some w =>
      rw [hw] at hstep
      obtain ⟨next, hnext, hplain, hnode, rfl⟩ := hstep
      rw [Option.bind_some, Action.result_bind_ok hnext]
      exact ih (o.part 1) hxs.2 hplain hnode

end Environment

/-- The root holds its object. -/
theorem Context.StartsAt.holds {ctx : Context} {root : Holder} (h : ctx.StartsAt root) (s : Store) :
    ctx.env.root.node.IsPlain ∧ ctx.env.root.node.isActual s = true ∧
      ctx.env.root.node.immediate s = root.value := by
  rw [h.node]
  cases root <;> exact ⟨trivial, rfl, rfl⟩

/-- A strict context gives the pointer that a simple path leads to, if it exists. -/
theorem CompiledPath.result_getPointer_simple {ctx : Context} {start : Start} {steps : List Step}
    {isAbsolute : Bool} {slots : List SimpleStep} (c : CompiledPath) (s : Store)
    (hstrict : ctx.env.lenient = false) (hc : c.expr.value = .path start steps)
    (hpath : simplePath? start steps = some (isAbsolute, slots)) :
    (c.getPointer ctx .standard).result s =
      match (ctx.env.resolve .standard (s.now.part 0)
        (if isAbsolute then ctx.env.root else ctx.here) slots).result s with
      | (.ok q, u) => (if q.node.isActual u then .ok q else .error c.notFound, u)
      | (.error e, u) => (.error e, u) := by
  rw [getPointer, single, Environment.single, hc]
  simp only [Action.result_bind, Action.result_get, hpath]
  rcases (ctx.env.resolve .standard (s.now.part 0)
    (if isAbsolute then ctx.env.root else ctx.here) slots).result s with ⟨e | q, u⟩
  · rfl
  · simp [hstrict]

/-- **A strict context finds a simple path exactly if the path comes to a value**, and finds it at a
pointer that holds that value. -/
theorem CompiledPath.getPointer_simple {ctx : Context} {c : CompiledPath} {s : Store}
    {root : Holder} {start : Start} {xs : List NamedStep} {v : Value} (hctx : ctx.StartsAt root)
    (hstrict : ctx.env.lenient = false) (hstart : ∀ e, start ≠ .value e)
    (hc : c.expr.value = .path start (xs.map NamedStep.step))
    (hxs : ∀ x ∈ xs, x.name.isWildcard = false) :
    (∃ q, (c.getPointer ctx .standard).result s = (.ok q, s) ∧ q.node.immediate s = v) ↔
      s.resolve? root.value xs = some v := by
  obtain ⟨isAbsolute, hpath⟩ : ∃ isAbsolute,
      simplePath? start (xs.map NamedStep.step) = some (isAbsolute, xs.map NamedStep.simple) := by
    cases start with
    | value e => exact absurd rfl (hstart e)
    | _ => exact ⟨_, by rw [simplePath?, simplePath?_named hxs]; rfl⟩
  have hfrom : (if isAbsolute then ctx.env.root else ctx.here) = ctx.env.root := by
    rw [hctx.here, ite_self]
  obtain ⟨hplain, hexists, hvalue⟩ := hctx.holds s
  have hresolve := Environment.resolve_eq ctx.env (s.now.part 0) hxs hplain hexists
  rw [hvalue] at hresolve
  rw [c.result_getPointer_simple s hstrict hc hpath, hfrom]
  cases hvalue : s.resolve? root.value xs with
  | none =>
    rw [hvalue] at hresolve
    refine iff_of_false ?_ (Option.some_ne_none v).symm
    rintro ⟨q, hq, -⟩
    rcases h : (ctx.env.resolve .standard (s.now.part 0) ctx.env.root
      (xs.map NamedStep.simple)).result s with ⟨e | q', u⟩
    · simp [h] at hq
    · have hlost := hresolve q' u h
      simp only [h, Prod.mk.injEq] at hq
      rw [hq.2, hlost.actual] at hq
      simp at hq
  | some w =>
    rw [hvalue] at hresolve
    obtain ⟨q, hq, hactual, rfl⟩ := hresolve
    simp [hq, hactual]

end PathQuery
