import PathQuery.Proofs.ChildLists

/-!
# The chains of children

The children of a pointer are fixed by its chain, and so is the place of a child among those of its
name, if only first items of lists lie between the two.

* names: `Store.chainView`, `Store.chainsUpTo`, `ChildChain`, `Index.offset`, `Segment.deepen`.
* **`toOption_chains`**: the chains of the children. **`placed_of_mem`**: where a child stands among
  those of its name. **`ChildChain.addressed`**: the address of a child.
-/

namespace PathQuery

/-! ## Children of a chain -/

namespace Store

/-- Pointers and their children are seen as their chains. -/
def chainView : View (List Node) (List Node) where
  shown? s ns := ns.head?.bind (·.end? s)
  item _ ns l i := .items l (ns.head?.bind Node.name?) (.element i) :: ns
  child ns node := node :: ns

/-- The chains of children, through at most `n` lists that are items of lists. -/
abbrev chainsUpTo (s : Store) (n : Nat) (ns : List Node) : Option (List (List Node)) :=
  chainView.below s n ns

theorem shows_chainView (s t : Store) : chainView.Shows s t
    (fun p => p.node.IsPlain ∧ p.isWholeCollection t = false) Pointer.nodes Pointer.nodes where
  plain hp := hp.1
  shown? _ := rfl
  item {p l i} hp _ _ := by
    have hitem : p.item t l p.node.name? i =
        p.child t.now (.items l p.node.name? (.element i)) := by simp [Pointer.item, hp.2]
    rw [hitem]
    exact ⟨⟨trivial, rfl⟩, rfl⟩
  child _ _ _ := rfl

/-- **The chain of a pointer fixes the chains of its children.** -/
theorem toOption_chains {s t : Store} {p : Pointer} (ht : s.SameGraph t) (n : Nat)
    (hp : p.node.IsPlain) (hwhole : p.isWholeCollection t = false) :
    (p.childrenUpTo t .standard n).toOption.map (List.map Pointer.nodes) =
      s.chainsUpTo n p.nodes :=
  Pointer.toOption_childrenUpTo ht (shows_chainView s t) n ⟨hp, hwhole⟩

end Store

/-! ## Where a child stands -/

/-- The place of an index among the nodes of one slot. -/
def Index.offset : Index → Nat
  | whole => 0
  | element i => i.toNat

/-- The chain ends at a slot of this name. -/
def isNamed (name : String) : List Node → Bool
  | .slot _ slot _ _ :: _ => slot = .bare name
  | _ => false

/-- A chain goes on, through items of lists, to a slot of an object. -/
inductive ChildChain (s : Store) : List Node → List Nat → String → Index → List Node → Prop
  | slot {n : Node} {ns : List Node} {h : Holder} {name : String} {v : Value} {index : Index}
    (hend : n.end? s = some h.value) (hentry : (s.slots h).get? name = some v)
    (hnode : .slot h (.bare name) index false ∈ s.slotNodes h name v) :
    ChildChain s (n :: ns) [] name index (.slot h (.bare name) index false :: n :: ns)
  | item {n : Node} {ns ms : List Node} {l i : Nat} {is : List Nat} {name : String} {index : Index}
    (hend : n.end? s = some (.list l)) (hi : i < (s.lists.get l).length)
    (hrest : ChildChain s (.items l n.name? (.element i) :: n :: ns) is name index ms) :
    ChildChain s (n :: ns) (i :: is) name index ms

namespace Store

variable {s : Store} {h : Holder} {name : String} {v : Value} {index : Index}

theorem getElem?_slotNodes (hnode : .slot h (.bare name) index false ∈ s.slotNodes h name v) :
    (s.slotNodes h name v)[index.offset]? = some (.slot h (.bare name) index false) := by
  rw [mem_slotNodes_iff] at hnode
  rw [slotNodes]
  split at hnode
  · next hitems =>
    subst hnode
    rw [hitems]
    rfl
  · next items hitems =>
    obtain ⟨i, hi, rfl⟩ := hnode
    rw [hitems]
    simp [Index.offset, hi]

/-- The children of one name are the nodes of one slot. -/
theorem filter_childNodes (hentry : (s.slots h).get? name = some v) (ns : List Node) :
    ((s.childNodes h).map (· :: ns)).filter (isNamed name) =
      (s.slotNodes h name v).map (· :: ns) := by
  have hnamed (name' : String) (index : Index) :
      isNamed name (.slot h (.bare name') index false :: ns) = decide (name' = name) := by
    simp [isNamed, QName.bare]
  rw [filter_map_childNodes hnamed, hentry]

/-- Where a chain stands among the chains of children. -/
def Placed (s : Store) (ns : List Node) (css : List (List Node)) (ms : List Node) : Prop :=
  ∃ is name index, ChildChain s ns is name index ms ∧
    ((∀ i ∈ is, i = 0) → (css.filter (isNamed name))[index.offset]? = some ms)

/-- A slot of an object stands at its own index among the slots of its name. -/
theorem placed_slot {n : Node} {ns ms : List Node} {v : Value} (hend : n.end? s = some v)
    (hm : ms ∈ ((v.holder?.map s.childNodes).getD []).map (· :: n :: ns)) :
    s.Placed (n :: ns) (((v.holder?.map s.childNodes).getD []).map (· :: n :: ns)) ms := by
  obtain ⟨node, hnode, rfl⟩ := List.mem_map.1 hm
  cases hh : v.holder? with
  | none => simp [hh] at hnode
  | some h =>
    rw [Holder.value_of_holder? hh] at hend
    rw [hh] at hnode
    obtain ⟨name, w, hentry, hnode⟩ := mem_childNodes.1 hnode
    obtain ⟨index, rfl⟩ := mem_slotNodes hnode
    have hentry := Table.get?_eq_some_iff.2 hentry
    refine ⟨[], name, index, .slot hend hentry hnode, fun _ => ?_⟩
    show (((s.childNodes h).map (· :: n :: ns)).filter (isNamed name))[index.offset]? = _
    rw [filter_childNodes hentry, List.getElem?_map, getElem?_slotNodes hnode]
    rfl

theorem placed_of_mem_with {inner : List Node → Option (List (List Node))} {ns ms : List Node}
    {css : List (List Node)}
    (hinner : ∀ {ns css ms}, inner ns = some css → ms ∈ css → s.Placed ns css ms)
    (h : chainView.belowWith s inner ns = some css) (hm : ms ∈ css) : s.Placed ns css ms := by
  rw [View.belowWith] at h
  obtain ⟨v, hend, h⟩ := Option.bind_eq_some_iff.1 h
  cases ns with
  | nil => simp [chainView] at hend
  | cons n ns =>
    have hend : n.end? s = some v := hend
    cases v with
    | list l =>
      obtain ⟨csss, hcsss, h⟩ := Option.bind_eq_some_iff.1 h
      obtain rfl := Option.some.inj h
      cases hlength : (s.lists.get l).length with
      | zero =>
        rw [hlength] at hcsss
        obtain rfl : [] = csss := Option.some.inj hcsss
        simp at hm
      | succ k =>
        rw [hlength, List.range_succ_eq_map, List.map_cons, List.mapM_cons] at hcsss
        obtain ⟨first, hfirst, hcsss⟩ := Option.bind_eq_some_iff.1 hcsss
        obtain ⟨rest, hrest, hcsss⟩ := Option.bind_eq_some_iff.1 hcsss
        obtain rfl := Option.some.inj hcsss
        rw [List.flatten_cons] at hm ⊢
        rcases List.mem_append.1 hm with hm | hm
        · obtain ⟨is, name, index, hchain, hplace⟩ := hinner hfirst hm
          refine ⟨0 :: is, name, index, .item hend (by omega) hchain, fun his => ?_⟩
          have hplace := hplace fun i hi => his i (List.mem_cons_of_mem _ hi)
          rw [List.filter_append, List.getElem?_append_left]
          · exact hplace
          · exact (List.getElem?_eq_some_iff.1 hplace).1
        · obtain ⟨css, hcss, hm⟩ := List.mem_flatten.1 hm
          obtain ⟨items, hitems, hcss⟩ := mem_of_mapM hrest hcss
          obtain ⟨i, hi, rfl⟩ := List.mem_map.1 hitems
          obtain ⟨j, hj, rfl⟩ := List.mem_map.1 hi
          obtain ⟨is, name, index, hchain, -⟩ := hinner hcss hm
          refine ⟨(j + 1) :: is, name, index, .item hend ?_ hchain, fun his => ?_⟩
          · have := List.mem_range.1 hj
            omega
          · exact absurd (his (j + 1) (List.mem_cons_self ..)) (by omega)
    | _ =>
      obtain rfl := Option.some.inj h
      exact placed_slot hend hm

/-- **A child below first items stands at its own index among the children of its name.** -/
theorem placed_of_mem {n : Nat} {ns ms : List Node} {css : List (List Node)}
    (h : s.chainsUpTo n ns = some css) (hm : ms ∈ css) : s.Placed ns css ms := by
  induction n generalizing ns css ms with
  | zero =>
    refine placed_of_mem_with (fun h hm => ?_) h hm
    obtain rfl := Option.some.inj h
    simp at hm
  | succ n ih => exact placed_of_mem_with ih h hm

end Store

/-! ## Addresses of children -/

namespace Segment

/-- Steps with numbers added to the last one. -/
def deepen (gs : List Segment) (ns : List Nat) : List Segment :=
  gs.dropLast ++ (gs.getLast?.map fun g => ⟨g.name, g.places ++ ns⟩).toList

theorem deepen_append (gs : List Segment) (g : Segment) (ns : List Nat) :
    deepen (gs ++ [g]) ns = gs ++ [⟨g.name, g.places ++ ns⟩] := by
  simp [deepen]

theorem deepen_nil_right (gs : List Segment) : deepen gs [] = gs := by
  rcases List.eq_nil_or_concat' gs with rfl | ⟨gs, g, rfl⟩
  · rfl
  · rw [deepen_append, List.append_nil]

theorem deepen_deepen (gs : List Segment) (ns ms : List Nat) :
    deepen (deepen gs ns) ms = deepen gs (ns ++ ms) := by
  rcases List.eq_nil_or_concat' gs with rfl | ⟨gs, g, rfl⟩
  · rfl
  · simp only [deepen_append, List.append_assoc]

end Segment

/-- The node is no item of a list that is an item, or the first one. -/
def Node.isFirstItem : Node → Bool
  | items _ _ (.element i) => i == 0
  | _ => true

namespace ChildChain

variable {s : Store} {root : Holder} {ns ms : List Node} {is : List Nat} {name : String}
  {index : Index} {gs : List Segment}

/-- **A child has one step more in its address**; the items passed on the way to it add their
numbers to the step before. -/
theorem addressed (h : ChildChain s ns is name index ms) (ha : Addressed s root ns gs) :
    Addressed s root ms (Segment.deepen gs (is.map (· + 1)) ++ [⟨name, index.places⟩]) := by
  induction h generalizing gs with
  | slot hend hentry hnode =>
    rw [List.map_nil, Segment.deepen_nil_right]
    exact .slot ha hend hentry hnode
  | @item n ns ms l i is name index hend hi _ ih =>
    obtain ⟨gs, last, places, rfl⟩ := ha.exists_last hend
    have hitem := ih (.item ha hend hi)
    rwa [← Segment.deepen_append gs ⟨last, places⟩ [i + 1], Segment.deepen_deepen] at hitem

/-- A chain of first items goes on from a chain of first items. -/
theorem isFirstItem (h : ChildChain s ns is name index ms)
    (hms : ∀ n ∈ ms, n.isFirstItem = true) :
    (∀ i ∈ is, i = 0) ∧ ∀ n ∈ ns, n.isFirstItem = true := by
  induction h with
  | slot => exact ⟨by simp, fun n hn => hms n (List.mem_cons_of_mem _ hn)⟩
  | item _ _ _ ih =>
    obtain ⟨his, hns⟩ := ih hms
    have hfirst := hns _ (List.mem_cons_self ..)
    simp only [Node.isFirstItem, beq_iff_eq, Int.natCast_eq_zero] at hfirst
    refine ⟨?_, fun n hn => hns n (List.mem_cons_of_mem _ hn)⟩
    simpa [hfirst] using his

/-- Items are passed on the way only below a list. -/
theorem end?_of_ne_nil (h : ChildChain s ns is name index ms) (his : is ≠ []) :
    ∃ n ∈ ns.head?, ∃ l, n.end? s = some (.list l) := by
  cases h with
  | slot => exact absurd rfl his
  | item hend => exact ⟨_, rfl, _, hend⟩

theorem head_eq (h : ChildChain s ns is name index ms) :
    ∃ holder above, ms = .slot holder (.bare name) index false :: above := by
  induction h with
  | slot => exact ⟨_, _, rfl⟩
  | item _ _ _ ih => exact ih

end ChildChain

end PathQuery
