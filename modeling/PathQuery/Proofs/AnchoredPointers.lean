import PathQuery.Proofs.ClosedGraphs
import PathQuery.Proofs.SoughtChains

/-!
# Pointers whose objects are there

In a closed graph, whatever is found from a pointer whose objects are in the store leads through
objects that are in the store too.

* names: `Node.place?`, `Node.IsAnchored`, `Pointer.IsAnchored`, `Store.Grows`.
* `knows_end`: what a node shows is there. `of_mem_children`, `of_mem_attributes`: so are the
  objects below it.
* **`resolve_anchored`**: a simple path leads to a pointer whose objects are there, even if the
  functions that its predicates call fill the graph.
-/

namespace PathQuery

/-! ## What is found in a closed graph -/

namespace Store

variable {s t : Store} {v w : Value} {n : Nat} {index : Index}

theorem SameGraph.noDangling (h : s.SameGraph t) (hs : s.NoDangling) : t.NoDangling := by
  obtain ⟨now, roots, rfl⟩ := h
  rintro v ⟨e, he⟩ o ho
  have hheld : e.value? s = some v := by
    rcases e with _ | ⟨_ | _, _⟩ | _ | _ <;> exact he
  have hhas := hs v ⟨e, hheld⟩ o ho
  cases o <;> exact hhas

namespace NoDangling

variable (hs : s.NoDangling)
include hs

theorem knows_endUpTo? (hv : s.Knows v) (h : s.endUpTo? n v = some w) : s.Knows w := by
  induction n generalizing v with
  | zero => cases v <;> cases h
  | succ n ih =>
    cases v with
    | cell c => exact ih (hs _ ⟨.content c, rfl⟩) h
    | foreign f => cases h
    | _ =>
      obtain rfl := Option.some.inj h
      exact hv

theorem knows_select (hv : s.Knows v) (index : Index) : s.Knows (s.select v index) := by
  generalize hw : s.select v index = w
  by_cases hnull : w = .null
  · rw [hnull]
    exact s.knows_null
  · cases selects_of_select hw hnull with
    | whole | sole => exact hv
    | @item _ k l _ _ _ hitem =>
      have hknows := hs.knows_item l k
      rwa [List.getD_eq_getElem?_getD, hitem] at hknows

end NoDangling

/-- From a closed graph one comes to a closed graph in which blanks may have been filled. -/
def Grows (s t : Store) : Prop := s.NoDangling → t.NoDangling ∧ s.FilledTo t

instance : IsPreorder Store Grows where
  refl s hs := ⟨hs, .refl s⟩
  trans _ _ _ hst htu hs := ⟨(htu (hst hs).1).1, (hst hs).2.trans (htu (hst hs).1).2⟩

end Store

/-! ## Anchored nodes -/

/-- The place of the object whose slot or item a node is, or of the object that it is itself. -/
def Node.place? : Node → Option Place
  | slot h .. => some h.place
  | items l .. => some (.list l)
  | map id _ => some (.map id)
  | bean id _ => some (.bean id)
  | cell id _ => some (.cell id)
  | _ => none

/-- The node is one that the standard registry makes, and its object is in the store. -/
structure Node.IsAnchored (s : Store) (n : Node) : Prop where
  plain : n.IsPlain
  has : ∀ o, n.place? = some o → s.Has o

/-- All nodes of the chain are anchored. -/
def Pointer.IsAnchored (s : Store) (p : Pointer) : Prop := ∀ n ∈ p.nodes, n.IsAnchored s

variable {s t : Store} {n : Node} {p q : Pointer} {h : Holder} {v : Value}

namespace Node.IsAnchored

theorem of_has (hn : n.IsAnchored s) (hst : ∀ o, s.Has o → t.Has o) : n.IsAnchored t :=
  ⟨hn.plain, fun o ho => hst o (hn.has o ho)⟩

theorem of_no_place (hplain : n.IsPlain) (hn : n.place? = none) : n.IsAnchored s :=
  ⟨hplain, fun o ho => by rw [hn] at ho; cases ho⟩

theorem missing (name : QName) (index : Index) (a : Bool) :
    (Node.missing name index a).IsAnchored s := .of_no_place trivial rfl

theorem slot (hh : s.Has h.place) (name : QName) (index : Index) (a : Bool) :
    (Node.slot h name index a).IsAnchored s :=
  ⟨trivial, fun _ heq => Option.some.inj heq ▸ hh⟩

theorem atIndex? (hn : n.IsAnchored s) {index : Index} {m : Node}
    (hm : n.atIndex? index = some m) : m.IsAnchored s := by
  cases n with
  | slot h name i a =>
    cases hm
    exact slot (hn.has _ rfl) ..
  | missing | var =>
    cases hm
    exact of_no_place trivial rfl
  | items l name i =>
    cases hm
    exact ⟨trivial, hn.has⟩
  | _ => cases hm

/-- What a node holds is there. -/
theorem knows_immediate (hn : n.IsAnchored s) (hs : s.NoDangling) : s.Knows (n.immediate s) := by
  cases n with
  | slot h name index a => exact hs.knows_select (hs.knows_slot h name.text) index
  | missing name index a =>
    rw [show (Node.missing name index a).immediate s = .null from Store.select_null s index]
    exact s.knows_null
  | var scope name index =>
    refine hs.knows_select ?_ index
    rw [Node.base]
    cases hget : (s.scopes.get scope).get? name.text with
    | none => exact s.knows_null
    | some v => exact hs v ⟨.binding scope name.text, hget⟩
  | items l name index =>
    cases index with
    | whole => exact Store.knows_of_place? rfl (hn.has _ rfl)
    | element i =>
      cases hk : (Index.element i).place? with
      | none =>
        have himm : (Node.items l name (.element i)).immediate s = .null := by
          simp [Node.immediate, hk]
        exact himm ▸ s.knows_null
      | some k =>
        have himm : (Node.items l name (.element i)).immediate s =
            (s.lists.get l).getD k .null := by
          simp [Node.immediate, hk, List.getD_eq_getElem?_getD]
        exact himm ▸ hs.knows_item l k
  | map id => exact Store.knows_of_place? rfl (hn.has _ rfl)
  | bean id => exact Store.knows_of_place? rfl (hn.has _ rfl)
  | cell c => exact hs _ ⟨.content c, rfl⟩
  | leaf v =>
    refine Store.knows_of_no_place ?_
    have hscalar : v.isScalar = true := hn.plain
    cases v <;> first | rfl | cases hscalar
  | null => exact s.knows_null
  | element | markupText => exact absurd hn.plain id

/-- What a node shows is there. -/
theorem knows_end (hn : n.IsAnchored s) (hs : s.NoDangling) (hend : n.end? s = some v) :
    s.Knows v := by
  rw [Node.end?_eq hn.plain] at hend
  exact hs.knows_endUpTo? (hn.knows_immediate hs) hend

end Node.IsAnchored

/-! ## Anchored pointers -/

namespace Pointer

namespace IsAnchored

theorem node (hp : p.IsAnchored s) : p.node.IsAnchored s := hp _ (List.mem_cons_self ..)

theorem of_has (hp : p.IsAnchored s) (hst : ∀ o, s.Has o → t.Has o) : p.IsAnchored t := fun n hn =>
  (hp n hn).of_has hst

theorem child (hp : p.IsAnchored s) (o : Occasion) (hn : n.IsAnchored s) :
    (p.child o n).IsAnchored s := List.forall_mem_cons.2 ⟨hn, hp⟩

theorem parent? (hp : p.IsAnchored s) (hq : p.parent? = some q) : q.IsAnchored s := by
  obtain ⟨visit, above, locale⟩ := p
  cases above with
  | nil => cases hq
  | cons parent above =>
    obtain rfl := Option.some.inj hq
    exact fun n hn => hp n (List.mem_cons_of_mem _ hn)

theorem atIndex? (hp : p.IsAnchored s) {index : Index} (hq : p.atIndex? t index = some q) :
    q.IsAnchored s := by
  obtain ⟨m, hm, rfl⟩ := Option.map_eq_some_iff.1 hq
  exact List.forall_mem_cons.2 ⟨hp.node.atIndex? hm, (List.forall_mem_cons.1 hp).2⟩

/-- The object in the value pointer is in the store. -/
theorem has_of_valuePointer (hp : p.IsAnchored s) (hs : s.NoDangling)
    (hq : p.valuePointer s .standard = .ok q) (hh : q.node.holder? = some h) : s.Has h.place :=
  (hp.node.knows_end hs (end_of_holder? hp.node.plain hq hh)).holder

theorem item (hp : p.IsAnchored s) {l : Nat} (hlist : s.Has (.list l)) (name : Option QName)
    (i : Nat) : (p.item s l name i).IsAnchored s := by
  rcases item_cases (s := s) p l name i with ⟨-, hq⟩ | ⟨-, -, -, -, -, -, hq⟩
  · rw [hq]
    exact hp.child _ ⟨trivial, fun _ ho => Option.some.inj ho ▸ hlist⟩
  · exact hp.atIndex? hq

theorem of_isChild (hp : p.IsAnchored s) (hs : s.NoDangling) (hq : IsChild s p q) :
    q.IsAnchored s := by
  induction hq with
  | @slot p h node hend hnode =>
    obtain ⟨key, v, -, hnode⟩ := Store.mem_childNodes.1 hnode
    obtain ⟨index, rfl⟩ := Store.mem_slotNodes hnode
    exact hp.child _ (.slot (hp.node.knows_end hs hend |>.holder) ..)
  | item hend _ _ ih => exact ih (hp.item (hp.node.knows_end hs hend _ rfl) _ _)

theorem of_mem_children (hp : p.IsAnchored s) (hs : s.NoDangling) {cs : List Pointer}
    (hcs : p.children s .standard = .ok cs) (hq : q ∈ cs) : q.IsAnchored s :=
  hp.of_isChild hs (isChild_of_mem hp.node.plain hcs hq)

theorem of_mem_attributes (hp : p.IsAnchored s) (hs : s.NoDangling) {cs : List Pointer}
    (hcs : p.attributes s .standard = .ok cs) (hq : q ∈ cs) : q.IsAnchored s := by
  rw [attributes_eq hp.node.plain] at hcs
  obtain ⟨v, hv, hcs⟩ := Except.bind_eq_ok_iff.1 hcs
  rw [value_eq_ok_iff hp.node.plain] at hv
  obtain rfl := Except.ok.inj hcs
  obtain ⟨node, hnode, rfl⟩ := List.mem_map.1 hq
  cases hh : v.holder? with
  | none => simp [hh] at hnode
  | some h =>
    obtain ⟨name, rfl⟩ := Store.mem_attributeNodes (s := s) (h := h) (by simpa [hh] using hnode)
    rw [Holder.value_of_holder? hh] at hv
    exact hp.child _ (.slot (hp.node.knows_end hs hv |>.holder) ..)

theorem of_slot? (hp : p.IsAnchored s) (hs : s.NoDangling) {name : QName} {a : Bool}
    (hq : p.slot? s .standard name a = .ok (some q)) : q.IsAnchored s := by
  rw [slot?_eq hp.node.plain] at hq
  obtain ⟨v, hv, hq⟩ := Except.bind_eq_ok_iff.1 hq
  rw [value_eq_ok_iff hp.node.plain] at hv
  cases hh : v.holder? with
  | none =>
    rw [hh] at hq
    cases hq
  | some h =>
    rw [hh] at hq
    rw [Holder.value_of_holder? hh] at hv
    dsimp only at hq
    split at hq
    · obtain rfl := Option.some.inj (Except.ok.inj hq)
      exact hp.child _ (.slot (hp.node.knows_end hs hv |>.holder) ..)
    · cases hq

end IsAnchored

end Pointer

/-! ## Simple paths -/

namespace Environment

variable {env : Environment} {o : Occasion}

theorem slotOrMissing_anchored (hp : p.IsAnchored s) (hs : s.NoDangling) {name : QName} {a : Bool}
    (hq : slotOrMissing .standard p name a s = .ok q) : q.IsAnchored s := by
  have hmissing : (missing p name a .whole s).IsAnchored s := hp.child _ (.missing ..)
  rw [slotOrMissing] at hq
  obtain ⟨slot, hslot, hq⟩ := Except.bind_eq_ok_iff.1 hq
  cases slot with
  | some slot =>
    obtain rfl := Except.ok.inj hq
    exact hp.of_slot? hs hslot
  | none =>
    obtain ⟨other, hother, hq⟩ := Except.bind_eq_ok_iff.1 hq
    obtain rfl := Except.ok.inj hq
    cases other with
    | none => exact hmissing
    | some c =>
      cases a with
      | true =>
        obtain ⟨cs, hcs, hfind⟩ := Except.bind_eq_ok_iff.1 hother
        exact hp.of_mem_attributes hs hcs (List.mem_of_find?_eq_some (Except.ok.inj hfind))
      | false =>
        obtain ⟨cs, hcs, hfind⟩ := Except.bind_eq_ok_iff.1 hother
        exact hp.of_mem_children hs hcs (List.mem_of_find?_eq_some (Except.ok.inj hfind))

theorem elementOf_anchored (hp : p.IsAnchored s) (hq : q.IsAnchored s) (name : QName) (a : Bool)
    (i : Int) (t : Store) : (elementOf p q name a i t).IsAnchored s := by
  have hother : (if i = 0 && q.node.isActual t then q else missing p name a (.element i) t).IsAnchored
      s := by
    split
    · exact hq
    · exact hp.child _ (.missing ..)
  rw [elementOf]
  split
  · next q' hmoved =>
    split at hmoved
    · exact hq.atIndex? hmoved
    · cases hmoved
  · exact hother

/-- **A step leads to a pointer whose objects are there.** -/
theorem resolveStep_anchored (hkeep : env.FunctionsKeep Store.Grows) (hs : s.NoDangling)
    (hp : p.IsAnchored s) {x : SimpleStep}
    (hq : (env.resolveStep .standard o p x).result s = (.ok q, t)) : q.IsAnchored t := by
  have hon : s.SameGraph (s.on o) := .on s o
  have hpon : p.IsAnchored (s.on o) := hp.of_has fun place hplace => (hon.has_iff place).2 hplace
  rw [resolveStep] at hq
  obtain ⟨slot, s', hslot, hq⟩ := Action.result_bind_eq_ok_iff.1 hq
  rw [Action.result_read, Prod.mk.injEq] at hslot
  obtain ⟨hslot, rfl⟩ := hslot
  have hslotAnchored : slot.IsAnchored s :=
    (slotOrMissing_anchored hpon (hon.noDangling hs) hslot).of_has fun place hplace =>
      (hon.has_iff place).1 hplace
  cases hindex : x.index with
  | none =>
    rw [hindex] at hq
    cases hq
    exact hslotAnchored
  | some e =>
    rw [hindex] at hq
    obtain ⟨outcome, u, houtcome, hq⟩ := Action.result_bind_eq_ok_iff.1 hq
    obtain ⟨a, u', ha, hq⟩ := Action.result_bind_eq_ok_iff.1 hq
    rw [Action.result_liftM, Prod.mk.injEq] at ha
    obtain ⟨-, rfl⟩ := ha
    rw [Action.result_bind_ok (Action.result_get u)] at hq
    have hgrows := compute_keeps (r := .standard) hkeep e { node := p, occasion := o.part 0 } s
    rw [houtcome] at hgrows
    have hhas := (hgrows hs).2.has
    have hpu := hp.of_has hhas
    cases a with
    | number x =>
      cases hq
      exact elementOf_anchored hpu (hslotAnchored.of_has hhas) _ _ _ _
    | _ =>
      dsimp only at hq
      split at hq
      · cases hq
        exact hslotAnchored.of_has hhas
      · cases hq
        exact hpu.child _ (.missing ..)

/-- **A simple path leads to a pointer whose objects are there.** -/
theorem resolve_anchored (hkeep : env.FunctionsKeep Store.Grows) (hs : s.NoDangling)
    (hp : p.IsAnchored s) {xs : List SimpleStep}
    (hq : (env.resolve .standard o p xs).result s = (.ok q, t)) : q.IsAnchored t := by
  induction xs generalizing o p s with
  | nil =>
    cases hq
    exact hp
  | cons x xs ih =>
    rw [resolve] at hq
    obtain ⟨next, u, hnext, hq⟩ := Action.result_bind_eq_ok_iff.1 hq
    have hgrows := resolveStep_keeps (r := .standard) hkeep (o.part 0) p x s
    rw [hnext] at hgrows
    exact ih (hgrows hs).1 (resolveStep_anchored hkeep hs hp hnext) hq

end Environment

end PathQuery
