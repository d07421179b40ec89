import PathQuery.Proofs.Standing

/-!
# What a path is resolved to and what is created

A path that enters no list is resolved to a chain that stands as far as there is something, and is
missing from there on. Creating the chain makes it stand.

* names: `Pointer.putChild`; `Standing.refers`, `Sought.last_cases`.
* **`resolve_sought`**: what a path is resolved to.
* **`createAt_standing`**: a chain that was created stands, and its creation has only filled.
-/

namespace PathQuery

variable {s t : Store} {root h : Holder} {n : Node} {ns : List Node} {xs ys : List NamedStep}
variable {x : NamedStep} {v w : Value}

/-- The last node of a chain is the slot of its step in the object above, or it is missing and the
object above, if any, has no such slot. -/
theorem Sought.last_cases (hn : Sought s root (n :: ns) (xs ++ [x])) :
    (∃ h : Holder, n = .slot h x.name x.index false ∧ Standing s root (n :: ns) (xs ++ [x])) ∨
      ∃ m ms, ns = m :: ms ∧ n = .missing x.name x.index false ∧ Sought s root ns xs ∧
        ∀ h : Holder, m.end? s = some h.value → (s.slots h).has x.name.text = false := by
  generalize hchain : n :: ns = chain at hn
  generalize hpath : xs ++ [x] = path at hn
  cases hn with
  | root => simp at hpath
  | @slot m ms ys h y hm hend =>
    obtain ⟨rfl, rfl⟩ := List.cons.inj hchain
    obtain ⟨rfl, hxy⟩ := List.append_inj' hpath rfl
    obtain rfl := List.head_eq_of_cons_eq hxy
    exact .inl ⟨h, rfl, (hm.standing hend h.value_ne_null).slot hend⟩
  | @missing m ms ys y hm hno =>
    obtain ⟨rfl, rfl⟩ := List.cons.inj hchain
    obtain ⟨rfl, hxy⟩ := List.append_inj' hpath rfl
    obtain rfl := List.head_eq_of_cons_eq hxy
    exact .inr ⟨m, ms, rfl, rfl, hm, hno⟩

/-! ## What something holds -/

namespace Store

variable {n : Nat} {index : Index}

theorem holds_of_endUpTo? (hv : ∃ e : Entry, e.value? s = some v) (h : s.endUpTo? n v = some w) :
    ∃ e : Entry, e.value? s = some w := by
  induction n generalizing v with
  | zero => cases v <;> cases h
  | succ n ih =>
    cases v with
    | cell c => exact ih ⟨.content c, rfl⟩ h
    | foreign f => cases h
    | _ =>
      obtain rfl := Option.some.inj h
      exact hv

theorem holds_of_select (hv : ∃ e : Entry, e.value? s = some v) (hnull : s.select v index ≠ .null) :
    ∃ e : Entry, e.value? s = some (s.select v index) := by
  generalize hw : s.select v index = w at hnull ⊢
  cases selects_of_select hw hnull with
  | whole | sole => exact hv
  | @item _ k l _ _ _ hitem => exact ⟨.item l k, hitem⟩

end Store

/-- An object in a chain is the root or held by something. -/
theorem Standing.refers (hn : Standing s root (n :: ns) xs) (hroot : s.Has root.place)
    (hend : n.end? s = some h.value) : s.Refers h := by
  cases hn with
  | root =>
    left
    rw [Node.end?_eq root.isPlain_node] at hend
    cases root <;> cases h <;> cases hend <;> exact hroot
  | @slot m ms xs h' x hm hend' =>
    right
    rw [Node.end?_eq (by trivial)] at hend
    have hselected : s.select (s.slot h' x.name.text) x.index ≠ .null := by
      intro hnull
      have himm : (Node.slot h' x.name x.index false).immediate s = .null := hnull
      rw [himm] at hend
      exact h.value_ne_null (Option.some.inj hend).symm
    have hheld : s.slot h' x.name.text ≠ .null := by
      intro hnull
      rw [hnull, Store.select_null] at hselected
      exact hselected rfl
    exact Store.holds_of_endUpTo?
      (Store.holds_of_select ⟨_, Store.value?_slot rfl hheld⟩ hselected) hend

/-! ## Resolving a path -/

namespace Environment

variable {env : Environment} {o : Occasion} {p q : Pointer} {u : Store}

/-- Where no list is entered, no child but the slot of an unqualified name passes it. -/
theorem firstPassing_eq_none {name : QName} {other : Option Pointer} (ht : s.SameGraph t)
    (hp : p.node.IsPlain) (hproper : name.isWildcard = false) (hname : name.qualifier = none)
    (hlist : ∀ l, p.node.end? s ≠ some (.list l))
    (hno : ∀ h : Holder, p.node.end? s = some h.value → (s.slots h).has name.text = false)
    (hfirst : firstPassing .standard p name false t = .ok other) : other = none := by
  obtain ⟨cs, hcs, hfind⟩ := Except.bind_eq_ok_iff.1 hfirst
  cases other with
  | none => rfl
  | some c =>
    have hfound := Except.ok.inj hfind
    have hchild := Pointer.isChild_of_mem hp hcs (List.mem_of_find?_eq_some hfound)
    have hpasses := List.find?_some hfound
    cases hchild with
    | @slot _ h node hend hnode =>
      rw [ht.end?] at hend
      obtain ⟨key, v, hentry, hnode⟩ := Store.mem_childNodes.1 hnode
      obtain ⟨index, rfl⟩ := Store.mem_slotNodes hnode
      rw [ht.slots] at hentry
      have hkey : key = name.text := by
        rw [Pointer.passes_name rfl hproper] at hpasses
        rw [QName.text, hname]
        exact of_decide_eq_true hpasses
      have hhas : (s.slots h).has name.text = true :=
        Table.has_iff_get?.2 ⟨v, Table.get?_eq_some_iff.2 (hkey ▸ hentry)⟩
      rw [hno h hend] at hhas
      cases hhas
    | item hend =>
      rw [ht.end?] at hend
      exact absurd hend (hlist _)

/-- Where no list is entered, the slot of a name is that of the object, or it is missing. -/
theorem slotOrMissing_sought (ht : s.SameGraph t) (hp : p.node.IsPlain) (hx : x.IsBare)
    (hlist : ∀ l, p.node.end? s ≠ some (.list l))
    (hq : slotOrMissing .standard p x.name false t = .ok q) :
    (∃ h : Holder, p.node.end? s = some h.value ∧
        q = p.child t.now (.slot h x.name .whole false)) ∨
      (∀ h : Holder, p.node.end? s = some h.value → (s.slots h).has x.name.text = false) ∧
        q = p.child t.now (.missing x.name .whole false) := by
  have hmissing (hno : ∀ h : Holder, p.node.end? s = some h.value →
      (s.slots h).has x.name.text = false) (hq : (do
        let other ← firstPassing .standard p x.name false t
        pure (other.getD (missing p x.name false .whole t))) = Except.ok q) :
      q = p.child t.now (.missing x.name .whole false) := by
    obtain ⟨other, hfirst, hq⟩ := Except.bind_eq_ok_iff.1 hq
    obtain rfl := firstPassing_eq_none ht hp hx.proper hx.unqualified hlist hno hfirst
    exact (Except.ok.inj hq).symm
  rw [slotOrMissing, Pointer.slot?_eq hp] at hq
  simp only [bind_assoc] at hq
  obtain ⟨v, hv, hq⟩ := Except.bind_eq_ok_iff.1 hq
  rw [Pointer.value_eq_ok_iff hp, ht.end?] at hv
  have hunique (h : Holder) (hend : p.node.end? s = some h.value) : v.holder? = some h := by
    rw [hv] at hend
    rw [Option.some.inj hend, Holder.holder?_value]
  cases hholder : v.holder? with
  | none =>
    have hno (h : Holder) (hend : p.node.end? s = some h.value) :
        (s.slots h).has x.name.text = false := by
      rw [hunique h hend] at hholder
      cases hholder
    rw [hholder] at hq
    exact .inr ⟨hno, hmissing hno hq⟩
  | some h =>
    rw [hholder] at hq
    dsimp only at hq
    rw [ht.slots] at hq
    split at hq
    · exact .inl ⟨h, Holder.value_of_holder? hholder ▸ hv, (Except.ok.inj hq).symm⟩
    · next hhas =>
      have hno (h' : Holder) (hend : p.node.end? s = some h'.value) :
          (s.slots h').has x.name.text = false := by
        rw [hunique h' hend] at hholder
        obtain rfl := Option.some.inj hholder
        exact Bool.eq_false_of_not_eq_true hhas
      exact .inr ⟨hno, hmissing hno hq⟩

/-- A step's number moves to another node at the same place of the chain. -/
theorem nodes_moved {slot : Pointer} {node : Node} (hwhole : slot.node.index = .whole)
    (hnode : slot.node.atIndex? x.index = some node) (t : Store) :
    (moved p slot x t).nodes = node :: slot.above.map Visit.node := by
  rw [moved]
  cases hnumber : x.number with
  | none =>
    have hindex : x.index = .whole := by rw [NamedStep.index, hnumber]; rfl
    have hsame : slot.node = node := by
      rw [hindex] at hnode
      cases hslot : slot.node <;> simp_all [Node.atIndex?, Node.index]
    rw [← hsame]
    exact Pointer.nodes_eq slot
  | some n =>
    have hindex : x.index = .element (NamedStep.place n) := by
      rw [NamedStep.index, hnumber]
      rfl
    rw [hindex] at hnode
    dsimp only
    rw [elementOf, if_pos hwhole, Pointer.atIndex?, hnode]
    rfl

/-- Where no list is entered, none is after a step. -/
theorem entersNoList_of_resolveStep (hp : p.node.IsPlain) (hx : x.name.isWildcard = false)
    (hlists : s.EntersNoList (p.node.immediate s) (x :: ys))
    (hq : (env.resolveStep .standard o p x.simple).result s = (.ok q, u)) :
    q.node.IsPlain ∧ s.EntersNoList (q.node.immediate s) ys ∧ u = s := by
  have hstep := resolveStep_eq (s := s) env o hp hx
  cases hw : s.step? (p.node.immediate s) x with
  | none =>
    rw [hw] at hstep
    obtain ⟨hlost, hu⟩ := hstep q u hq
    exact ⟨hlost.plain, Store.entersNoList_of_null fun _ => hlost.null, hu⟩
  | some w =>
    rw [hw] at hstep
    obtain ⟨q', hq', hplain, -, himm⟩ := hstep
    rw [hq, Prod.mk.injEq, Except.ok.injEq] at hq'
    obtain ⟨rfl, rfl⟩ := hq'
    rw [himm]
    exact ⟨hplain, hlists.2 w hw, rfl⟩

/-- **Where no list is entered, a step leads on along the chain.** -/
theorem resolveStep_sought (hp : Sought s root p.nodes xs) (hx : x.IsBare)
    (hlists : s.EntersNoList (p.node.immediate s) (x :: ys))
    (hq : (env.resolveStep .standard o p x.simple).result s = (.ok q, u)) :
    Sought s root q.nodes (xs ++ [x]) ∧ s.EntersNoList (q.node.immediate s) ys ∧ u = s := by
  rw [Pointer.nodes_eq] at hp
  have hplain := hp.isPlain
  obtain ⟨-, hnext, -⟩ := entersNoList_of_resolveStep hplain hx.proper hlists hq
  rw [result_resolveStep, Prod.mk.injEq, Except.map_eq_ok_iff, hx.child] at hq
  obtain ⟨⟨slot, hslot, rfl⟩, rfl⟩ := hq
  refine ⟨?_, hnext, rfl⟩
  have hlist (l : Nat) : p.node.end? s ≠ some (.list l) := by
    rw [Node.end?_eq hplain]
    exact hlists.1 l
  rcases slotOrMissing_sought (.on s o) hplain hx hlist hslot with ⟨h, hend, rfl⟩ | ⟨hno, rfl⟩
  · rw [nodes_moved rfl rfl]
    exact .slot hp hend
  · rw [nodes_moved rfl rfl]
    exact .missing hp hno

/-- **What a path is resolved to, where no list is entered.** -/
theorem resolve_sought (hp : Sought s root p.nodes xs) (hys : ∀ y ∈ ys, y.IsBare)
    (hlists : s.EntersNoList (p.node.immediate s) ys)
    (hq : (env.resolve .standard o p (ys.map NamedStep.simple)).result s = (.ok q, u)) :
    Sought s root q.nodes (xs ++ ys) ∧ u = s := by
  induction ys generalizing o p xs with
  | nil =>
    simp only [List.map_nil, resolve, Action.result_pure, Prod.mk.injEq, Except.ok.injEq] at hq
    obtain ⟨rfl, rfl⟩ := hq
    exact ⟨by rwa [List.append_nil], rfl⟩
  | cons y ys ih =>
    rw [List.forall_mem_cons] at hys
    rw [List.map_cons, resolve, Action.result_bind_eq_ok_iff] at hq
    obtain ⟨next, u', hnext, hq⟩ := hq
    obtain ⟨hsought, hrest, rfl⟩ := resolveStep_sought hp hys.1 hlists hnext
    rw [List.append_cons]
    exact ih hsought hys.2 hrest hq

end Environment

/-! ## Creating a path -/

namespace Pointer

open PathQuery.Action

variable {factory : Option ObjectFactory} {p q : Pointer} {name : QName} {index : Index} {u : Store}

/-- The object in the value pointer is the one that the pointer shows. -/
theorem end_of_holder? {target : Pointer} (hp : p.node.IsPlain)
    (htarget : p.valuePointer s .standard = .ok target) (hh : target.node.holder? = some h) :
    p.node.end? s = some h.value := by
  cases hend : p.node.end? s with
  | none =>
    obtain ⟨e, he⟩ := valuePointer_of_no_end hend
    rw [he] at htarget
    cases htarget
  | some v =>
    obtain ⟨target', htarget', -, hnode⟩ := valuePointer_of_end hp hend
    rw [htarget] at htarget'
    obtain rfl := Except.ok.inj htarget'
    rcases hnode with hnode | ⟨rfl, hkind, rfl⟩
    · rw [hnode] at hh
      cases v <;> cases hh <;> rfl
    · cases hnode : target.node <;> simp_all [Node.kind, Node.holder?]

/-- What is done to the slot of a new child: its value is set, or the slot is made. -/
def putChild (factory : Option ObjectFactory) (child : Pointer) (h : Holder) (name : QName) :
    Option Value → Action Unit
  | some v => child.setSlot h name v
  | none => child.createSlot factory h name

/-- A child is created in the object that the pointer shows. -/
theorem createChild_eq_ok (hp : p.node.IsPlain) {value : Option Value}
    (hq : (p.createChild .standard factory name index value).result s = (.ok q, t)) :
    ∃ h : Holder, p.node.end? s = some h.value ∧ q = p.child s.now (.slot h name index false) ∧
      (putChild factory q h name value).result s = (.ok (), t) := by
  unfold createChild at hq
  rw [result_bind_eq_ok_iff] at hq
  obtain ⟨target, s', htarget, hq⟩ := hq
  rw [result_read, Prod.mk.injEq] at htarget
  obtain ⟨htarget, rfl⟩ := htarget
  dsimp only at hq
  split at hq
  · next h hh =>
    refine ⟨h, end_of_holder? hp htarget hh, ?_⟩
    have hslot (hq : (do
        let child := p.child (← get).now (.slot h name index false)
        putChild factory child h name value
        pure child : Action Pointer).result s = (.ok q, t)) :
        q = p.child s.now (.slot h name index false) ∧
          (putChild factory q h name value).result s = (.ok (), t) := by
      rw [result_bind_ok (result_get s)] at hq
      obtain ⟨_, t', ht, hq⟩ := result_bind_eq_ok_iff.1 hq
      rw [result_pure, Prod.mk.injEq, Except.ok.injEq] at hq
      obtain ⟨rfl, rfl⟩ := hq
      exact ⟨rfl, ht⟩
    cases value <;>
    · split at hq
      · rw [result_bind_ok (result_get s)] at hq
        split at hq
        · cases hq
        · exact hslot hq
      · exact hslot hq
  · obtain ⟨s', t', -, hq⟩ := result_bind_eq_ok_iff.1 hq
    cases hq

/-- **A chain that was created stands**, and its creation has only filled. -/
theorem createAt_standing (hf : ∀ f ∈ factory, f.Keeps Store.Adds) (hroot : s.Has root.place)
    {visit : Visit} {above : List Visit} {locale : Locale}
    (hp : Sought s root (nodes { visit, above, locale }) xs)
    (hq : (createAt .standard factory locale visit above).result s = (.ok q, t)) :
    s.FilledTo t ∧ Standing t root q.nodes xs := by
  generalize hnodes : nodes { visit, above, locale } = chain at hp
  induction hp generalizing visit above q t with
  | root =>
    have hnode : visit.node = root.value.node none := (List.cons.inj hnodes).1
    have hsame : createAt .standard factory locale visit above = pure { visit, above, locale } := by
      unfold createAt
      cases root <;> rw [hnode] <;> rfl
    rw [hsame, result_pure, Prod.mk.injEq, Except.ok.injEq] at hq
    obtain ⟨rfl, rfl⟩ := hq
    rw [hnodes]
    exact ⟨.refl s, .root⟩
  | @slot n ns xs h x hn hend _ =>
    have hnode : visit.node = .slot h x.name x.index false := (List.cons.inj hnodes).1
    have hstanding := hn.standing hend h.value_ne_null
    unfold createAt at hq
    rw [hnode] at hq
    obtain ⟨_, u, hu, hq⟩ := result_bind_eq_ok_iff.1 hq
    rw [result_pure, Prod.mk.injEq, Except.ok.injEq] at hq
    obtain ⟨rfl, rfl⟩ := hq
    have hfilled : s.FilledTo ((createSlot factory { visit, above, locale } h x.name).result s).2 :=
      createSlot_filledTo hf (hstanding.refers hroot hend)
    rw [hu] at hfilled
    rw [hnodes]
    exact ⟨hfilled, (hstanding.slot hend).of_kept fun _ _ e _ => hfilled.kept e⟩
  | @missing n ns xs x hn _ ih =>
    obtain ⟨hnode, habove⟩ := List.cons.inj hnodes
    cases above with
    | nil => cases habove
    | cons parent above =>
      unfold createAt at hq
      rw [show visit.node = _ from hnode] at hq
      obtain ⟨q', u, hq', hq⟩ := result_bind_eq_ok_iff.1 hq
      obtain ⟨hsu, hstanding⟩ := ih hq' habove
      rw [nodes_eq] at hstanding
      rw [if_neg Bool.false_ne_true] at hq
      obtain ⟨h, hend, rfl, hslot⟩ := createChild_eq_ok hstanding.isPlain hq
      have hfilled : u.FilledTo t := by
        let child : Pointer := q'.child u.now (.slot h x.name x.index false)
        have hput : u.FilledTo ((child.createSlot factory h x.name).result u).2 :=
          createSlot_filledTo hf (hstanding.refers (hsu.has _ hroot) hend)
        rw [putChild] at hslot
        rwa [hslot] at hput
      have hafter := (hstanding.slot (x := x) hend).of_kept fun _ _ e _ => hfilled.kept e
      rw [nodes_eq]
      exact ⟨hsu.trans hfilled, hafter⟩

end Pointer

end PathQuery
