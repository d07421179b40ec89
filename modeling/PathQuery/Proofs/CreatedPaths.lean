import PathQuery.Proofs.BareSteps

/-!
# Paths that have been created

Once a path has been created the chain of its slots stands, and creation leaves it as it is.

* names: `AttributesFound`, `Pointer.IsCreated`.
* **`createAt_stands`**: a chain that was created stands, and its last node is made.
  **`createAt_again`**: to create it again changes nothing.
* **`createPath_stands`**: the chain of a path that was created stands.
-/

namespace PathQuery

variable {s t u : Store} {base ns ms : List Node} {n : Node} {xs : List Link} {x : Link}
variable {h : Holder} {v w : Value}

/-- A node that shows something is made. -/
theorem Node.isMade_of_end (hn : n.IsPlain) (hend : n.end? s = some w) (hw : w ≠ .null) :
    n.IsMade s := by
  rw [end?_eq hn] at hend
  cases n with
  | slot h name index a => exact .of_end hend hw
  | missing name index a =>
    rw [← end?_eq hn, end?_of_isMissing rfl] at hend
    exact absurd (Option.some.inj hend).symm hw
  | var scope name index =>
    by_contra hno
    have hget : (s.scopes.get scope).get? name.text = none := by
      rw [Table.get?_eq_none_iff, ← Table.has_iff]
      exact hno
    have himm : (Node.var scope name index).immediate s = .null := by
      show s.select (((s.scopes.get scope).get? name.text).getD .null) index = .null
      rw [hget]
      exact s.select_null index
    rw [himm] at hend
    exact hw (Option.some.inj hend).symm
  | items l name index =>
    cases index with
    | whole => trivial
    | element i =>
      cases hk : (Index.element i).place? with
      | none =>
        have himm : (Node.items l name (.element i)).immediate s = .null := by
          simp [Node.immediate, hk]
        rw [himm] at hend
        exact absurd (Option.some.inj hend).symm hw
      | some k =>
        refine .item hk rfl fun hitem => ?_
        have himm : (Node.items l name (.element i)).immediate s = .null := by
          rw [List.getD_eq_getElem?_getD] at hitem
          simp [Node.immediate, hk, hitem]
        rw [himm] at hend
        exact hw (Option.some.inj hend).symm
  | _ => trivial

/-- Every attribute is reached, through slots of which something was chosen. -/
def AttributesFound : List Link → Prop
  | [] => True
  | x :: xs => (x.isAttribute = true → ∀ y ∈ x :: xs, y.choice ≠ .nothing) ∧ AttributesFound xs

/-- If no attribute is missing in a chain, all of them are reached. -/
theorem Led.attributesFound (hn : Led s base ns xs)
    (hattr : ∀ n ∈ ns, n.isMissing = true → n.isAttribute = false) : AttributesFound xs := by
  induction hn with
  | base => trivial
  | slot hn hend hhas hx ih =>
    exact ⟨fun _ => List.forall_mem_cons.2
      ⟨hx, hn.choice_ne_nothing hend (Holder.value_ne_null _)⟩, ih (List.forall_mem_cons.1 hattr).2⟩
  | missing hn hno ih =>
    obtain ⟨hchild, hattr⟩ := List.forall_mem_cons.1 hattr
    exact ⟨fun ha => Bool.noConfusion (ha.symm.trans (hchild rfl)), ih hattr⟩

namespace Pointer

open PathQuery.Action

variable {p q : Pointer} {visit : Visit} {above : List Visit} {locale : Locale}

/-- The chain of the pointer stands, its last node is made, and more can be created in the
graph. -/
structure IsCreated (t : Store) (base : List Node) (q : Pointer) (xs : List Link) : Prop where
  stands : Stands t base q.nodes xs
  made : q.node.IsMade t
  closed : t.NoDangling
  constructive : t.Constructive

/-- A node that was found where a chain stands is created there. -/
theorem createAt_found_stands (hs : s.NoDangling) (hmakers : s.Constructive)
    (hbase : ∀ n ∈ base, n.IsPlain) (hp : IsAnchored s { visit, above, locale })
    (hfound : visit.node.isMissing = false)
    (hstands : Stands s base (nodes { visit, above, locale }) xs)
    (hq : (createAt .standard none locale visit above).result s = (.ok q, t)) :
    IsCreated t base q xs := by
  have hfound' (name : QName) (index : Index) (a : Bool) : visit.node ≠ .missing name index a := by
    intro hnode
    rw [hnode] at hfound
    cases hfound
  have hanchors := createAt_anchors supplies_none locale hs hp
  obtain ⟨rfl, hmade, hmakers'⟩ := createAt_makes hs hp hmakers hfound' hq
  rw [Action.Anchors, hq] at hanchors
  exact ⟨(hstands.of_filledTo hbase hanchors.1).1, hmade, hanchors.2.1, hmakers'⟩

/-- **A chain that was created stands**, and its last node is made. -/
theorem createAt_stands (hs : s.NoDangling) (hmakers : s.Constructive)
    (hbase : ∀ n ∈ base, n.IsAnchored s) (hfound : ∀ n ∈ base.head?, n.isMissing = false)
    (hp : Led s base (nodes { visit, above, locale }) xs)
    (hattr : ∀ n ∈ nodes { visit, above, locale }, n.isMissing = true → n.isAttribute = false)
    (hq : (createAt .standard none locale visit above).result s = (.ok q, t)) :
    IsCreated t base q xs := by
  have hplain (n : Node) (hn : n ∈ base) : n.IsPlain := (hbase n hn).plain
  have hanchored : IsAnchored s { visit, above, locale } := hp.isAnchored hs hbase
  generalize hnodes : nodes { visit, above, locale } = chain at hp
  induction hp generalizing visit above q t with
  | base =>
    have hhead : visit.node.isMissing = false := hfound _ (by rw [← hnodes]; rfl)
    exact createAt_found_stands hs hmakers hplain hanchored hhead (hnodes ▸ .base) hq
  | slot hn hend hhas hx =>
    have hhead : visit.node.isMissing = false := by
      rw [show visit.node = _ from (List.cons.inj hnodes).1]
      rfl
    have hstands := (hn.stands hend (Holder.value_ne_null _)).slot hend hhas
    exact createAt_found_stands hs hmakers hplain hanchored hhead (hnodes ▸ hstands) hq
  | @missing n ns xs x hn hno ih =>
    obtain ⟨hnode, habove⟩ := List.cons.inj hnodes
    cases above with
    | nil => cases habove
    | cons parent above =>
      obtain ⟨hchild, hattr⟩ := List.forall_mem_cons.1 hattr
      have hparent : IsAnchored s { visit := parent, above, locale } := hanchored.parent? rfl
      unfold createAt at hq
      rw [show visit.node = _ from hnode] at hq
      dsimp only [Link.missing] at hq
      obtain ⟨q', u, hq', hq⟩ := result_bind_eq_ok_iff.1 hq
      obtain ⟨hstands, hmade, hclosed, hmakers'⟩ := ih hattr hq' hparent habove
      have hqAnchored : q'.IsAnchored u := by
        have hanchors := createAt_anchors supplies_none locale hs hparent
        rw [Action.Anchors, hq'] at hanchors
        exact hanchors.2.2 q' rfl
      have ha : x.isAttribute = false := by
        rw [show visit.node = _ from hnode] at hchild
        exact hchild rfl
      rw [ha, if_neg Bool.false_ne_true] at hq
      obtain ⟨h, hend, rfl, hslot⟩ := createChild_eq_ok hqAnchored.node.plain hq
      have hh : u.Has h.place := (hqAnchored.node.knows_end hclosed hend).holder
      rw [putChild] at hslot
      let child := q'.child u.now (.slot h x.name x.choice.index false)
      have hgrows : u.FilledTo ((child.createSlot none h x.name).result u).2 ∧
          ((child.createSlot none h x.name).result u).2.NoDangling :=
        createSlot_grows supplies_none hh hclosed
      have hmakers'' := createSlot_constructive child h x.name hmakers'
      rw [hslot] at hgrows hmakers''
      have hslotMade := createSlot_makes hclosed hh hmakers' hslot
      refine ⟨?_, hslotMade, hgrows.2, hmakers''⟩
      rw [nodes_eq] at hstands
      obtain ⟨hstands', -⟩ := hstands.of_filledTo hplain hgrows.1
      have hafter := hstands'.slot (x := x)
        (Node.end?_of_filledTo hqAnchored.node.plain hgrows.1 hend h.value_ne_null) hslotMade.has
      rwa [Link.slot, ha] at hafter

/-- A child whose slot is made is found when it is created. -/
theorem createChild_of_made {factory : Option ObjectFactory} {name : QName} {index : Index}
    (hp : p.node.IsPlain) (hend : p.node.end? s = some h.value)
    (hmade : s.IsMade (s.slot h name.text) index) :
    (p.createChild .standard factory name index none).result s =
      (.ok (p.child s.now (.slot h name index false)), s) := by
  obtain ⟨target, htarget, -, hnode⟩ := valuePointer_of_end hp hend
  have hholder : target.node.holder? = some h := by
    rcases hnode with hnode | ⟨-, -, hnull⟩
    · rw [hnode]
      cases h <;> rfl
    · exact absurd hnull h.value_ne_null
  have hslot : ((p.child s.now (.slot h name index false)).createSlot factory h name).result s =
      (.ok (), s) := createSlot_of_made h hmade
  have hhas := hmade.has
  unfold createChild
  rw [result_bind_ok (x := target) (by rw [result_read, htarget])]
  dsimp only
  rw [hholder]
  cases h with
  | map id =>
    dsimp only
    rw [result_bind_ok (result_get s), result_bind_ok hslot]
    rfl
  | bean id =>
    have hproperty : ((s.beans.get id).properties).has name.text = true := hhas
    dsimp only
    rw [result_bind_ok (result_get s), hproperty]
    simp only [Bool.not_true, Bool.false_eq_true, if_false]
    rw [result_bind_ok (result_get s), result_bind_ok hslot]
    rfl

/-- **To create a chain that stands changes nothing**, if no attribute of it is missing. -/
theorem createAt_again (factory : Option ObjectFactory) (hbase : ∀ n ∈ base, n.IsPlain)
    (hp : Led s base (nodes { visit, above, locale }) xs) (hstands : Stands s base ms xs)
    (hmade : ∀ n ∈ ms.head?, n.IsMade s) (hattr : AttributesFound xs) :
    ∃ q, (createAt .standard factory locale visit above).result s = (.ok q, s) ∧ q.nodes = ms := by
  by_cases hsame : nodes { visit, above, locale } = ms
  · exact ⟨_, createAt_of_made (hmade _ (by rw [← hsame]; rfl)), hsame⟩
  generalize hnodes : nodes { visit, above, locale } = chain at hp
  induction hp generalizing visit above ms with
  | base =>
    cases hstands
    exact absurd hnodes hsame
  | slot hn hend hhas hx =>
    have hchosen := hn.choice_ne_nothing hend (Holder.value_ne_null _)
    exact absurd (hnodes.trans ((hn.slot hend hhas hx).eq_of_chosen hstands
      (List.forall_mem_cons.2 ⟨hx, hchosen⟩))) hsame
  | @missing n ns xs x hn hno ih =>
    obtain ⟨hnode, habove⟩ := List.cons.inj hnodes
    cases above with
    | nil => cases habove
    | cons parent above =>
      cases hstands with
      | @slot m ms _ h _ hm hend hhas =>
        have hmplain : m.IsPlain := by
          cases hm with
          | base => exact hbase m (List.mem_cons_self ..)
          | slot => trivial
        have hmmade : ∀ n ∈ (m :: ms).head?, n.IsMade s := by
          rintro _ ⟨⟩
          exact Node.isMade_of_end hmplain hend h.value_ne_null
        obtain ⟨q, hq, hqnodes⟩ : ∃ q,
            (createAt .standard factory locale parent above).result s = (.ok q, s) ∧
              q.nodes = m :: ms := by
          by_cases hsame : nodes { visit := parent, above, locale } = m :: ms
          · exact ⟨_, createAt_of_made (hmmade _ (by rw [← hsame]; rfl)), hsame⟩
          · exact ih hm hmmade hattr.2 hsame habove
        have ha : x.isAttribute = false := by
          refine Bool.eq_false_of_not_eq_true fun ha => hsame ?_
          exact hnodes.trans ((hn.missing hno).eq_of_chosen (hm.slot hend hhas) (hattr.1 ha))
        rw [nodes_eq] at hqnodes
        obtain ⟨rfl, habove'⟩ := List.cons.inj hqnodes
        have hslot : s.IsMade (s.slot h x.name.text) x.choice.index := hmade _ rfl
        refine ⟨q.child s.now (.slot h x.name x.choice.index false), ?_, ?_⟩
        · unfold createAt
          rw [show visit.node = _ from hnode]
          dsimp only [Link.missing]
          rw [result_bind_ok hq, ha, if_neg Bool.false_ne_true]
          exact createChild_of_made hmplain hend hslot
        · rw [Link.slot, ha, ← hqnodes]
          rfl

end Pointer

/-! ## Compiled paths -/

theorem Node.IsMade.congr (hst : s.SameGraph t) (hn : n.IsMade s) : n.IsMade t := by
  have hsame : ∃ now roots, t = { s with now, roots } := hst
  obtain ⟨now, roots, rfl⟩ := hsame
  cases n with
  | slot h name index a =>
    have hslot : Store.slot { s with now, roots } h name.text = s.slot h name.text := by
      rw [Store.slot, Store.slot, hst.slots]
    exact (hslot ▸ Store.IsMade.congr hst (show s.IsMade _ _ from hn) :)
  | items l name index =>
    cases index with
    | whole => trivial
    | element i => exact Store.IsMade.congr hst (show s.IsMade _ _ from hn)
  | _ => exact hn

/-- Where a chain stands and its last node is made, that node exists. -/
theorem Stands.isActual (hn : Stands s base (n :: ns) xs)
    (hbase : ∀ n ∈ base, n.isActual s = true) (hmade : n.IsMade s) : n.isActual s = true := by
  cases hn with
  | base => exact hbase n (List.mem_cons_self ..)
  | slot => exact Store.IsMade.isActual hmade

namespace CompiledPath

variable {ctx : Context} {c : CompiledPath} {start : Start} {steps : List Step} {isAbsolute : Bool}
variable {slots : List SimpleStep} {ks : List Choice} {p q : Pointer}

/-- **The chain of a path that was created stands**, if the path meets no missing attribute. -/
theorem createPath_stands (hctx : ctx.IsAnchored s) (hfactory : ctx.env.factory? = none)
    (hmakers : s.Constructive) (hc : c.expr.value = .path start steps)
    (hpath : simplePath? start steps = some (isAbsolute, slots))
    (hfound : (startOf ctx isAbsolute).node.isMissing = false)
    (hslots : ctx.env.NamesSlots s (s.now.part 0) (startOf ctx isAbsolute) slots)
    (hks : ctx.env.Chooses s (s.now.part 0) (startOf ctx isAbsolute) slots ks)
    (hattr : ∀ q u, (c.creationTarget ctx .standard).result s = (.ok q, u) →
      ∀ n ∈ q.nodes, n.isMissing = true → n.isAttribute = false)
    (hp : (c.createPath ctx .standard).result s = (.ok p, t)) :
    p.IsCreated t (startOf ctx isAbsolute).nodes (Link.along slots ks) ∧
      AttributesFound (Link.along slots ks) := by
  have hbase : (startOf ctx isAbsolute).IsAnchored s := by
    rw [startOf]
    split
    · exact hctx.root
    · exact hctx.here
  rw [createPath] at hp
  obtain ⟨q, u, hq, hp⟩ := Action.result_bind_eq_ok_iff.1 hp
  have hattr := hattr q u hq
  rw [result_creationTarget hc hpath] at hq
  obtain ⟨hled, hsu⟩ := Environment.resolve_led .base (fun n hn => (hbase n hn).plain) hslots hks hq
  rw [List.append_nil] at hled
  have hbase' : (startOf ctx isAbsolute).IsAnchored u := hbase.of_has fun o => (hsu.has_iff o).2
  have hmakers' : u.Constructive := hmakers.of_makers fun _ => by rw [hsu.beans]
  rw [hfactory] at hp
  refine ⟨?_, hled.attributesFound hattr⟩
  refine Pointer.createAt_stands (hsu.noDangling hctx.closed) hmakers' hbase' ?_ hled hattr hp
  rintro _ ⟨⟩
  exact hfound

end CompiledPath

end PathQuery
