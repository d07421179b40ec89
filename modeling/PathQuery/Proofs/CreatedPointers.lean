import PathQuery.Proofs.CreatedPaths
import PathQuery.Proofs.Ends

/-!
# A created path exists

A path of child steps with number literals leads, once it has been created, to a pointer like the
one that its creation came to.

* **`getPointer_created`**: a strict context finds what was created.
-/

namespace PathQuery

namespace CompiledPath

variable {s t u : Store} {p : Pointer} {ctx : Context} {c : CompiledPath} {root : Holder}
variable {start : Start} {steps : List Step} {isAbsolute : Bool} {slots : List SimpleStep}

/-- **A created path exists.** A context at the root of a graph finds by the path, if it is strict,
a pointer like the one that the creation came to. -/
theorem getPointer_created (hctx : ctx.StartsAt root)
    (hfactory : ctx.env.factory? = none) (hs : s.NoDangling) (hroot : s.Has root.place)
    (hmakers : s.Constructive) (hc : c.expr.value = .path start steps)
    (hpath : simplePath? start steps = some (isAbsolute, slots))
    (hslots : ∀ x ∈ slots, x.IsBare)
    (hlists : ctx.env.EntersNoList s (s.now.part 0) ctx.env.root slots)
    (hp : (c.createPath ctx .standard).result s = (.ok p, t)) (htu : t.SameGraph u) :
    ∃ q v, (c.getPointer (ctx.withLenience false) .standard).result u = (.ok q, v) ∧
      u.SameGraph v ∧ q.node.isActual u = true ∧ q.path u = p.path u ∧
      q.value u .standard = p.value u .standard := by
  have hproper := isWildcard_of_simplePath? hpath
  have hfrom : startOf ctx isAbsolute = ctx.env.root := by rw [startOf, hctx.here, ite_self]
  have hnodes : ctx.env.root.nodes = [root.value.node none] := by
    rw [Pointer.nodes_eq, hctx.node, hctx.above]
    rfl
  have hbase : ∀ n ∈ ctx.env.root.nodes, n.IsPlain := by
    rw [hnodes]
    exact List.forall_mem_singleton.2 root.isPlain_node
  have hmissing : ctx.env.root.node.isMissing = false := by
    rw [hctx.node]
    cases root <;> rfl
  have hnames := Environment.namesSlots_of_entersNoList hslots hproper .base hbase hlists
  have hchoices {env : Environment} {s : Store} : env.Chooses s (s.now.part 0) ctx.env.root slots
      (slots.map SimpleStep.choice) := Environment.chooses_of_isBare hslots
  have hattr (q : Pointer) (u : Store)
      (hq : (c.creationTarget ctx .standard).result s = (.ok q, u)) :
      ∀ n ∈ q.nodes, n.isMissing = true → n.isAttribute = false := by
    rw [result_creationTarget hc hpath, hfrom] at hq
    have hled := (Environment.resolve_led .base hbase hnames hchoices hq).1
    rw [List.append_nil] at hled
    refine hled.isAttribute_of_isMissing (fun n hn hmissing => ?_) fun x hx => ?_
    · rw [hnodes, List.mem_singleton] at hn
      rw [hn] at hmissing
      cases root <;> cases hmissing
    · obtain ⟨y, hy, rfl⟩ := Link.mem_along hx
      exact (hslots y hy).child
  obtain ⟨⟨hstands, hmade, -, -⟩, -⟩ := createPath_stands (hctx.isAnchored hs hroot) hfactory
    hmakers hc hpath (hfrom ▸ hmissing) (hfrom ▸ hnames) (hfrom ▸ hchoices) hattr hp
  rw [hfrom] at hstands
  have hstandsU : Stands u ctx.env.root.nodes p.nodes
      (Link.along slots (slots.map SimpleStep.choice) ++ []) := by
    rw [List.append_nil]
    exact hstands.congr htu
  obtain ⟨q, v, hq, huv, hled⟩ :=
    (ctx.withLenience false).env.resolve_stands hchoices .base hbase hstandsU
  have hsame : q.nodes = p.nodes := by
    refine hled.eq_of_chosen (hstandsU.congr huv) fun x hx => ?_
    rw [List.append_nil] at hx
    obtain ⟨y, -, rfl⟩ := Link.mem_along hx
    exact y.choice_ne_nothing
  have hnode : q.node = p.node := by
    rw [Pointer.nodes_eq, Pointer.nodes_eq] at hsame
    exact (List.cons.inj hsame).1
  have hactual : q.node.isActual u = true := by
    rw [hnode]
    rw [Pointer.nodes_eq p] at hstandsU
    refine hstandsU.isActual (fun n hn => ?_) (hmade.congr htu)
    rw [hnodes, List.mem_singleton] at hn
    rw [hn]
    cases root <;> rfl
  have hpathEq : q.path u = p.path u := by rw [Pointer.path, Pointer.path, hsame]
  refine ⟨q, v, ?_, huv, hactual, hpathEq, ?_⟩
  · have hroot : (if isAbsolute then (ctx.withLenience false).env.root
        else (ctx.withLenience false).here) = ctx.env.root := hfrom
    rw [result_getPointer_simple c u rfl hc hpath, hroot, hq]
    dsimp only
    rw [huv.isActual, hactual]
    rfl
  · rw [Pointer.value_eq_shown, Pointer.value_eq_shown, hnode, hpathEq]

/-! ### A desk without a lamp -/

/-- A bean whose constructor makes a lamp for it, a bean with nothing in it. -/
def deskTemplate : Template :=
  .bean "Desk" [("drawer", .cell .null), ("lamp", .null)]
    [("lamp", .bean "Lamp" [("bulb", .null)] [] [] [])] [] []

/-- A store with the desk and nothing else. -/
def desk : Store := (deskTemplate.fresh {}).2

theorem noDangling_desk : desk.NoDangling := (deskTemplate.closes_fresh Store.noDangling_empty).1

theorem constructive_desk : desk.Constructive := by
  refine (deskTemplate.constructive_fresh trivial ?_ Store.constructive_empty).2
  simp [deskTemplate, Template.Constructs, Template.FieldsConstruct, Template.IsSolid]

/-- A strict context at the desk. -/
def deskContext : Context :=
  let root : Pointer := { visit := { node := .bean 0 none, occasion := {} } }
  { env := { root, locale := {}, lenient := false, own := { scope := 0 } }, here := root }

/-- The steps to the wire of the second bulb in the lamp. -/
def wireSteps : List NamedStep := [childStep "lamp", childStep "bulb" (some 2), childStep "wire"]

theorem entersNoList_desk (o : Occasion) :
    deskContext.env.EntersNoList desk o deskContext.env.root
      (wireSteps.map NamedStep.simple) := by
  have hlamp : desk.step? (.bean 0) (childStep "lamp") = some .null := rfl
  have hbulb : desk.step? .null (childStep "bulb" (some 2)) = none := rfl
  have hvalues : desk.EntersNoList (.bean 0) wireSteps := by
    refine ⟨fun l hl => (by cases hl), fun w hw => ?_⟩
    rw [hlamp] at hw
    obtain rfl := Option.some.inj hw
    refine ⟨fun l hl => (by cases hl), fun w hw => ?_⟩
    rw [hbulb] at hw
    cases hw
  exact Environment.entersNoList_of_values (by decide) trivial hvalues

theorem isBare_wireSteps : ∀ x ∈ wireSteps.map NamedStep.simple, x.IsBare := by
  intro x hx
  simp only [wireSteps, List.map_cons, List.map_nil, List.mem_cons, List.not_mem_nil, or_false] at hx
  rcases hx with rfl | rfl | rfl
  all_goals
    refine ⟨rfl, rfl, fun e he => ?_⟩
    cases he <;> exact ⟨_, rfl⟩

/-- The wire is made, with the lamp and two places for bulbs, and is found. -/
theorem getPointer_created_desk : ∃ p q t v,
    ((pathOf "/lamp/bulb[2]/wire" wireSteps).createPath deskContext .standard).result desk =
        (.ok p, t) ∧
      ((pathOf "/lamp/bulb[2]/wire" wireSteps).getPointer deskContext .standard).result t =
        (.ok q, v) ∧
      q.node.isActual t = true ∧ q.path t = p.path t ∧ p.path t = "/lamp/bulb[2]/wire" ∧
      q.value t .standard = p.value t .standard ∧ p.value t .standard = .ok (.map 1) := by
  obtain ⟨p, t, hp, hpath, hvalue⟩ : ∃ p t,
      ((pathOf "/lamp/bulb[2]/wire" wireSteps).createPath deskContext .standard).result desk =
          (.ok p, t) ∧
        p.path t = "/lamp/bulb[2]/wire" ∧ p.value t .standard = .ok (.map 1) :=
    Action.exists_result_ok (by decide +kernel) (by decide +kernel)
  have hctx : deskContext.StartsAt (.bean 0) := ⟨rfl, rfl, rfl⟩
  obtain ⟨q, v, hq, -, hactual, hsame, hsameValue⟩ :=
    getPointer_created hctx rfl noDangling_desk (Nat.zero_lt_succ 0) constructive_desk rfl rfl
      isBare_wireSteps (entersNoList_desk _) hp (.refl t)
  exact ⟨p, q, t, v, hp, hq, hactual, hsame, hpath, hsameValue, hvalue⟩

end CompiledPath

end PathQuery
