import PathQuery.Proofs.CreatedPointers

/-!
# Creation once and again

Creating a path twice is creating it once, as long as the path leads along the same chain the second
time.

* **`createPath_again`**: to create a path again changes nothing.
* `Recreates`, **`createPath_again_differs`**: it does where the path leads elsewhere by then, or to
  a node that is made otherwise.
-/

namespace PathQuery

namespace CompiledPath

variable {s t u : Store} {ctx : Context} {c : CompiledPath} {start : Start} {steps : List Step}
variable {isAbsolute : Bool} {slots : List SimpleStep} {ks : List Choice} {p : Pointer}

/-- **Creating a path twice is creating it once**, if its steps name slots, it meets no missing
attribute, and its index expressions choose the same both times. -/
theorem createPath_again (hctx : ctx.IsAnchored s) (hfactory : ctx.env.factory? = none)
    (hmakers : s.Constructive) (hc : c.expr.value = .path start steps)
    (hpath : simplePath? start steps = some (isAbsolute, slots))
    (hfound : (startOf ctx isAbsolute).node.isMissing = false)
    (hslots : ctx.env.NamesSlots s (s.now.part 0) (startOf ctx isAbsolute) slots)
    (hattr : ∀ q u, (c.creationTarget ctx .standard).result s = (.ok q, u) →
      ∀ n ∈ q.nodes, n.isMissing = true → n.isAttribute = false)
    (hks : ctx.env.Chooses s (s.now.part 0) (startOf ctx isAbsolute) slots ks)
    (hp : (c.createPath ctx .standard).result s = (.ok p, t)) (htu : t.SameGraph u)
    (hks' : ctx.env.Chooses u (u.now.part 0) (startOf ctx isAbsolute) slots ks) :
    ∃ q v, (c.createPath ctx .standard).result u = (.ok q, v) ∧ t.SameGraph v := by
  obtain ⟨⟨hstands, hmade, -, -⟩, hreached⟩ :=
    createPath_stands hctx hfactory hmakers hc hpath hfound hslots hks hattr hp
  have hbase : ∀ n ∈ (startOf ctx isAbsolute).nodes, n.IsPlain := by
    intro n hn
    rw [startOf] at hn
    split at hn
    · exact (hctx.root n hn).plain
    · exact (hctx.here n hn).plain
  have hstandsU : Stands u (startOf ctx isAbsolute).nodes p.nodes (Link.along slots ks ++ []) := by
    rw [List.append_nil]
    exact hstands.congr htu
  obtain ⟨target, v, htarget, huv, hled⟩ :=
    Environment.resolve_stands hks' .base hbase hstandsU
  rw [List.append_nil] at hled
  have htv := htu.trans huv
  obtain ⟨q, hq, -⟩ := Pointer.createAt_again ctx.env.factory? hbase hled
    (hstands.congr htv) (by rintro _ ⟨⟩; exact hmade.congr htv) hreached
  rw [← result_creationTarget hc hpath] at htarget
  exact ⟨q, v, by rw [createPath, Action.result_bind_ok htarget]; exact hq, htv⟩

/-- The wire of the second bulb is made once. -/
theorem createPath_again_desk : ∃ p q t v,
    ((pathOf "/lamp/bulb[2]/wire" wireSteps).createPath deskContext .standard).result desk =
        (.ok p, t) ∧
      t.beans.size = 2 ∧ t.lists.size = 1 ∧ t.maps.size = 2 ∧
      ((pathOf "/lamp/bulb[2]/wire" wireSteps).createPath deskContext .standard).result t =
        (.ok q, v) ∧ t.SameGraph v := by
  let c := pathOf "/lamp/bulb[2]/wire" wireSteps
  obtain ⟨p, t, hp, hbeans, hlists, hmaps⟩ : ∃ p t,
      (c.createPath deskContext .standard).result desk = (.ok p, t) ∧ t.beans.size = 2 ∧
        t.lists.size = 1 ∧ t.maps.size = 2 :=
    Action.exists_result_ok (by decide +kernel) (by decide +kernel)
  have hstarts : deskContext.StartsAt (.bean 0) := ⟨rfl, rfl, rfl⟩
  have hctx : deskContext.IsAnchored desk :=
    hstarts.isAnchored noDangling_desk (Nat.zero_lt_succ 0)
  have hbase : ∀ n ∈ deskContext.env.root.nodes, n.IsPlain :=
    List.forall_mem_singleton.2 trivial
  have hnames := Environment.namesSlots_of_entersNoList isBare_wireSteps (by decide) .base hbase
    (entersNoList_desk (desk.now.part 0))
  have hattr (q : Pointer) (u : Store)
      (hq : (c.creationTarget deskContext .standard).result desk = (.ok q, u)) :
      ∀ n ∈ q.nodes, n.isMissing = true → n.isAttribute = false := by
    have hall : ∀ q ∈ ((c.creationTarget deskContext .standard).result desk).1.toOption,
        ∀ n ∈ q.nodes, n.isMissing = true → n.isAttribute = false := by decide +kernel
    rw [hq] at hall
    exact hall q rfl
  obtain ⟨q, v, hq, htv⟩ := createPath_again (c := c) hctx rfl constructive_desk rfl rfl rfl hnames
    hattr (Environment.chooses_of_isBare isBare_wireSteps) hp (.refl t)
    (Environment.chooses_of_isBare isBare_wireSteps)
  exact ⟨p, q, t, v, hp, hbeans, hlists, hmaps, hq, htv⟩

/-! ### Paths that lead elsewhere the second time -/

/-- A map with a list of maps and a bean whose constructor makes a list; a variable holds the map
too. -/
def annex : Store where
  lists := ⟨#[[.map 1]]⟩
  maps := ⟨#[.ofList [("rows", .list 0), ("whole", .bean 0)], .ofList [("b", .null)]]⟩
  beans := ⟨#[{ type := "Whole", properties := .ofList [("part", .null)],
                makers := .ofList [("part", .list [])] }]⟩
  scopes := ⟨#[.ofList [("v", .map 0)]]⟩

/-- A context at the map. -/
def annexContext : Context :=
  let root : Pointer := { visit := { node := .map 0 none, occasion := {} } }
  { env := { root, locale := {}, lenient := false, own := { scope := 0 } }, here := root }

/-- The path can be created. To create it again fails or changes the graph. -/
def Recreates (c : CompiledPath) : Prop :=
  ∃ p t, (c.createPath annexContext .standard).result annex = (.ok p, t) ∧
    ∀ q u, (c.createPath annexContext .standard).result t = (.ok q, u) → ¬ t.SameGraph u

/-- The number of children of the map counts which of the spare places is made. -/
def sparePath : CompiledPath where
  source := "/spare[count($v/*)]"
  expr :=
    { id := 0
      value := .path .root [.mk .child (.name (.bare "spare"))
        [.call (.bare "count") [.path (.value (.variable (.bare "v")))
          [.mk .child (.name (.bare "*")) []]]]] }

theorem recreates_of_results {c : CompiledPath}
    (hok : ((c.createPath annexContext .standard).result annex).1.toOption.isSome = true)
    (hagain : let t := ((c.createPath annexContext .standard).result annex).2
      ((c.createPath annexContext .standard).result t).1.toOption.isSome = true →
        ((c.createPath annexContext .standard).result t).2.lists.places ≠ t.lists.places ∨
          ((c.createPath annexContext .standard).result t).2.maps.size ≠ t.maps.size) :
    Recreates c := by
  obtain ⟨p, t, hp, ht⟩ : ∃ p t, (c.createPath annexContext .standard).result annex = (.ok p, t) ∧
      t = ((c.createPath annexContext .standard).result annex).2 :=
    Action.exists_result_ok hok fun _ _ => rfl
  refine ⟨p, t, hp, fun q u hq htu => ?_⟩
  rw [← ht] at hagain
  dsimp only at hagain
  rw [hq] at hagain
  rcases hagain rfl with hlists | hmaps
  · exact hlists (congrArg Pool.places htu.lists)
  · exact hmaps (by obtain ⟨_, _, rfl⟩ := htu; rfl)

set_option maxRecDepth 8192 in
/-- To create a path again is to create another one where its index expression counts what was
created, where a step goes below a list, where a bean constructs a list, and where an attribute was
missing, which is null at first. -/
theorem createPath_again_differs :
    Grammar.parse "/spare[count($v/*)]" = .ok sparePath.expr.value ∧ Recreates sparePath ∧
      Recreates (pathOf "/rows/b[2]" [childStep "rows", childStep "b" (some 2)]) ∧
      Recreates (pathOf "/whole/part[1]" [childStep "whole", childStep "part" (some 1)]) ∧
      Recreates (pathOf "/@tag" [{ name := .bare "tag", isAttribute := true }]) :=
  ⟨by with_unfolding_all rfl, recreates_of_results (by decide +kernel) (by decide +kernel),
    recreates_of_results (by decide +kernel) (by decide +kernel),
    recreates_of_results (by decide +kernel) (by decide +kernel),
    recreates_of_results (by decide +kernel) (by decide +kernel)⟩

end CompiledPath

end PathQuery
