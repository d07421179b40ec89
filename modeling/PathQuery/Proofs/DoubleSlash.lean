import PathQuery.Proofs.Descending
import PathQuery.Proofs.DescentTexts
import PathQuery.Proofs.Grafts

/-!
# The double slash

From the root of a graph a double slash finds what the descendant axis finds. A variable is a
container that no test passes, so behind a variable the double slash does not see the slots of the
variable's own maps.

* names: `Value.IsMaps`, `Environment.variableValue?`, `Environment.BeginsAt`, `Environment.Begun`.
* `begun_root`, `begun_variable`: where a descent begins. **`evaluate_doubleSlash`**: how the two
  descents compare.
* `evaluate_doubleSlash_short`: what a double slash misses behind a variable.
-/

namespace PathQuery

open Relation (ReflTransGen TransGen)

/-- A map, or a list of maps. -/
def Value.IsMaps (s : Store) : Value → Prop
  | .map _ => True
  | .list l => ∀ w ∈ s.lists.get l, ∃ id, w = .map id
  | _ => False

namespace Environment

variable {s : Store} {env : Environment} {ps : List Pointer}

/-! ## Where a descent begins -/

/-- The value of a variable in the nearest scope that declares it. -/
def variableValue? (env : Environment) (s : Store) (name : String) : Option Value :=
  (env.scope? s name).bind fun scope => (s.scopes.get scope).get? name

/-- A text for a start, the start, and the value at which it is: the root of a graph, or a variable
with a map or a list of maps. -/
inductive BeginsAt (env : Environment) (s : Store) : String → Start → Value → Prop
  | atRoot {root : Holder} (h : env.root.nodes = [root.value.node none]) :
    BeginsAt env s "" .root root.value
  | atVariable {name : String} {v : Value} (hname : Grammar.IsName name)
    (hv : env.variableValue? s name = some v) (hmaps : v.IsMaps s) :
    BeginsAt env s ("$" ++ name) (.value (.variable (.bare name))) v

/-- The nodes that a descent starts from, and the nodes below them that are children of one that is
shown. -/
structure Begun (s : Store) (start : Start) (v : Value) (ps : List Pointer) : Prop extends
    Starts s v ps where
  shown_iff (ms : List Node) :
    (∃ p ∈ ps, ∃ ks, ReflTransGen s.HasChild p.nodes ks ∧ Shown ks ∧ s.HasChild ks ms) ↔
      (∃ p ∈ ps, TransGen s.HasChild p.nodes ms) ∧ (start = .root ∨ ¬OnTop ms)

theorem begun_root {root : Holder} (h : env.root.nodes = [root.value.node none]) :
    Begun s .root root.value [env.root] where
  single := List.forall_mem_singleton.2 ((isRow_root h).addressed _ (by simp)).isSingle
  within := List.forall_mem_singleton.2 ((isRow_root h).addressed _ (by simp)).isWithin
  paths hmany := by simp at hmany
  shown_iff ms := by
    have hroot : Shown [root.value.node none] := by cases root <;> rfl
    simp only [List.mem_singleton, exists_eq_left, true_or, and_true, h,
      Relation.TransGen.tail'_iff]
    refine exists_congr fun ks => and_congr_right fun hks => and_iff_right ?_
    rcases Relation.reflTransGen_iff_eq_or_transGen.1 hks with rfl | hbelow
    · exact hroot
    · exact shown_of_transGen hbelow

section Variable

variable {scope : Nat} {name : QName} {v : Value}

/-- The pointer stands at a map of a variable. -/
structure AtMap (s : Store) (scope : Nat) (name : QName) (v : Value) (index : Index)
    (p : Pointer) : Prop where
  nodes : p.nodes = [.var scope name index]
  map : ∃ id, (Node.var scope name index).immediate s = .map id ∧ s.Reaches v (.map id)
  single : p.isWholeCollection s = false

theorem AtMap.exists_end {index : Index} {p : Pointer} (h : AtMap s scope name v index p) :
    ∃ m : Holder, (Node.var scope name index).end? s = some m.value ∧ s.Reaches v m.value := by
  obtain ⟨id, hid, hreach⟩ := h.map
  refine ⟨.map id, ?_, hreach⟩
  show s.endUpTo? (Store.maxIndirections - 1) _ = _
  rw [hid]
  rfl

/-- A descent from the maps of a variable. -/
theorem begun_variable (hmaps : ∀ p ∈ ps, ∃ index, AtMap s scope name v index p)
    (hmany : 2 ≤ ps.length → s.NamesReached v ∧
      (s.items? ((Node.var scope name .whole).base s)).isSome = true ∧
      ∀ p ∈ ps, ∃ i : Nat, AtMap s scope name v (.element i) p)
    {start : Start} (hstart : start ≠ .root) : Begun s start v ps where
  single p hp := by
    obtain ⟨index, h⟩ := hmaps p hp
    have hnode : p.node = .var scope name index := (List.cons.inj h.nodes).1
    exact ⟨hnode ▸ trivial, h.single⟩
  within p hp := by
    obtain ⟨index, h⟩ := hmaps p hp
    have hnode : p.node = .var scope name index := (List.cons.inj h.nodes).1
    obtain ⟨id, hid, hreach⟩ := h.map
    exact ⟨hnode ▸ trivial, by rw [hnode, hid]; exact hreach⟩
  paths htwo p hp p' hp' q q' hq hshown hq' hshown' hpath := by
    obtain ⟨hnames, hitems, helements⟩ := hmany htwo
    obtain ⟨i, hi⟩ := helements p hp
    obtain ⟨j, hj⟩ := helements p' hp'
    obtain ⟨m, hm, hreach⟩ := hi.exists_end
    obtain ⟨m', hm', hreach'⟩ := hj.exists_end
    -- the start itself is a container
    have hbelow {x : Node} {ks : List Node} (hx : x.isContainer = true) (hks : Shown ks)
        (h : ReflTransGen s.HasChild [x] ks) : TransGen s.HasChild [x] ks := by
      rcases Relation.reflTransGen_iff_eq_or_transGen.1 h with rfl | h
      · rw [Shown, hx] at hks
        cases hks
      · exact h
    rw [hi.nodes] at hq
    rw [hj.nodes] at hq'
    exact Pointer.nodes_eq_of_path_eq hnames hitems hm hm' hreach hreach'
      (hbelow rfl hshown hq) (hbelow rfl hshown' hq') hpath
  shown_iff ms := by
    simp only [hstart, false_or, ← exists_and_right, and_assoc]
    refine exists_congr fun p => and_congr_right fun hp => ?_
    obtain ⟨index, h⟩ := hmaps p hp
    obtain ⟨m, hm, -⟩ := h.exists_end
    rw [h.nodes]
    exact exists_shown_iff hm rfl

/-- A variable is a collection if its value is a list. -/
theorem isWholeCollection_var {u : Store} {p : Pointer} (hu : s.SameGraph u)
    (hbase : (Node.var scope name .whole).base s = v) (hnode : p.node = .var scope name .whole) :
    p.isWholeCollection u = (s.items? v).isSome := by
  have hbase' : (Node.var scope name .whole).base u = v := by
    rw [← hbase]
    obtain ⟨_, _, rfl⟩ := hu
    rfl
  rw [Pointer.isWholeCollection, hnode, Node.isCollection, hbase', hu.items?]
  rfl

/-- A variable with a list has an element for each of its items. -/
theorem elements_var {t : Store} {p : Pointer} {l : Nat} (ht : s.SameGraph t)
    (hbase : (Node.var scope name .whole).base s = .list l)
    (hnode : p.node = .var scope name .whole) :
    p.elements t = (List.range (s.lists.get l).length).filterMap
      fun (i : Nat) => p.atIndex? t (.element i) := by
  have hitems : s.items? (.list l) = some (s.lists.get l) := rfl
  have hlength : p.node.length t = (s.lists.get l).length := by
    rw [ht.length, hnode, Node.length, hbase, hitems]
    rfl
  rw [Pointer.elements, isWholeCollection_var ht hbase hnode, hlength, hitems]
  exact if_pos rfl

/-- The elements of a variable with a list of maps are at its maps. -/
theorem atMap_of_mem_elements {t : Store} {p q : Pointer} {l : Nat} (ht : s.SameGraph t)
    (hbase : (Node.var scope name .whole).base s = .list l) (hmaps : (Value.list l).IsMaps s)
    (hp : p.nodes = [.var scope name .whole]) (hq : q ∈ p.elements t) :
    ∃ i : Nat, AtMap s scope name (.list l) (.element i) q := by
  obtain ⟨hnode, habove⟩ := List.cons.inj ((Pointer.nodes_eq p).symm.trans hp)
  rw [elements_var ht hbase hnode] at hq
  obtain ⟨i, hi, hq⟩ := List.mem_filterMap.1 hq
  have hi := List.mem_range.1 hi
  obtain ⟨node, hatIndex, hnodes⟩ := Pointer.nodes_atIndex? hq
  rw [hnode] at hatIndex
  obtain rfl := Option.some.inj hatIndex
  rw [habove] at hnodes
  obtain ⟨id, hid⟩ := hmaps _ (List.getElem_mem hi)
  have himmediate : (Node.var scope name (.element i)).immediate s = .map id := by
    have hselect : (Node.var scope name (.element i)).immediate s =
        s.select ((Node.var scope name .whole).base s) (.element i) := rfl
    have hplace : (Index.element i).place? = some i := by simp [Index.place?]
    rw [hselect, hbase, Store.select_of_list hplace rfl, List.getD_eq_getElem _ _ hi, hid]
  have hreach : s.Reaches (.list l) (.map id) :=
    Store.reaches_of_mem_held (hid ▸ List.getElem_mem hi)
  have hqnode : q.node = .var scope name (.element i) := (List.cons.inj hnodes).1
  refine ⟨i, hnodes, ⟨id, himmediate, hreach⟩, ?_⟩
  rw [Pointer.isWholeCollection, hqnode]
  rfl

/-- The elements of a variable with a map or a list of maps are where a descent begins. -/
theorem begun_elements {t : Store} {p : Pointer} (ht : s.SameGraph t)
    (hbase : (Node.var scope name .whole).base s = v) (hmaps : v.IsMaps s)
    (hp : p.nodes = [.var scope name .whole])
    (hnames : ∀ l, v = .list l → 2 ≤ (s.lists.get l).length → s.NamesReached v)
    {start : Start} (hstart : start ≠ .root) : Begun s start v (p.elements t) := by
  have hnode : p.node = .var scope name .whole :=
    (List.cons.inj ((Pointer.nodes_eq p).symm.trans hp)).1
  cases v with
  | map id =>
    have hnone : s.items? (.map id) = none := rfl
    have helements : p.elements t = [p] := by
      rw [Pointer.elements, isWholeCollection_var ht hbase hnode, hnone, if_neg (by simp)]
    rw [helements]
    refine begun_variable (List.forall_mem_singleton.2 ⟨.whole, hp, ⟨id, hbase, .refl ..⟩, ?_⟩)
      (fun hmany => by simp at hmany) hstart
    rw [isWholeCollection_var (.refl s) hbase hnode, hnone]
    rfl
  | list l =>
    have hat (q : Pointer) (hq : q ∈ p.elements t) :
        ∃ i : Nat, AtMap s scope name (.list l) (.element i) q :=
      atMap_of_mem_elements ht hbase hmaps hp hq
    refine begun_variable (fun q hq => ?_) (fun hmany => ⟨hnames l rfl ?_, ?_, hat⟩) hstart
    · obtain ⟨i, h⟩ := hat q hq
      exact ⟨_, h⟩
    · refine hmany.trans ?_
      rw [elements_var ht hbase hnode]
      exact (List.length_filterMap_le ..).trans (by simp)
    · rw [hbase]
      rfl
  | _ => exact absurd hmaps id

end Variable

/-- The nodes that a descent starts from. -/
theorem exists_begun {x : String} {start : Start} {v : Value} (h : env.BeginsAt s x start v)
    (hnames : ∀ l, v = .list l → 2 ≤ (s.lists.get l).length → s.NamesReached v) (focus : Focus) :
    ∃ ps, (env.startNodes .standard start focus).result s = (.ok (.ofList ps), s) ∧
      Begun s start v ps := by
  cases h with
  | atRoot h => exact ⟨_, by rw [startNodes, Action.result_pure], begun_root h⟩
  | @atVariable name v hname hv hmaps =>
    obtain ⟨scope, hscope, hv⟩ := Option.bind_eq_some_iff.1 hv
    let p : Pointer :=
      { visit := { node := .var scope (.bare name) .whole, occasion := focus.occasion },
        locale := env.locale }
    have hp : env.variablePointer (s.on focus.occasion) (.bare name) = .ok p := by
      have hscope' : env.scope? (s.on focus.occasion) (QName.bare name).text = some scope := hscope
      rw [variablePointer, variablePointer?, hscope']
      rfl
    have hbase : (Node.var scope (.bare name) .whole).base s = v := by
      show ((s.scopes.get scope).get? name).getD .null = v
      rw [hv]
      rfl
    refine ⟨p.elements (s.on focus.occasion), ?_,
      begun_elements (.on s focus.occasion) hbase hmaps rfl hnames nofun⟩
    rw [startNodes, compute]
    simp only [Action.result_bind, Action.result_get, Action.result_read, hp, Action.result_pure]
    rw [traverse, Action.result_pure]

/-! ## The two descents -/

theorem BeginsAt.parse {x n : String} {start : Start} {v : Value} (h : env.BeginsAt s x start v)
    (hn : Grammar.IsName n) :
    Grammar.parse (x ++ "//" ++ n) =
        .ok (.path start [.descendants, .mk .child (.name (.bare n)) []]) ∧
      Grammar.parse (x ++ "/descendant::" ++ n) =
        .ok (.path start [.mk .descendant (.name (.bare n)) []]) := by
  have htext {text : String} {cs : List Char} (h : text.toList = cs) : text = String.ofList cs := by
    rw [← h, String.ofList_toList]
  cases h with
  | atRoot =>
    exact ⟨(congrArg _ (htext (by simp))).trans
        (Grammar.parse_behind_nothing (Grammar.behind_doubleSlash hn)),
      (congrArg _ (htext (by simp [Axis.text]))).trans
        (Grammar.parse_behind_nothing (Grammar.behind_descendant hn))⟩
  | atVariable hname =>
    exact ⟨(congrArg _ (htext (by simp))).trans
        (Grammar.parse_behind_variable hname (Grammar.behind_doubleSlash hn)),
      (congrArg _ (htext (by simp [Axis.text]))).trans
        (Grammar.parse_behind_variable hname (Grammar.behind_descendant hn))⟩

/-- **Two ways down.** From the root the double slash finds what the descendant axis finds. From a
variable it finds the same but for the slots right below the variable, provided that the names are
such that paths tell nodes apart, if there are several maps. Neither changes anything, and they fail
together, only where some value has no end. -/
theorem evaluate_doubleSlash {x n : String} {start : Start} {v : Value} {focus : Focus}
    (hstart : env.BeginsAt s x start v) (hacyclic : s.Acyclic v)
    (hnames : ∀ l, v = .list l → 2 ≤ (s.lists.get l).length → s.NamesReached v)
    (hn : Grammar.IsName n) :
    ∃ double single, Grammar.parse (x ++ "//" ++ n) = .ok double ∧
      Grammar.parse (x ++ "/descendant::" ++ n) = .ok single ∧
      ∃ a b, (env.evaluate .standard double focus).result s = (a, s) ∧
        (env.evaluate .standard single focus).result s = (b, s) ∧
        (s.Resolves v → ∃ answer, a = .ok answer) ∧
        ((∃ e, a = .error e ∧ b = .error e) ∨
          ∃ ps qs, a = .ok (.nodes ps) ∧ b = .ok (.nodes qs) ∧
            ∀ path, (∃ p ∈ ps, p.path s = path) ↔
              ∃ q ∈ qs, (start = .root ∨ ¬q.IsTop) ∧ q.path s = path) := by
  obtain ⟨hdouble, hsingle⟩ := hstart.parse hn
  obtain ⟨ps, hps, hbegun⟩ :=
    exists_begun hstart hnames (({ focus with occasion := s.now.part 0 } : Focus).part 0)
  refine ⟨_, _, hdouble, hsingle, _, _, result_evaluate_path hps, result_evaluate_path hps, ?_⟩
  generalize (s.now.part 0).part 1 = o
  have ha := Search.nodes_ofList ps
  have htogether := @failure_descents s env v (.name (.bare n)) o _ _ hacyclic hbegun.toStarts ha
  constructor
  · intro hends
    have hfailure := htogether.trans (failure_descendant hbegun.toStarts ha hends)
    exact ⟨_, by rw [all_of_failure_eq_none hfailure]; rfl⟩
  cases hfailure : (env.walk .standard [.mk .descendant (.name (.bare n)) []] o s
      (.ofList ps)).nodes.failure with
  | some e =>
    left
    refine ⟨e, ?_, ?_⟩
    · rw [Search.all, Nodes.all, htogether, hfailure]
      rfl
    · rw [Search.all, Nodes.all, hfailure]
      rfl
  | none =>
    right
    have hfailure' := htogether.trans hfailure
    refine ⟨_, _, by rw [all_of_failure_eq_none hfailure']; rfl,
      by rw [all_of_failure_eq_none hfailure]; rfl, fun path => ?_⟩
    have hsame (ms : List Node) := (doubleSlash_iff env hacyclic hbegun.toStarts ha hfailure').trans
      ((and_congr_left' (hbegun.shown_iff ms)).trans and_right_comm)
    have hbelow (ms : List Node) : _ ↔ (∃ p ∈ ps, TransGen s.HasChild p.nodes ms) ∧ _ :=
      descendant_iff env hacyclic hbegun.toStarts ha hfailure
    constructor
    · rintro ⟨p, hp, rfl⟩
      obtain ⟨hms, htop⟩ := (hsame p.nodes).1 ⟨p, hp, rfl⟩
      obtain ⟨q, hq, hnodes⟩ := (hbelow p.nodes).2 hms
      exact ⟨q, hq, by rwa [Pointer.isTop_iff, hnodes], by rw [Pointer.path, Pointer.path, hnodes]⟩
    · rintro ⟨q, hq, htop, rfl⟩
      rw [Pointer.isTop_iff] at htop
      obtain ⟨p, hp, hnodes⟩ := (hsame q.nodes).2 ⟨(hbelow q.nodes).1 ⟨q, hq, rfl⟩, htop⟩
      exact ⟨p, hp, by rw [Pointer.path, Pointer.path, hnodes]⟩

/-! ## Variables with maps -/

/-- The nodes that a text selects at the root. -/
def chosen (env : Environment) (s : Store) (text : String) : Option (List Pointer) :=
  (Grammar.parse text).toOption.bind fun e =>
    ((env.evaluate .standard e { node := env.root }).result s).1.toOption.bind fun
      | .nodes ps => some ps
      | _ => none

/-- An empty map, maps in maps, with names and without, and a map that holds itself; variables with
one of them and with several. -/
def drawer : Store where
  lists := ⟨#[[.map 2, .map 0], [.map 1, .map 5]]⟩
  maps := ⟨#[.empty, .ofList [("n", .bool true)], .ofList [("a/b", .map 0), ("a", .map 3)],
    .ofList [("b", .map 1)], .ofList [("self", .map 4)], .ofList [("m", .map 1)]]⟩
  scopes := ⟨#[.ofList [("v", .map 1), ("w", .list 0), ("c", .map 4), ("x", .list 1)]]⟩

/-- An environment at the empty map. -/
def drawerEnvironment : Environment where
  root := { visit := { node := .map 0 none, occasion := {} } }
  locale := {}
  lenient := false
  own := { scope := 0 }

/-- The values of the drawer from which there is no way back. -/
def drawerValues : List Value :=
  [.list 0, .list 1, .map 0, .map 1, .map 2, .map 3, .map 5, .bool true]

theorem mem_of_reaches_drawer {v w : Value} (hv : v ∈ drawerValues) (h : drawer.Reaches v w) :
    w ∈ drawerValues :=
  h.mem hv (by decide)

theorem acyclic_drawer {v : Value} (hv : v ∈ drawerValues) : drawer.Acyclic v := by
  refine Store.acyclic_of_shallow (n := 5) ?_ fun w o hw ho => ?_
  · simp only [drawerValues, List.mem_cons, List.not_mem_nil, or_false] at hv
    rcases hv with rfl | rfl | rfl | rfl | rfl | rfl | rfl | rfl <;>
      simp [Store.Shallow, Store.held, drawer, Store.slots, Pool.get, Table.ofList, Table.insert,
        Table.put, Table.empty, Value.isObject]
  · have hmem := mem_of_reaches_drawer hv hw
    simp only [drawerValues, List.mem_cons, List.not_mem_nil, or_false] at hmem
    rcases hmem with rfl | rfl | rfl | rfl | rfl | rfl | rfl | rfl <;> cases ho <;>
      simp [Store.Has, drawer, Pool.size]

theorem namesReached_drawer : drawer.NamesReached (.list 1) := by
  intro h name hreach hname
  have hmem : h.value ∈ [Value.list 1, .map 1, .map 5, .bool true] :=
    hreach.mem (List.mem_cons_self ..) (by decide)
  cases h with
  | map id =>
    obtain rfl | rfl : id = 1 ∨ id = 5 := by simpa [Holder.value] using hmem
    · obtain rfl : name = "n" := List.mem_singleton.1 hname
      rfl
    · obtain rfl : name = "m" := List.mem_singleton.1 hname
      rfl
  | bean id => simp [Holder.value] at hmem

theorem resolves_drawer {v : Value} (hv : v ∈ drawerValues) : drawer.Resolves v := by
  intro w hw
  have hmem := mem_of_reaches_drawer hv hw
  simp only [drawerValues, List.mem_cons, List.not_mem_nil, or_false] at hmem
  rcases hmem with rfl | rfl | rfl | rfl | rfl | rfl | rfl | rfl <;> exact ⟨_, rfl⟩

/-- Behind a variable with two maps a double slash finds what is deeper in them. -/
theorem evaluate_doubleSlash_drawer :
    drawer.Acyclic (.list 1) ∧ drawer.NamesReached (.list 1) ∧ drawer.Resolves (.list 1) ∧
      Grammar.IsName "n" ∧ ∃ ps qs : List Pointer,
        chosen drawerEnvironment drawer "$x//n" = some ps ∧
        chosen drawerEnvironment drawer "$x/descendant::n" = some qs ∧
        ps.map (·.path drawer) = ["$x[2]/m/n"] ∧
        qs.map (·.path drawer) = ["$x[1]/n", "$x[2]/m/n"] ∧
        ∀ path, (∃ p ∈ ps, p.path drawer = path) ↔
          ∃ q ∈ qs, ¬q.IsTop ∧ q.path drawer = path := by
  have hmem : Value.list 1 ∈ drawerValues := by simp [drawerValues]
  have hn : Grammar.IsName "n" := by with_unfolding_all rfl
  have hx : Grammar.IsName "x" := by with_unfolding_all rfl
  have hstart : drawerEnvironment.BeginsAt drawer ("$" ++ "x") (.value (.variable (.bare "x")))
      (.list 1) := .atVariable hx (by decide +kernel) (by simp [Value.IsMaps, drawer, Pool.get])
  refine ⟨acyclic_drawer hmem, namesReached_drawer, resolves_drawer hmem, hn, ?_⟩
  obtain ⟨double, single, hdouble, hsingle, a, b, ha, hb, hok, hcases⟩ :=
    @evaluate_doubleSlash _ _ _ _ _ _ { node := drawerEnvironment.root } hstart
      (acyclic_drawer hmem) (fun _ _ _ => namesReached_drawer) hn
  obtain ⟨answer, rfl⟩ := hok (resolves_drawer hmem)
  obtain ⟨e, he, -⟩ | ⟨ps, qs, hps, rfl, hpaths⟩ := hcases
  · cases he
  obtain rfl := Except.ok.inj hps
  have hchosen (text : String) {e : Expr} {ps : List Pointer}
      (hparse : Grammar.parse text = .ok e)
      (hresult : (drawerEnvironment.evaluate .standard e
        { node := drawerEnvironment.root }).result drawer = (.ok (.nodes ps), drawer)) :
      chosen drawerEnvironment drawer text = some ps := by
    rw [chosen, hparse, Except.toOption, Option.bind_some, hresult]
    rfl
  have hps := hchosen "$x//n" hdouble ha
  have hqs := hchosen "$x/descendant::n" hsingle hb
  refine ⟨ps, qs, hps, hqs, ?_, ?_, by simpa using hpaths⟩
  · have hfound : (chosen drawerEnvironment drawer "$x//n").map (List.map (·.path drawer)) =
        some ["$x[2]/m/n"] := by decide +kernel
    rw [hps] at hfound
    exact Option.some.inj hfound
  · have hfound : (chosen drawerEnvironment drawer "$x/descendant::n").map
        (List.map (·.path drawer)) = some ["$x[1]/n", "$x[2]/m/n"] := by decide +kernel
    rw [hqs] at hfound
    exact Option.some.inj hfound

/-- Behind a variable a double slash misses the slots of the variable's map; where names are such
that two nodes have one path, all that is below the second of them; and where a map holds itself it
goes one step further. -/
theorem evaluate_doubleSlash_short :
    let paths (text : String) := (chosen drawerEnvironment drawer text).map
      (List.map (·.path drawer))
    drawer.Acyclic (.map 0) ∧
      drawerEnvironment.variableValue? drawer "v" = some (.map 1) ∧ drawer.Acyclic (.map 1) ∧
      paths "$v//n" = some [] ∧ paths "$v/descendant::n" = some ["$v/n"] ∧
      drawerEnvironment.variableValue? drawer "w" = some (.list 0) ∧ drawer.Acyclic (.list 0) ∧
      paths "$w//n" = some [] ∧ paths "$w/descendant::n" = some ["$w[1]/a/b/n"] ∧
      drawerEnvironment.variableValue? drawer "c" = some (.map 4) ∧
      paths "$c//self" = some ["$c/self/self"] ∧
      paths "$c/descendant::self" = some ["$c/self"] := by
  refine ⟨acyclic_drawer ?_, ?_, acyclic_drawer ?_, ?_, ?_, ?_, acyclic_drawer ?_, ?_⟩
  all_goals decide +kernel

end Environment

end PathQuery
