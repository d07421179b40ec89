import PathQuery.Proofs.Ends
import PathQuery.Proofs.FaithfulCache
import PathQuery.Proofs.Lenience
import PathQuery.Proofs.ReadAfterWrite
import PathQuery.Proofs.RoundTrip

/-!
# Calls for variables

What reading, setting and removing a variable by its expression comes to in one context. All three
go to the nearest scope that declares the variable, and fail where none does.

* names: `Store.rebind`; `Registry.ShowsPlainly`, `IsReading`: what reading shows of a value;
  `Pointer.IsVariable`; `Context.getValue`, `setValue`, `removePath`; `World.GoesTo`.
* One lemma for each way of using a compiled variable, declared or not: `result_getValue_declared`,
  `result_setValue_declared`, `result_remove_declared`, and so on.
* **`exists_result_variable`**: a use of a variable by its text is one of its expression.
-/

namespace PathQuery

open CompiledPath (shownValue)

variable {ctx : Context} {c : CompiledPath} {n : QName} {r : Registry} {s t : Store} {i : Nat}
variable {v : Value}

/-! ## Texts -/

/-- A dollar sign and a name are read as a variable. -/
theorem Grammar.parse_variable (hn : n.IsWritten) :
    Grammar.parse ("$" ++ n.text) = .ok (.variable n) := by
  let spelling : Spelling := .prefer ⟨Nat.toDigits 10 0, []⟩ (isProper_toDigits 0)
  have htext : "$" ++ n.text = Grammar.canonical spelling (.variable n) := by
    apply String.toList_inj.1
    simp [Grammar.canonical, Expr.text]
  rw [htext]
  exact Grammar.parse_text (e := .variable n) hn

/-! ## Rebinding -/

/-- The store with a name of a scope bound, or with no value bound to it. -/
def Store.rebind (s : Store) (i : Nat) (name : String) (x : Option Value) : Store :=
  s.setScope i <| match x with
    | some v => (s.scopes.get i).insert name v
    | none => (s.scopes.get i).erase name

theorem Store.get?_rebind (hi : i < s.scopes.size) (name : String) (x : Option Value) :
    ((s.rebind i name x).scopes.get i).get? =
      Function.update (s.scopes.get i).get? name x := by
  funext name'
  rw [show (s.rebind i name x).scopes.get i = _ from Pool.get_set_self hi _]
  by_cases h : name' = name
  · subst h
    cases x <;> simp
  · cases x <;> simp [h, Table.get?_insert_of_ne, Table.get?_erase_of_ne]

theorem Store.get_rebind_of_ne {j : Nat} (h : j ≠ i) (name : String) (x : Option Value) :
    (s.rebind i name x).scopes.get j = s.scopes.get j :=
  Pool.get_set_of_ne h _ _

/-! ## What reading shows -/

/-- Whenever a pointer is asked for, the factories make one to the value itself, and no link. -/
def Registry.ShowsPlainly (r : Registry) (s : Store) (n : QName) (v : Value) : Prop :=
  ∀ t, s.SameGraph t → ∀ locale above, ∃ p, r.create t (some n) v locale above = .ok p ∧
    p.node.isLink = false ∧ p.node.isActual t = true ∧ p.immediate t = v

/-- What reading a variable with a value gives. A value that the factories show plainly is given as
it is, null as nothing. The standard factories show the value inside of cells, but no foreign value
and none inside of too many cells. -/
structure IsReading (r : Registry) (s : Store) (n : QName) (v : Value)
    (x : Except PathError (Option Value)) : Prop where
  plain : r.ShowsPlainly s n v → x = .ok (shownValue (some v))
  standard : r = .standard → x = match s.endOf (Store.maxIndirections - 1) v with
    | .ok (some w) => .ok (shownValue (some w))
    | .ok none => .error (.tooIndirect ("$" ++ n.text))
    | .error e => .error e

/-- The standard factories show every value plainly but cells and foreign ones. -/
theorem Registry.showsPlainly_standard (hc : ∀ id, v ≠ .cell id) (hf : ∀ id, v ≠ .foreign id)
    (s : Store) (n : QName) : Registry.standard.ShowsPlainly s n v := by
  intro t _ locale above
  refine ⟨_, create_standard t (some n) locale above hf, ?_,
    CompiledPath.isActual_node t v (some n), Pointer.immediate_node v (some n) hc⟩
  cases v <;> first | rfl | exact absurd rfl (hc _)

theorem IsReading.of_sameGraph {x : Except PathError (Option Value)} (ht : s.SameGraph t)
    (h : IsReading r t n v x) : IsReading r s n v x where
  plain hplain := h.plain fun u hu => hplain u (ht.trans hu)
  standard hr := by rw [h.standard hr, ht.endOf]

/-! ## Pointers to variables -/

theorem Environment.scope?_on (env : Environment) (o : Occasion) (name : String) :
    env.scope? (s.on o) name = env.scope? s name := rfl

theorem Environment.has_of_scope? {env : Environment} {name : String}
    (h : env.scope? s name = some i) : (s.scopes.get i).has name = true :=
  List.find?_some (p := fun scope => (s.scopes.get scope).has name) h

/-- The pointer leads to the variable of a scope. -/
structure Pointer.IsVariable (p : Pointer) (i : Nat) (n : QName) : Prop where
  node : p.node = .var i n .whole
  above : p.above = []

namespace Pointer.IsVariable

variable {p : Pointer} (hp : p.IsVariable i n)

include hp

theorem index : p.node.index = .whole := by
  rw [hp.node]
  rfl

theorem setValue (v : Value) : p.setValue r v = p.setVariable i n v := by
  obtain ⟨⟨node, occasion, settled⟩, above, locale⟩ := p
  obtain rfl : node = .var i n .whole := hp.node
  obtain rfl : above = [] := hp.above
  rfl

theorem remove : p.remove = p.removeVariable i n := by
  obtain ⟨⟨node, occasion, settled⟩, above, locale⟩ := p
  obtain rfl : node = .var i n .whole := hp.node
  obtain rfl : above = [] := hp.above
  rfl

theorem isActual (h : (s.scopes.get i).has n.text = true) : p.node.isActual s = true := by
  rw [hp.node]
  simp [Node.isActual, Node.inRange, Node.index, h]

theorem immediate (hv : (s.scopes.get i).get? n.text = some v) : p.immediate s = v := by
  have hbase : (Node.var i n .whole).base s = v := by simp [Node.base, hv]
  rw [Pointer.immediate, hp.node]
  exact hbase

theorem path : p.path s = "$" ++ n.text := by
  have htext : (Node.var i n .whole).pathBelow s "" = "$" ++ n.text := by
    simp [Node.pathBelow, Index.text]
  rw [Pointer.path, Pointer.nodes_eq, hp.node, hp.above]
  exact htext

/-- Factories that show a value plainly are asked once. -/
theorem valuePointer (hv : (s.scopes.get i).get? n.text = some v) (hplain : r.ShowsPlainly s n v) :
    ∃ q, p.valuePointer s r = .ok q ∧ q.node.isActual s = true ∧ q.immediate s = v := by
  obtain ⟨q, hq, hlink, hactual, himm⟩ := hplain s (.refl s) p.locale p.chain
  have hnext : p.next? s r = .ok (some q) := by
    rw [next?, hp.node, hp.immediate hv]
    exact congrArg (· >>= _) hq
  have hend : q.valuePointerUpTo s r 1023 = .ok (some q) := by
    rw [show 1023 = 1022 + 1 from rfl, valuePointerUpTo, next?_of_not_isLink hlink]
    rfl
  refine ⟨q, ?_, hactual, himm⟩
  rw [Pointer.valuePointer, show Store.maxIndirections = 1023 + 1 from rfl, valuePointerUpTo,
    hnext]
  exact congrArg (· >>= _) hend

/-- The standard factories make nodes that exist. -/
theorem isActual_valuePointer {q : Pointer} (hq : p.valuePointer s .standard = .ok q) :
    q.node.isActual s = true := by
  have hplain : p.node.IsPlain := by rw [hp.node]; trivial
  cases hend : p.node.end? s with
  | none =>
    obtain ⟨e, he⟩ := valuePointer_of_no_end hend
    rw [hq] at he
    cases he
  | some w =>
    obtain ⟨q', hq', -, hnode⟩ := valuePointer_of_end hplain hend
    obtain rfl := Except.ok.inj (hq.symm.trans hq')
    rcases hnode with hnode | ⟨rfl, hkind, -⟩
    · rw [hnode]
      exact CompiledPath.isActual_node s w _
    · simp [hp.node, Node.kind] at hkind

/-- The standard factories follow the cells in a variable to their end. -/
theorem value_standard (hv : (s.scopes.get i).get? n.text = some v) :
    p.value s .standard = (do
      match ← s.endOf (Store.maxIndirections - 1) v with
      | some w => pure w
      | none => throw (.tooIndirect ("$" ++ n.text))) := by
  have hlink : p.node.isLink = true := by rw [hp.node]; rfl
  have hshown := p.value_eq_shown (s := s)
  rw [hp.path, Node.shown, hlink, if_pos rfl,
    show p.node.immediate s = v from hp.immediate hv] at hshown
  exact hshown

end Pointer.IsVariable

/-! ## Using a compiled variable -/

namespace CompiledPath

theorem result_single_undeclared (hc : c.expr.value = .variable n)
    (h : ctx.env.scope? s n.text = none) :
    (c.single ctx r).result s = (.error (.undeclared n.text), s) := by
  rw [single, Environment.single, hc]
  simp only [Action.result_bind, Action.result_get, Action.result_read,
    Environment.variablePointer, Environment.variablePointer?, Environment.scope?_on, h,
    Option.map_none]

theorem result_single_declared (hc : c.expr.value = .variable n)
    (h : ctx.env.scope? s n.text = some i) :
    ∃ p : Pointer, p.IsVariable i n ∧ (c.single ctx r).result s = (.ok (.pointer p), s) := by
  rw [single, Environment.single, hc]
  simp only [Action.result_bind, Action.result_get, Action.result_read,
    Environment.variablePointer, Environment.variablePointer?, Environment.scope?_on, h,
    Option.map_some]
  exact ⟨_, ⟨rfl, rfl⟩, rfl⟩

theorem result_setValue_undeclared (hc : c.expr.value = .variable n)
    (h : ctx.env.scope? s n.text = none) (v : Value) :
    (c.setValue ctx r v).result s = (.error (.undeclared n.text), s) :=
  Action.result_bind_error (result_single_undeclared hc h)

theorem result_remove_undeclared (hc : c.expr.value = .variable n)
    (h : ctx.env.scope? s n.text = none) :
    (c.remove ctx r).result s = (.error (.undeclared n.text), s) :=
  Action.result_bind_error (Action.result_bind_error (result_single_undeclared hc h))

theorem result_getValue_undeclared (hc : c.expr.value = .variable n)
    (h : ctx.env.scope? s n.text = none) :
    (c.getValue ctx r).result s = (.error (.undeclared n.text), s) :=
  Action.result_bind_error (result_single_undeclared hc h)

theorem result_setValue_declared (hc : c.expr.value = .variable n)
    (h : ctx.env.scope? s n.text = some i) (v : Value) :
    (c.setValue ctx r v).result s = (.ok (), s.rebind i n.text (some v)) := by
  obtain ⟨p, hp, hsingle⟩ := result_single_declared hc h
  rw [setValue, Action.result_bind_ok hsingle]
  show (p.setValue r v).result s = _
  rw [hp.setValue]
  exact Action.result_bind_ok (Pointer.result_place_whole "variable" hp.index)

theorem result_remove_declared (hc : c.expr.value = .variable n)
    (h : ctx.env.scope? s n.text = some i) :
    (c.remove ctx r).result s = (.ok (), s.rebind i n.text none) := by
  obtain ⟨p, hp, hsingle⟩ := result_single_declared hc h
  have hpointer : (c.getPointer ctx r).result s = (.ok p, s) := by
    rw [getPointer, Action.result_bind_ok hsingle, Action.result_read]
    simp [hp.isActual (Environment.has_of_scope? h)]
  rw [remove, Action.result_bind_ok hpointer, hp.remove]
  exact Action.result_bind_ok (Pointer.result_place_whole "variable" hp.index)

/-- What an existing variable shows can be read, in lenient and in strict contexts. -/
theorem valueOf_of_valuePointer {p q : Pointer} (hp : p.node.isActual s = true)
    (hq : p.valuePointer s r = .ok q) (hactual : q.node.isActual s = true) :
    c.valueOf ctx r s (.pointer p) = .ok (some (q.immediate s)) := by
  rw [valueOf, hq, Except.ok_bind]
  simp [hp, hactual]

theorem valueOf_standard {p : Pointer} (hp : p.IsVariable i n)
    (hactual : p.node.isActual s = true) :
    c.valueOf ctx .standard s (.pointer p) = (p.value s .standard).map some := by
  rw [Pointer.value]
  cases hq : p.valuePointer s .standard with
  | error e =>
    rw [valueOf, hq]
    rfl
  | ok q =>
    rw [valueOf_of_valuePointer hactual hq (hp.isActual_valuePointer hq)]
    rfl

theorem isReading_valueOf {p : Pointer} (hp : p.IsVariable i n)
    (hv : (s.scopes.get i).get? n.text = some v) :
    IsReading r s n v ((c.valueOf ctx r s (.pointer p)).map shownValue) where
  plain hplain := by
    obtain ⟨q, hq, hactual, himm⟩ := hp.valuePointer hv hplain
    rw [valueOf_of_valuePointer (hp.isActual (Table.has_iff_get?.2 ⟨v, hv⟩)) hq hactual, himm]
    rfl
  standard hr := by
    subst hr
    rw [valueOf_standard hp (hp.isActual (Table.has_iff_get?.2 ⟨v, hv⟩)), hp.value_standard hv]
    rcases s.endOf (Store.maxIndirections - 1) v with e | _ | w <;> rfl

theorem result_getValue_declared (hc : c.expr.value = .variable n)
    (h : ctx.env.scope? s n.text = some i) :
    ∃ x, (c.getValue ctx r).result s = (x, s) ∧
      ∀ v, (s.scopes.get i).get? n.text = some v → IsReading r s n v x := by
  obtain ⟨p, hp, hsingle⟩ := result_single_declared hc h
  refine ⟨(c.valueOf ctx r s (.pointer p)).map shownValue, ?_, fun v => isReading_valueOf hp⟩
  rw [getValue, Action.result_bind_ok hsingle, Action.result_bind, Action.result_read]
  cases c.valueOf ctx r s (.pointer p) <;> rfl

end CompiledPath

/-! ## Calls -/

namespace Context

/-- The value of the expression of a text. -/
def getValue (ctx : Context) (source : String) : Run (Option Value) := do
  let c ← Run.compile source
  Run.act fun r => c.getValue ctx r

/-- Sets the value at the first node of the expression of a text. -/
def setValue (ctx : Context) (source : String) (v : Value) : Run Unit := do
  let c ← Run.compile source
  Run.act fun r => c.setValue ctx r v

/-- Removes the first node of the expression of a text. -/
def removePath (ctx : Context) (source : String) : Run Unit := do
  let c ← Run.compile source
  Run.act fun r => c.remove ctx r

end Context

/-- The second world has the factories of the first, a faithful cache, and the given store. -/
structure World.GoesTo (w w' : World) (s : Store) : Prop where
  registry : w'.engine.registry = w.engine.registry
  cache : w'.engine.cache.Faithful
  store : w'.store = s

namespace Run

variable {α : Type} {world : World}

/-- **A use of a variable by its text is a use of its expression.** -/
theorem exists_result_variable (hn : n.IsWritten) (hcache : world.engine.cache.Faithful)
    (f : CompiledPath → Registry → Action α) :
    ∃ c w', c.expr.value = .variable n ∧
      (do let c ← Run.compile ("$" ++ n.text); Run.act (f c)).result world =
        (((f c world.engine.registry).result world.store.tick).1, w') ∧
      world.GoesTo w' ((f c world.engine.registry).result world.store.tick).2 := by
  obtain ⟨c, w₁, hcompile, -, hc, hfaithful, hregistry, hstore⟩ :=
    compile_of_faithful hcache (Grammar.parse_variable hn)
  let after := ((f c world.engine.registry).result world.store.tick).2
  refine ⟨c, { w₁ with store := after }, hc, ?_, ⟨hregistry, hfaithful, rfl⟩⟩
  rw [result_bind_ok hcompile, result_act, hregistry, hstore]

end Run

end PathQuery
