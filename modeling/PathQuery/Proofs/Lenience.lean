import PathQuery.Proofs.Failures
import PathQuery.Proofs.SimplePaths

/-!
# Strict and lenient contexts

A lenient context differs from a strict one in one thing: where the strict one finds nothing, the
lenient one answers with nothing. Evaluation itself does not look at the flag.

* names: `Environment.withLenience`, `Pointer.HidesNull`, `PathError.IsNotFound`.
* **`compute_withLenience`**: expressions have the same value in both. **`value_of_not_actual`**: a
  node that does not exist shows null, unless the null hides behind too many cells to be shown.
* **`read_withLenience`**: what the two contexts read.
-/

namespace PathQuery

/-! ## Evaluation does not look at the flag -/

namespace Environment

/-- The environment, strict or lenient. -/
def withLenience (env : Environment) (lenient : Bool) : Environment := { env with lenient }

variable {r : Registry} {env : Environment} {lenient : Bool}

mutual

theorem compute_withLenience (e : Expr) (focus : Focus) :
    (env.withLenience lenient).compute r e focus = env.compute r e focus := by
  cases e with
  | literal | number => rw [compute, compute]
  | «variable» name =>
    rw [compute, compute]
    rfl
  | call f args =>
    rw [compute, compute, evaluateAll_withLenience args]
    rfl
  | filter base predicates =>
    have hnarrow : (env.withLenience lenient).narrow r predicates = env.narrow r predicates :=
      funext₃ fun o nodes s => narrow_withLenience predicates o nodes s
    rw [compute, compute, compute_withLenience base, hnarrow]
    rfl
  | binary op left right =>
    cases op with
    | union =>
      rw [compute, compute, compute_withLenience left, compute_withLenience right]
      rfl
    | or | and => rw [compute, compute, compute_withLenience left, compute_withLenience right]
    | _ =>
      rw [compute, compute, compute_withLenience left, compute_withLenience right]
      all_goals nofun
  | negate e => rw [compute, compute, compute_withLenience e]
  | path start steps =>
    rw [compute, compute, startNodes_withLenience start]
    simp only [walk_withLenience steps]

theorem evaluateAll_withLenience (es : List Expr) (focus : Focus) :
    (env.withLenience lenient).evaluateAll r es focus = env.evaluateAll r es focus := by
  cases es with
  | nil => rw [evaluateAll, evaluateAll]
  | cons e es => rw [evaluateAll, evaluateAll, compute_withLenience e, evaluateAll_withLenience es]

theorem narrow_withLenience (es : List Expr) (o : Occasion) (nodes : List Pointer) (s : Store) :
    (env.withLenience lenient).narrow r es o nodes s = env.narrow r es o nodes s := by
  cases es with
  | nil => rw [narrow, narrow]
  | cons e es =>
    rw [narrow, narrow]
    simp only [compute_withLenience e, narrow_withLenience es]

theorem startNodes_withLenience (start : Start) (focus : Focus) :
    (env.withLenience lenient).startNodes r start focus = env.startNodes r start focus := by
  cases start with
  | here =>
    rw [startNodes, startNodes]
  | root =>
    rw [startNodes, startNodes]
    rfl
  | value e =>
    rw [startNodes, startNodes, compute_withLenience e]
    rfl

theorem walk_withLenience (steps : List Step) (o : Occasion) (s : Store) (nodes : Search) :
    (env.withLenience lenient).walk r steps o s nodes = env.walk r steps o s nodes := by
  cases steps with
  | nil => rw [walk, walk]
  | cons step steps =>
    obtain ⟨axis, test, predicates⟩ := step
    rw [walk, walk]
    simp only [narrow_withLenience predicates, walk_withLenience steps]

end

theorem resolve_withLenience (o : Occasion) (p : Pointer) (steps : List SimpleStep) :
    (env.withLenience lenient).resolve r o p steps = env.resolve r o p steps := by
  induction steps generalizing o p with
  | nil => rfl
  | cons step steps ih => simp only [resolve, resolveStep, compute_withLenience, ih]

/-- **The one result of an expression is the same in both contexts.** -/
theorem single_withLenience (e : Expr) (focus : Focus) :
    (env.withLenience lenient).single r e focus = env.single r e focus := by
  simp only [single, begin, compute_withLenience, resolve_withLenience]
  rfl

end Environment

/-! ## What does not exist shows null -/

namespace Store

variable {s : Store} {v : Value}

/-- What fewer than `n + 1` cells hide can be shown. -/
theorem endUpTo?_of_unwrapUpTo {n : Nat} (h : s.unwrapUpTo n v = .null) :
    s.endUpTo? (n + 1) v = some .null := by
  induction n generalizing v with
  | zero =>
    obtain rfl : v = .null := by cases v <;> exact h
    rfl
  | succ n ih =>
    cases v with
    | cell c => exact ih h
    | null => rfl
    | _ => cases h

end Store

namespace Store

variable {s : Store} {v : Value} {i : Int}

/-- There is nothing beyond the end of a value, which counts as one element if it is no list. -/
theorem select_of_not_lt (h : ¬ (0 ≤ i ∧ i < ((s.items? v).map List.length).getD 1)) :
    s.select v (.element i) = .null := by
  cases hk : (Index.element i).place? with
  | none => simp only [select, hk]
  | some k =>
    obtain ⟨hi, rfl⟩ := Index.place?_element hk
    simp only [select, hk]
    cases hitems : s.items? v with
    | some items =>
      rw [hitems, Option.map_some, Option.getD_some] at h
      have hout : items.length ≤ i.toNat := by omega
      simp [List.getElem?_eq_none hout]
    | none =>
      rw [hitems, Option.map_none, Option.getD_none] at h
      rw [if_neg (by omega)]

theorem select_zero_of_unwrap (h : s.unwrap v = .null) : s.select v (.element 0) = v := by
  simp [select, Index.place?, items?, h]

end Store

namespace Node

variable {s : Store} {node : Node}

theorem exists_of_not_inRange (h : node.inRange s = false) :
    ∃ i, node.index = .element i ∧ ¬ (0 ≤ i ∧ i < node.length s) := by
  rw [inRange] at h
  split at h
  · cases h
  · next i hindex => exact ⟨i, hindex, by simpa using h⟩

theorem length_slot_of_ne_null {holder : Holder} {name : QName} {index : Index}
    {isAttribute : Bool} (h : s.unwrap (s.slot holder name.text) ≠ .null) :
    (slot holder name index isAttribute).length s =
      ((s.items? (s.slot holder name.text)).map List.length).getD 1 := by
  simp only [length, base, Store.items?]
  cases hv : s.unwrap (s.slot holder name.text) <;> first | rfl | exact absurd hv h

end Node

namespace Pointer

variable {s : Store} {p : Pointer}

/-- The null at the pointer, the first element of a slot, is inside so many cells that it cannot be
shown. -/
def HidesNull (s : Store) (p : Pointer) : Prop :=
  ∃ h name isAttribute, p.node = .slot h name (.element 0) isAttribute ∧
    s.unwrap (s.slot h name.text) = .null ∧
    s.unwrapUpTo (Store.maxIndirections - 2) (s.slot h name.text) ≠ .null

theorem value_of_immediate_null (hp : p.node.IsPlain) (h : p.immediate s = .null) :
    p.value s .standard = .ok .null := by
  rw [value_eq_ok_iff hp, Node.end?]
  split
  · rw [← immediate, h]
    rfl
  · rw [← immediate, h]

/-- What cells alone lead from to null fails for its length, if at all. -/
theorem valuePointerUpTo_of_unwrapUpTo {q : Pointer} {v : Value} {name : Option QName} {m n : Nat}
    (hv : s.unwrapUpTo m v = .null) (hq : q.node = v.node name) (hend : s.endUpTo? n v = none) :
    q.valuePointerUpTo s .standard n = .ok none := by
  induction n generalizing q v m with
  | zero => rfl
  | succ n ih =>
    cases v with
    | null => cases hend
    | cell c =>
      cases m with
      | zero => cases hv
      | succ m =>
        rw [Store.unwrapUpTo] at hv
        have hforeign : ∀ f, s.cells.get c ≠ .foreign f := by
          intro f hf
          rw [hf] at hv
          cases m <;> cases hv
        have hlink : q.node.isLink = true := by rw [hq]; rfl
        have himm : q.immediate s = s.cells.get c := by rw [immediate, hq]; rfl
        have hname : q.node.name? = name := by rw [hq]; rfl
        rw [valuePointerUpTo, next?_of_isLink hlink, himm, hname,
          Registry.create_standard s _ _ _ hforeign]
        exact ih hv rfl hend
    | _ => cases m <;> cases hv

/-- A node that does not exist holds null, or is the first element of a slot that does. -/
theorem immediate_of_not_actual (h : p.node.isActual s = false) :
    p.node.IsPlain ∧ (p.immediate s = .null ∨ ∃ holder name isAttribute,
      p.node = .slot holder name (.element 0) isAttribute ∧
        p.immediate s = s.slot holder name.text ∧ s.unwrap (s.slot holder name.text) = .null) := by
  rw [immediate]
  cases hnode : p.node with
  | missing name index isAttribute => exact ⟨trivial, .inl (Store.select_null s index)⟩
  | slot holder name index isAttribute =>
    refine ⟨trivial, ?_⟩
    rw [hnode] at h
    obtain ⟨i, hindex, hi⟩ := Node.exists_of_not_inRange h
    obtain rfl : index = .element i := hindex
    by_cases hnull : s.unwrap (s.slot holder name.text) = .null
    · by_cases hzero : i = 0
      · subst hzero
        exact .inr ⟨holder, name, isAttribute, rfl, Store.select_zero_of_unwrap hnull, hnull⟩
      · left
        have hitems : s.items? (s.slot holder name.text) = none := by rw [Store.items?, hnull]
        refine Store.select_of_not_lt (v := s.slot holder name.text) ?_
        rw [hitems, Option.map_none, Option.getD_none]
        omega
    · left
      rw [Node.length_slot_of_ne_null hnull] at hi
      exact Store.select_of_not_lt hi
  | var scope name index =>
    refine ⟨trivial, .inl ?_⟩
    rw [hnode, Node.isActual, Bool.and_eq_false_iff] at h
    rcases h with h | h
    · have hget : (s.scopes.get scope).get? name.text = none := by
        rw [Table.get?_eq_none_iff, ← Table.has_iff, h]
        exact Bool.false_ne_true
      show s.select (((s.scopes.get scope).get? name.text).getD .null) index = .null
      rw [hget]
      exact Store.select_null s index
    · obtain ⟨i, hindex, hi⟩ := Node.exists_of_not_inRange h
      obtain rfl : index = .element i := hindex
      exact Store.select_of_not_lt hi
  | items list name index =>
    refine ⟨trivial, .inl ?_⟩
    rw [hnode] at h
    obtain ⟨i, hindex, hi⟩ := Node.exists_of_not_inRange h
    obtain rfl : index = .element i := hindex
    cases hk : (Index.element i).place? with
    | none => simp only [Node.immediate, hk]
    | some k =>
      obtain ⟨hpos, rfl⟩ := Index.place?_element hk
      have hout : (s.lists.get list).length ≤ i.toNat := by
        simp only [Node.length] at hi
        omega
      simp only [Node.immediate, hk, List.getElem?_eq_none hout, Option.getD_none]
  | _ =>
    rw [hnode] at h
    cases h

/-- **A node that does not exist shows null**, or would if the null were not inside too many cells
to be shown. -/
theorem value_of_not_actual (h : p.node.isActual s = false) :
    p.value s .standard = .ok .null ∨
      p.HidesNull s ∧ p.value s .standard = .error (.tooIndirect (p.path s)) := by
  obtain ⟨hplain, hnull | ⟨holder, name, isAttribute, hnode, himm, hunwrap⟩⟩ :=
    immediate_of_not_actual h
  · exact .inl (value_of_immediate_null hplain hnull)
  · have hlink : p.node.isLink = true := by rw [hnode]; rfl
    cases hend : s.endUpTo? (Store.maxIndirections - 1) (s.slot holder name.text) with
    | some w =>
      left
      obtain rfl : w = .null :=
        (Store.unwrapUpTo_of_endUpTo? (by decide) hend).symm.trans hunwrap
      rw [value_eq_ok_iff hplain, Node.end?, if_pos hlink, ← immediate, himm, hend]
    | none =>
      refine .inr ⟨⟨holder, name, isAttribute, hnode, hunwrap, fun hnull => ?_⟩, ?_⟩
      · rw [show Store.maxIndirections - 1 = Store.maxIndirections - 2 + 1 from rfl,
          Store.endUpTo?_of_unwrapUpTo hnull] at hend
        cases hend
      · have hforeign : ∀ f, s.slot holder name.text ≠ .foreign f := by
          intro f hf
          rw [hf] at hunwrap
          cases hunwrap
        let q : Pointer :=
          ⟨⟨(s.slot holder name.text).node p.node.name?, s.now, none⟩, p.chain, p.locale⟩
        have hlong := valuePointerUpTo_of_unwrapUpTo hunwrap (show q.node = _ from rfl) hend
        have hnone : p.valuePointerUpTo s .standard Store.maxIndirections = .ok none := by
          rw [show Store.maxIndirections = Store.maxIndirections - 1 + 1 from rfl, valuePointerUpTo,
            next?_of_isLink hlink, himm, Registry.create_standard s _ _ _ hforeign]
          exact hlong
        rw [value, valuePointer, hnone]
        rfl

end Pointer

/-! ## What the contexts read -/

/-- The failure to find anything. -/
def PathError.IsNotFound (e : PathError) : Prop := ∃ path, e = .notFound path

namespace Pointer

variable {s : Store} {p q : Pointer}

theorem isLink_of_valuePointerUpTo {n : Nat}
    (h : p.valuePointerUpTo s .standard n = .ok (some q)) : q.node.isLink = false := by
  induction n generalizing p with
  | zero => cases h
  | succ n ih =>
    rw [valuePointerUpTo] at h
    obtain ⟨next, hnext, h⟩ := Except.bind_eq_ok_iff.1 h
    cases next with
    | some q' => exact ih h
    | none =>
      cases h
      rw [← Bool.not_eq_true]
      intro hlink
      rw [next?_of_isLink hlink] at hnext
      obtain ⟨_, -, hnext⟩ := Except.bind_eq_ok_iff.1 hnext
      cases hnext

/-- If a pointer or the end of its values does not exist, what is there is null. -/
theorem immediate_valuePointer_of_not_actual (hq : p.valuePointer s .standard = .ok q)
    (h : (p.node.isActual s && q.node.isActual s) = false) : q.immediate s = .null := by
  have hvalue : p.value s .standard = .ok (q.immediate s) := by rw [value, hq]; rfl
  rcases Bool.and_eq_false_iff.1 h with h | h
  · rcases value_of_not_actual h with hnull | ⟨-, herror⟩
    · rw [hnull] at hvalue
      exact (Except.ok.inj hvalue).symm
    · rw [herror] at hvalue
      cases hvalue
  · have hlink : q.node.isLink = false := by
      obtain ⟨found, hfound, hq⟩ := Except.bind_eq_ok_iff.1 hq
      cases found with
      | none => cases hq
      | some q' =>
        cases hq
        exact isLink_of_valuePointerUpTo hfound
    obtain ⟨-, hnull | ⟨holder, name, isAttribute, hnode, -⟩⟩ := immediate_of_not_actual h
    · exact hnull
    · rw [hnode] at hlink
      cases hlink

end Pointer

namespace CompiledPath

variable {ctx : Context} {c : CompiledPath} {s t : Store}

/-- What a lenient context answers where a strict one gives `x`. -/
def lenientValue (x : Except PathError (Option Value)) : Except PathError (Option Value) :=
  match x with
  | .error (.notFound _) => .ok none
  | x => x

theorem lenientValue_of_within {x : Except PathError (Option Value)}
    (h : Except.Within (fun e => ¬ e.IsNotFound) x) : lenientValue x = x := by
  cases x with
  | ok v => rfl
  | error e => cases e <;> first | rfl | exact absurd ⟨_, rfl⟩ h

theorem covers_of_functionsWithin (h : ctx.env.FunctionsWithin fun e => ¬ e.IsNotFound) :
    ctx.env.Covers fun e => ¬ e.IsNotFound where
  own := by
    rintro _ he ⟨path, rfl⟩
    cases he
  functions := h

/-- Null stands for no value. -/
def shownValue (v : Option Value) : Option Value := v.filter fun v => !v.isNull

theorem valueOf_pointer {p target : Pointer} (h : p.valuePointer t .standard = .ok target) :
    c.valueOf ctx .standard t (.pointer p) =
      if !ctx.env.lenient && !(p.node.isActual t && target.node.isActual t) then .error c.notFound
      else .ok (some (target.immediate t)) := by
  rw [valueOf, h, Except.ok_bind]
  split <;> rfl

theorem valueOf_withLenience (one : Single)
    (hE : ∀ e : PathError, e.OfEvaluation → ¬ e.IsNotFound) :
    (c.valueOf (ctx.withLenience true) .standard t one).map shownValue =
      lenientValue ((c.valueOf (ctx.withLenience false) .standard t one).map shownValue) := by
  cases one with
  | answer a =>
    exact (lenientValue_of_within (((Answer.within_toValue hE).map some).map shownValue)).symm
  | empty => rfl
  | pointer p =>
    have hwithin := Pointer.within_valuePointer hE (p := p) (s := t) (r := .standard)
    cases htarget : p.valuePointer t .standard with
    | error e =>
      rw [htarget] at hwithin
      rw [valueOf, valueOf, htarget]
      exact (lenientValue_of_within (x := .error e) hwithin).symm
    | ok target =>
      rw [valueOf_pointer htarget, valueOf_pointer htarget]
      cases hactual : p.node.isActual t && target.node.isActual t with
      | true => rfl
      | false =>
        rw [Pointer.immediate_valuePointer_of_not_actual htarget hactual]
        rfl

theorem result_getValue (ctx : Context) (s : Store) :
    (c.getValue ctx .standard).result s =
      match (c.single ctx .standard).result s with
      | (.ok one, t) => ((c.valueOf ctx .standard t one).map shownValue, t)
      | (.error e, t) => (.error e, t) := by
  rw [getValue, Action.result_bind]
  rcases (c.single ctx .standard).result s with ⟨e | one, t⟩
  · rfl
  · simp only [Action.result_bind, Action.result_read]
    cases c.valueOf ctx .standard t one <;> rfl

/-- A lenient context answers with nothing where a strict one finds nothing, and else as it does. -/
theorem getValue_withLenience (h : ctx.env.FunctionsWithin fun e => ¬ e.IsNotFound) (s : Store) :
    (c.getValue (ctx.withLenience true) .standard).result s =
      Prod.map lenientValue id ((c.getValue (ctx.withLenience false) .standard).result s) := by
  have hcovers := covers_of_functionsWithin h
  have hsingle (b : Bool) : c.single (ctx.withLenience b) .standard = c.single ctx .standard :=
    Environment.single_withLenience ..
  have hwithin : Except.Within _ ((c.single ctx .standard).result s).1 :=
    Environment.single_within hcovers c.expr.value { node := ctx.here } s
  rw [result_getValue, result_getValue, hsingle, hsingle]
  rcases hs : (c.single ctx .standard).result s with ⟨e | one, t⟩
  · rw [hs] at hwithin
    exact Prod.ext (lenientValue_of_within (x := .error e) hwithin).symm rfl
  · exact Prod.ext (valueOf_withLenience one hcovers.own) rfl

/-- The pointer of a result. -/
def pointerOf (ctx : Context) (c : CompiledPath) (t : Store) : Single → Except PathError Pointer
  | .pointer p => if ctx.env.lenient || p.node.isActual t then .ok p else .error c.notFound
  | .empty =>
    if ctx.env.lenient then Registry.standard.root t .null ctx.env.locale else .error c.notFound
  | .answer a => do Registry.standard.root t (← a.toValue t .standard) ctx.env.locale

theorem result_getPointer (ctx : Context) (s : Store) :
    (c.getPointer ctx .standard).result s =
      match (c.single ctx .standard).result s with
      | (.ok one, t) => (c.pointerOf ctx t one, t)
      | (.error e, t) => (.error e, t) := by
  rw [getPointer, Action.result_bind]
  rcases (c.single ctx .standard).result s with ⟨e | one, t⟩
  · rfl
  · simp only [Action.result_read]
    cases one <;> rfl

/-- A pointer shows nothing: null, or a null inside too many cells to be shown. -/
def ShowsNothing (t : Store) (q : Pointer) : Prop :=
  q.value t .standard = .ok .null ∨
    q.HidesNull t ∧ q.value t .standard = .error (.tooIndirect (q.path t))

/-- What a lenient context may give where a strict one gives `x`: a pointer that shows nothing where
the strict one finds nothing, and else the same. -/
def LenientPointer (t : Store) (x y : Except PathError Pointer) : Prop :=
  match x with
  | .error (.notFound _) => ∃ q, y = .ok q ∧ ShowsNothing t q
  | x => y = x

theorem lenientPointer_of_within {x : Except PathError Pointer}
    (h : Except.Within (fun e => ¬ e.IsNotFound) x) : LenientPointer t x x := by
  cases x with
  | ok v => rfl
  | error e => cases e <;> first | rfl | exact absurd ⟨_, rfl⟩ h

theorem pointerOf_withLenience (one : Single)
    (hE : ∀ e : PathError, e.OfEvaluation → ¬ e.IsNotFound) :
    LenientPointer t (c.pointerOf (ctx.withLenience false) t one)
      (c.pointerOf (ctx.withLenience true) t one) := by
  cases one with
  | answer a =>
    exact lenientPointer_of_within <| (Answer.within_toValue hE).bind fun v =>
      Registry.within_create hE none v _ []
  | empty =>
    refine ⟨{ visit := { node := .null none, occasion := t.now }, locale := ctx.env.locale },
      rfl, .inl ?_⟩
    exact Pointer.value_of_immediate_null trivial rfl
  | pointer p =>
    cases hactual : p.node.isActual t with
    | true => simp [pointerOf, hactual, Context.withLenience, LenientPointer]
    | false =>
      have hshows : ShowsNothing t p := Pointer.value_of_not_actual hactual
      simpa [pointerOf, hactual, Context.withLenience, LenientPointer, notFound] using hshows

theorem getPointer_withLenience (h : ctx.env.FunctionsWithin fun e => ¬ e.IsNotFound) (s : Store) :
    ((c.getPointer (ctx.withLenience true) .standard).result s).2 =
        ((c.getPointer (ctx.withLenience false) .standard).result s).2 ∧
      LenientPointer ((c.getPointer (ctx.withLenience false) .standard).result s).2
        ((c.getPointer (ctx.withLenience false) .standard).result s).1
        ((c.getPointer (ctx.withLenience true) .standard).result s).1 := by
  have hcovers := covers_of_functionsWithin h
  have hsingle (b : Bool) : c.single (ctx.withLenience b) .standard = c.single ctx .standard :=
    Environment.single_withLenience ..
  have hwithin : Except.Within _ ((c.single ctx .standard).result s).1 :=
    Environment.single_within hcovers c.expr.value { node := ctx.here } s
  rw [result_getPointer, result_getPointer, hsingle, hsingle]
  rcases hs : (c.single ctx .standard).result s with ⟨e | one, t⟩
  · rw [hs] at hwithin
    exact ⟨rfl, lenientPointer_of_within (x := .error e) hwithin⟩
  · exact ⟨rfl, pointerOf_withLenience one hcovers.own⟩

/-! ## A null inside cells -/

/-- Null inside `n` cells, of which cell `i` holds the null inside `i` cells. -/
def wrappedNull : Nat → Value
  | 0 => .null
  | n + 1 => .cell n

/-- A map with one slot, which holds null inside `n` cells. -/
def wrappedStore (n : Nat) : Store where
  maps := ⟨#[.ofList [("k", wrappedNull n)]]⟩
  cells := ⟨Array.ofFn fun i : Fin n => wrappedNull i⟩

/-- A context at the root of the map, with a function that always fails. -/
def wrappedContext : Context :=
  let root : Pointer := { visit := { node := .map 0 none, occasion := {} } }
  let failing : Function := fun _ _ => throw (.call "stop" (.failed "stopped"))
  let functions : FunctionLibrary := ⟨[(⟨.bare "stop", none⟩, failing)]⟩
  { env := { root, locale := {}, lenient := false, own := { scope := 0, functions } }
    here := root }

/-- The first element of the slot. -/
def wrappedStep : NamedStep := { name := .bare "k", number := some 1 }

/-- The path to it. -/
def pathToWrapped : CompiledPath where
  source := "/k[1]"
  expr := { id := 0, value := .path .root [wrappedStep.step] }

/-- The pointer to which the path leads. -/
def pointerToWrapped : Pointer :=
  wrappedContext.env.root.child { trail := [0, 0] } (.slot (.map 0) (.bare "k") (.element 0) false)

theorem cells_wrappedStore {n i : Nat} (h : i < n) :
    (wrappedStore n).cells.get i = wrappedNull i := by
  simp [wrappedStore, Pool.get, Array.getD, h]

theorem slot_wrappedStore (n : Nat) : (wrappedStore n).slot (.map 0) "k" = wrappedNull n := rfl

theorem unwrapUpTo_wrappedNull {n m k : Nat} (hk : k ≤ n) :
    (wrappedStore n).unwrapUpTo m (wrappedNull k) = wrappedNull (k - m) := by
  induction m generalizing k with
  | zero => cases k <;> rfl
  | succ m ih =>
    cases k with
    | zero => simp [wrappedNull, Store.unwrapUpTo]
    | succ k =>
      rw [wrappedNull, Store.unwrapUpTo, cells_wrappedStore hk, ih (by omega)]
      congr 1
      omega

theorem endUpTo?_wrappedNull {n m k : Nat} (hk : k ≤ n) (hm : m ≤ k) :
    (wrappedStore n).endUpTo? m (wrappedNull k) = none := by
  induction m generalizing k with
  | zero => cases k <;> rfl
  | succ m ih =>
    obtain ⟨k, rfl⟩ : ∃ j, k = j + 1 := ⟨k - 1, by omega⟩
    rw [wrappedNull, Store.endUpTo?, cells_wrappedStore hk]
    exact ih (by omega) (by omega)

theorem single_wrapped (n : Nat) (b : Bool) :
    (pathToWrapped.single (wrappedContext.withLenience b) .standard).result (wrappedStore n) =
      (.ok (.pointer pointerToWrapped), wrappedStore n) := by
  have hpath : simplePath? .root [wrappedStep.step] = some (true, [wrappedStep.simple]) := by
    rw [simplePath?, List.mapM_cons, NamedStep.simple?_step (by decide)]
    rfl
  have hslot (o : Occasion) : Environment.slotOrMissing .standard wrappedContext.env.root
      wrappedStep.name wrappedStep.isAttribute ((wrappedStore n).on o) =
        .ok (wrappedContext.env.root.child o (.slot (.map 0) (.bare "k") .whole false)) := rfl
  have hroot : (wrappedContext.withLenience b).env.root = wrappedContext.env.root := rfl
  have hplace : NamedStep.place 1 = 0 := NamedStep.place_of_le (by decide)
  rw [single, Environment.single]
  simp only [Action.result_bind, Action.result_get, pathToWrapped, hpath, if_true, hroot,
    Environment.resolve, Environment.result_resolveStep, hslot, Except.map_ok, Action.result_pure]
  simp only [Environment.moved, wrappedStep, hplace]
  rfl


theorem unwrap_slot_wrapped {n : Nat} (hn : n ≤ Store.maxIndirections) :
    (wrappedStore n).unwrap ((wrappedStore n).slot (.map 0) "k") = .null := by
  rw [slot_wrappedStore, Store.unwrap, unwrapUpTo_wrappedNull (Nat.le_refl _),
    Nat.sub_eq_zero_of_le hn]
  rfl

theorem isActual_pointerToWrapped {n : Nat} (hn : n ≤ Store.maxIndirections) :
    pointerToWrapped.node.isActual (wrappedStore n) = false := by
  have hlength : pointerToWrapped.node.length (wrappedStore n) = 0 := by
    have hunwrap : (wrappedStore n).unwrap (pointerToWrapped.node.base (wrappedStore n)) = .null :=
      unwrap_slot_wrapped hn
    have hnode : pointerToWrapped.node = .slot (.map 0) (.bare "k") (.element 0) false := rfl
    rw [hnode] at hunwrap ⊢
    simp only [Node.length, hunwrap]
  show (decide ((0 : Int) ≤ 0) && decide ((0 : Int) < pointerToWrapped.node.length _)) = false
  rw [hlength]
  rfl

theorem strict_getPointer_wrapped {n : Nat} (hn : n ≤ Store.maxIndirections) :
    (pathToWrapped.getPointer (wrappedContext.withLenience false) .standard).result
      (wrappedStore n) = (.error (.notFound "/k[1]"), wrappedStore n) := by
  rw [result_getPointer, single_wrapped]
  show (if pointerToWrapped.node.isActual _ then _ else _, _) = _
  rw [isActual_pointerToWrapped hn]
  rfl

theorem lenient_getPointer_wrapped (n : Nat) :
    (pathToWrapped.getPointer (wrappedContext.withLenience true) .standard).result
      (wrappedStore n) = (.ok pointerToWrapped, wrappedStore n) := by
  rw [result_getPointer, single_wrapped]
  rfl

/-- A null inside so many cells cannot be shown. -/
theorem value_pointerToWrapped {n : Nat} (hn : n ≤ Store.maxIndirections)
    (hlong : Store.maxIndirections - 1 ≤ n) :
    pointerToWrapped.value (wrappedStore n) .standard ≠ .ok .null := by
  have himm : pointerToWrapped.node.immediate (wrappedStore n) = wrappedNull n :=
    Store.select_zero_of_unwrap (unwrap_slot_wrapped hn)
  have hplain : pointerToWrapped.node.IsPlain := trivial
  have hlink : pointerToWrapped.node.isLink = true := rfl
  rw [Ne, Pointer.value_eq_ok_iff hplain, Node.end?, if_pos hlink, himm,
    endUpTo?_wrappedNull (Nat.le_refl _) hlong]
  exact (Option.some_ne_none _).symm

end CompiledPath

end PathQuery
