import PathQuery.Proofs.Counterparts

/-!
# Operators and functions of counterparts

Where the pointers of one store have counterparts in another, operators and core functions give the
same scalars and counterparts of the same nodes.

* names: `Value.isBool`, `Value.isNumber`, `Focus.Alike`; `CoreFunction.pair?`.
* **`Store.Mirrors.apply_alike`** for operators, **`CoreFunction.apply_alike`** for functions, with
  one case for all functions of two texts.
-/

namespace PathQuery

/-! ## Operators -/

/-- The value is a truth value. -/
def Value.isBool : Value → Bool
  | bool _ => true
  | _ => false

/-- The value is a number. -/
def Value.isNumber : Value → Bool
  | number _ => true
  | _ => false

theorem equalAtoms_eq (s : Store) (v w : Value) :
    equalAtoms s v w =
      if v.isBool || w.isBool then s.toBool v == s.toBool w
      else if v.isNumber || w.isNumber then s.toNumber v == s.toNumber w
      else s.toText v == s.toText w := by
  have hnumber (x : Float) : s.toNumber (.number x) = x := by
    simp [Store.toNumber, Store.toNumberUpTo]
  cases v <;> cases w <;>
    simp [equalAtoms, Value.isBool, Value.isNumber, Store.toBool, hnumber]

namespace Store.Mirrors

variable {R : Pointer → Pointer → Prop} {V O : Value → Value → Prop} {r : Registry} {s t : Store}
variable (h : Store.Mirrors R V O r s t) {p q : Pointer} {a a' b b' : Answer} {v w v' w' : Value}

include h

open PathQuery.Except (Alike)

theorem atoms_alike (ha : a.Alike R O a') :
    Alike (List.Forall₂ V) (a.atoms s r) (a'.atoms t r) := by
  cases ha with
  | nodes hps => exact Alike.mapM hps fun p q hp => (h.value hp).map fun _ _ => h.atom
  | text t => exact .cons (h.ofScalar rfl) .nil
  | number x => exact .cons (h.ofScalar rfl) .nil
  | boolean b => exact .cons (h.ofScalar rfl) .nil
  | object hv => exact .cons (h.atom (h.object hv)) .nil

theorem eq_of_test {test : Value → Bool} (htest : ∀ v, test v = true → v.isScalar = true)
    (hv : V v w) : test w = test v := by
  cases hv₁ : test v with
  | true => rw [h.scalar hv (.inl (htest v hv₁)), hv₁]
  | false =>
    cases hw : test w with
    | false => rfl
    | true => rw [h.scalar hv (.inr (htest w hw)), hv₁] at hw; cases hw

theorem equalAtoms_alike (hv : V v w) (hv' : V v' w') :
    equalAtoms t w w' = equalAtoms s v v' := by
  have hbool {v w : Value} (hv : V v w) : w.isBool = v.isBool :=
    h.eq_of_test (fun v hv => by cases v <;> first | rfl | cases hv) hv
  have hnumber {v w : Value} (hv : V v w) : w.isNumber = v.isNumber :=
    h.eq_of_test (fun v hv => by cases v <;> first | rfl | cases hv) hv
  rw [equalAtoms_eq, equalAtoms_eq, hbool hv, hbool hv', hnumber hv, hnumber hv', h.toBool hv,
    h.toBool hv', h.toNumber hv, h.toNumber hv', h.toText hv, h.toText hv']

theorem compareEquality_alike (equal : Bool) (ha : a.Alike R O a') (hb : b.Alike R O b') :
    Alike (· = ·) (compareEquality s r equal a b) (compareEquality t r equal a' b') := by
  have hwhole : Alike (· = ·) (.ok ((a.toBool s == b.toBool s) == equal))
      (.ok ((a'.toBool t == b'.toBool t) == equal)) := by
    rw [h.toBool_alike ha, h.toBool_alike hb]
    rfl
  have hpairs : Alike (· = ·)
      (do
        let left ← a.atoms s r
        let right ← b.atoms s r
        pure (somePair (fun v w => equalAtoms s v w == equal) left right))
      (do
        let left ← a'.atoms t r
        let right ← b'.atoms t r
        pure (somePair (fun v w => equalAtoms t v w == equal) left right)) := by
    refine (h.atoms_alike ha).bind fun vs ws hvs => (h.atoms_alike hb).bind fun vs' ws' hvs' => ?_
    refine (forall₂_any hvs fun v w hv => forall₂_any hvs' fun v' w' hv' => ?_).symm
    rw [h.equalAtoms_alike hv hv']
  cases ha <;> cases hb <;> first | exact hwhole | exact hpairs

theorem compareNumbers_alike (related : Float → Float → Bool) (ha : a.Alike R O a')
    (hb : b.Alike R O b') :
    Alike (· = ·) (compareNumbers s r related a b) (compareNumbers t r related a' b') := by
  have hnumbers {vs ws : List Value} (hvs : List.Forall₂ V vs ws) :
      ws.map t.toNumber = vs.map s.toNumber := by
    induction hvs with
    | nil => rfl
    | cons hv _ ih => rw [List.map_cons, List.map_cons, h.toNumber hv, ih]
  refine (h.atoms_alike ha).bind fun vs ws hvs => (h.atoms_alike hb).bind fun vs' ws' hvs' => ?_
  rw [hnumbers hvs, hnumbers hvs']
  rfl

theorem arithmetic_alike (f : Float → Float → Float) (ha : a.Alike R O a') (hb : b.Alike R O b') :
    Alike (Answer.Alike R O) (arithmetic s r f a b) (arithmetic t r f a' b') :=
  (h.toNumber_alike ha).bind fun x x' hx => (h.toNumber_alike hb).bind fun y y' hy => by
    obtain rfl := hx
    obtain rfl := hy
    exact .number _

/-- **No operator tells counterparts apart.** -/
theorem apply_alike (op : BinaryOp) (ha : a.Alike R O a') (hb : b.Alike R O b') :
    Alike (Answer.Alike R O) (op.apply s r a b) (op.apply t r a' b') := by
  have hbool {x y : Except PathError Bool} (hx : Alike (· = ·) x y) :
      Alike (Answer.Alike R O) (x.map .boolean) (y.map .boolean) :=
    hx.map fun b b' hb => hb ▸ .boolean b
  cases op with
  | or | and =>
    rw [BinaryOp.apply, BinaryOp.apply, h.toBool_alike ha, h.toBool_alike hb]
    exact .boolean _
  | equal | notEqual => exact hbool (h.compareEquality_alike _ ha hb)
  | less | lessEqual | greater | greaterEqual => exact hbool (h.compareNumbers_alike _ ha hb)
  | add | subtract | multiply | divide | modulo => exact h.arithmetic_alike _ ha hb
  | union =>
    exact (h.sortUnique_alike (List.rel_append ha.items hb.items)).map
      fun _ _ => .nodes

end Store.Mirrors

/-! ## Core functions -/

/-- The foci are at counterparts, at one place and on occasions that `T` relates. -/
structure Focus.Alike (R : Pointer → Pointer → Prop) (T : Occasion → Occasion → Prop)
    (f f' : Focus) : Prop where
  node : R f.node f'.node
  position : f'.position = f.position
  size : f'.size = f.size
  occasion : T f.occasion f'.occasion

namespace CoreFunction

/-- What a function of two texts makes of them. -/
def pair? : CoreFunction → Option (List Char → List Char → Answer)
  | startsWith => some fun t needle => .boolean (needle.isPrefixOf t)
  | endsWith => some fun t needle => .boolean (needle.isSuffixOf t)
  | contains => some fun t needle => .boolean (Text.occursIn needle t)
  | substringBefore => some fun t needle => answerChars (Text.before needle t)
  | substringAfter => some fun t needle => answerChars (Text.after needle t)
  | _ => none

/-- A call of a function of two texts. -/
def ofPair (f : CoreFunction) (s : Store) (r : Registry) (g : List Char → List Char → Answer) :
    List Answer → Except PathError Answer
  | [t, needle] => ofTexts s r g t needle
  | args => f.fail (.arity f.arity.1 f.arity.2 args.length)

open PathQuery.Except (Alike)

variable {R : Pointer → Pointer → Prop} {V O : Value → Value → Prop} {r : Registry} {s t : Store}
variable (h : Store.Mirrors R V O r s t) {focus focus' : Focus} {a a' b b' : Answer}
variable {args args' : List Answer} {T : Occasion → Occasion → Prop} (f : CoreFunction)

theorem fail_alike {α β : Type} {P : α → β → Prop} (fault : CallFault) :
    Alike P (f.fail fault) (f.fail fault) := rfl

theorem checkArity_alike (n : Nat) :
    Alike (fun _ _ => True) (f.checkArity n) (f.checkArity n) := by
  cases f.checkArity n with
  | ok _ => trivial
  | error e => exact rfl

include h in
theorem nodesOf_alike (ha : a.Alike R O a') :
    Alike (List.Forall₂ R) (f.nodesOf s a) (f.nodesOf t a') := by
  cases ha with
  | nodes hps => exact hps
  | @object v w hv =>
    have hshown : (Answer.object w).shown t = (Answer.object v).shown s := by
      rw [Answer.shown, Answer.shown, h.shown hv]
    rw [nodesOf, nodesOf, hshown]
    · exact f.fail_alike _
    all_goals nofun
  | _ => exact rfl

include h in
theorem subject_alike (hf : focus.Alike R T focus')
    (hargs : List.Forall₂ (Answer.Alike R O) args args') :
    Alike (Option.Rel R) (f.subject s focus args) (f.subject t focus' args') := by
  cases hargs with
  | nil => exact .some hf.node
  | cons ha _ => exact (f.nodesOf_alike h ha).map fun _ _ => forall₂_head?

include h in
theorem subject_bind_alike {g : Option Pointer → String} {g' : Option Pointer → String}
    (hg : ∀ x y, Option.Rel R x y → g' y = g x) (hf : focus.Alike R T focus')
    (hargs : List.Forall₂ (Answer.Alike R O) args args') :
    Alike (Answer.Alike R O) (do pure (.text (g (← f.subject s focus args))))
      (do pure (.text (g' (← f.subject t focus' args')))) :=
  (f.subject_alike h hf hargs).bind fun x y hx => by
    rw [hg x y hx]
    exact .text _

include h

theorem textOf_alike (hf : focus.Alike R T focus')
    (hargs : List.Forall₂ (Answer.Alike R O) args args') :
    Alike (· = ·) (textOf s r focus args) (textOf t r focus' args') := by
  cases hargs with
  | nil =>
    refine (h.value hf.node).bind fun v w hv => ?_
    rw [h.toText hv]
    rfl
  | cons ha _ => exact (h.toText_alike ha).map fun _ _ hx => congrArg _ hx

theorem ofTexts_alike {g : List Char → List Char → Answer} (hg : ∀ t n, (g t n).Alike R O (g t n))
    (ha : a.Alike R O a') (hb : b.Alike R O b') :
    Alike (Answer.Alike R O) (ofTexts s r g a b) (ofTexts t r g a' b') :=
  (h.toText_alike hb).bind fun x x' hx => (h.toText_alike ha).bind fun y y' hy => by
    obtain rfl := hx
    obtain rfl := hy
    exact hg _ _

omit h in
theorem run_of_pair? {f : CoreFunction} {g : List Char → List Char → Answer}
    (hg : f.pair? = some g) (args : List Answer) : f.run s r focus args = f.ofPair s r g args := by
  cases f <;> simp only [pair?, Option.some.injEq, reduceCtorEq] at hg <;> subst hg <;>
    rcases args with _ | ⟨_, _ | ⟨_, _ | _⟩⟩ <;> rfl

theorem run_alike_of_pair? {f : CoreFunction} {g : List Char → List Char → Answer}
    (hg : f.pair? = some g) (hargs : List.Forall₂ (Answer.Alike R O) args args') :
    Alike (Answer.Alike R O) (f.run s r focus args) (f.run t r focus' args') := by
  have hsame (t n : List Char) : (g t n).Alike R O (g t n) := by
    cases f <;> simp only [pair?, Option.some.injEq, reduceCtorEq] at hg <;> subst hg <;>
      constructor
  rw [run_of_pair? hg, run_of_pair? hg]
  have hlength := hargs.length_eq
  rcases hargs with _ | ⟨ha, _ | ⟨hb, _ | _⟩⟩
  · exact f.fail_alike _
  · exact f.fail_alike _
  · exact ofTexts_alike h hsame ha hb
  · simp only [ofPair, hlength]
    exact f.fail_alike _

theorem substring_alike (hargs : List.Forall₂ (Answer.Alike R O) args args') :
    Alike (Answer.Alike R O) (substring.run s r focus args) (substring.run t r focus' args') := by
  have hrun (s : Store) (focus : Focus) (a start : Answer) (length : List Answer) :
      substring.run s r focus (a :: start :: length) = (do
        let length ← length.head?.mapM fun a => a.toNumber s r
        let start ← start.toNumber s r
        let t ← a.toText s r
        pure (answerChars (substringOf t.toList start length))) := rfl
  rcases hargs with _ | ⟨ht, _ | ⟨hstart, hlength⟩⟩
  · exact rfl
  · exact rfl
  · rw [hrun, hrun]
    refine Alike.bind (P := (· = ·)) ?_ fun x x' hx => (h.toNumber_alike hstart).bind
      fun y y' hy => (h.toText_alike ht).bind fun z z' hz => ?_
    · cases hlength with
      | nil => exact rfl
      | cons ha _ => exact (h.toNumber_alike ha).map fun _ _ hx => congrArg some hx
    · rw [hx, hy, hz]
      exact .text _

theorem translate_alike (hargs : List.Forall₂ (Answer.Alike R O) args args') :
    Alike (Answer.Alike R O) (translate.run s r focus args) (translate.run t r focus' args') := by
  have hrun (s : Store) (focus : Focus) (a source target : Answer) :
      translate.run s r focus [a, source, target] = (do
        let target ← target.toText s r
        let source ← source.toText s r
        let t ← a.toText s r
        pure (answerChars (translateChars source.toList target.toList t.toList))) := rfl
  have hlength := hargs.length_eq
  rcases hargs with _ | ⟨ht, _ | ⟨hsource, _ | ⟨htarget, _ | _⟩⟩⟩
  · exact rfl
  · exact rfl
  · exact rfl
  · rw [hrun, hrun]
    refine (h.toText_alike htarget).bind fun x x' hx => (h.toText_alike hsource).bind
      fun y y' hy => (h.toText_alike ht).bind fun z z' hz => ?_
    rw [hx, hy, hz]
    exact .text _
  · show PathError.call _ (.arity _ _ _) = PathError.call _ (.arity _ _ _)
    rw [hlength]

theorem sum_alike (ha : a.Alike R O a') :
    Alike (Answer.Alike R O) (sum.run s r focus (a :: args)) (sum.run t r focus' (a' :: args')) := by
  have hrun (s : Store) (focus : Focus) (a : Answer) (args : List Answer) :
      sum.run s r focus (a :: args) = (do
        let values ← (← sum.nodesOf s a).mapM fun p => p.value s r
        pure (.number (values.foldl (fun x v => x + s.toNumber v) 0.0))) := rfl
  rw [hrun, hrun]
  refine (nodesOf_alike h _ ha).bind fun ps qs hps => (h.values_alike hps).bind fun vs ws hvs => ?_
  rw [h.foldl_toNumber hvs]
  exact .number _

theorem run_alike (hlang : f = lang → focus'.node.locale = focus.node.locale)
    (hf : focus.Alike R T focus')
    (hargs : List.Forall₂ (Answer.Alike R O) args args') :
    Alike (Answer.Alike R O) (f.run s r focus args) (f.run t r focus' args') := by
  have hfail : Alike (Answer.Alike R O) (f.fail (.arity f.arity.1 f.arity.2 args.length))
      (f.fail (.arity f.arity.1 f.arity.2 args'.length)) := by
    rw [hargs.length_eq]
    exact f.fail_alike _
  have htext (g : List Char → Answer) (hg : ∀ cs, (g cs).Alike R O (g cs)) :
      Alike (Answer.Alike R O) (do pure (g (← textOf s r focus args)))
        (do pure (g (← textOf t r focus' args'))) :=
    (textOf_alike h hf hargs).bind fun x y hx => hx ▸ hg x
  have hnumber {a a' : Answer} (ha : a.Alike R O a') (g : Float → Float) :
      Alike (Answer.Alike R O) (do pure (.number (g (← a.toNumber s r))))
        (do pure (.number (g (← a'.toNumber t r)))) :=
    (h.toNumber_alike ha).bind fun x y hx => hx ▸ .number _
  have hchars (cs : List Char) : (answerChars cs).Alike R O (answerChars cs) := .text _
  have hcount (n : Nat) : (answerCount n).Alike R O (answerCount n) := .number _
  cases f with
  | last =>
    show Answer.Alike R O (answerCount focus.size) (answerCount focus'.size)
    rw [hf.size]
    exact hcount _
  | position =>
    show Answer.Alike R O (answerCount focus.position) (answerCount focus'.position)
    rw [hf.position]
    exact hcount _
  | localName | name =>
    refine subject_bind_alike h _ (fun x y hx => ?_) hf hargs
    cases hx with
    | none => rfl
    | some hp => rw [Option.bind_some, Option.bind_some, h.name? hp]
  | namespaceUri =>
    refine subject_bind_alike h _ (fun x y hx => ?_) hf hargs
    cases hx with
    | none => rfl
    | some hp => rw [Option.bind_some, Option.bind_some, h.ownUri? hp]
  | string => exact htext answerChars hchars
  | stringLength => exact htext (fun cs => answerCount cs.length) fun _ => hcount _
  | normalizeSpace =>
    exact htext (fun cs => answerChars (List.intercalate [' '] (Text.words cs))) fun _ => hchars _
  | concat =>
    refine (Alike.mapM hargs fun a b ha => h.toText_alike ha).bind fun ts ts' hts => ?_
    rw [List.forall₂_eq_eq_eq] at hts
    exact hts ▸ .text _
  | startsWith | endsWith | contains | substringBefore | substringAfter =>
    exact run_alike_of_pair? h rfl hargs
  | substring => exact substring_alike h hargs
  | translate => exact translate_alike h hargs
  | boolean | not =>
    cases hargs with
    | nil => exact hfail
    | cons ha _ =>
      show Answer.Alike R O _ _
      rw [h.toBool_alike ha]
      exact .boolean _
  | true => exact .boolean _
  | false => exact .boolean _
  | count =>
    cases hargs with
    | nil => exact hfail
    | cons ha _ => exact (nodesOf_alike h _ ha).bind fun ps qs hps => hps.length_eq ▸ hcount _
  | lang =>
    cases hargs with
    | nil => exact hfail
    | cons ha _ =>
      refine (h.toText_alike ha).bind fun x y hx => ?_
      rw [hlang rfl, hx]
      exact .boolean _
  | number =>
    cases hargs with
    | nil =>
      refine (h.value hf.node).bind fun v w hv => ?_
      rw [h.toNumber hv]
      exact .number _
    | cons ha _ => exact (h.toNumber_alike ha).map fun x y hx => hx ▸ .number x
  | sum =>
    cases hargs with
    | nil => exact hfail
    | cons ha _ => exact sum_alike h ha
  | floor | ceiling | round =>
    cases hargs with
    | nil => exact hfail
    | cons ha _ => exact hnumber ha _

/-- **No core function tells counterparts apart**, but for the one that asks for the language of the
context node. -/
theorem apply_alike (hlang : f = lang → focus'.node.locale = focus.node.locale)
    (hf : focus.Alike R T focus')
    (hargs : List.Forall₂ (Answer.Alike R O) args args') :
    Alike (Answer.Alike R O) (f.apply s r focus args) (f.apply t r focus' args') := by
  rw [apply, apply, ← hargs.length_eq]
  exact (f.checkArity_alike _).bind fun _ _ _ => f.run_alike h hlang hf hargs

end CoreFunction

end PathQuery
