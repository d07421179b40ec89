import PathQuery.Proofs.Results
import PathQuery.Proofs.Walks
import PathQuery.Query.Compiled

/-!
# How evaluation fails

Evaluation has few failures of its own. Any other failure of an expression is one of a function that
the caller added.

* names: `PathError.OfEvaluation`; `Except.Meets`, `Except.Within`, `Search.Within`,
  `Action.Meets`; `Environment.FunctionsWithin`,
  `Environment.Covers`.
* **`compute_within`**, **`single_within`**: an expression fails with a failure of evaluation, or as
  an added function does, at once or when its nodes are pulled.
-/

namespace PathQuery

/-- The failures that evaluation comes to by itself. -/
inductive PathError.OfEvaluation : PathError → Prop
  | unresolvable (kind : String) : OfEvaluation (.unresolvable kind)
  | tooIndirect (path : String) : OfEvaluation (.tooIndirect path)
  | undeclared (name : String) : OfEvaluation (.undeclared name)
  | unknownFunction (name : String) : OfEvaluation (.unknownFunction name)
  | call (function : String) (fault : CallFault) : OfEvaluation (.call function fault)
  | incomparable (left right : String) : OfEvaluation (.incomparable left right)

/-! ## Results and failures of computations -/

namespace Except

variable {α β : Type} {E : PathError → Prop} {P Q : α → Prop} {R : β → Prop}

/-- The computation gives a result of the kind `Q`, or fails with an error of the kind `E`. -/
def Meets (E : PathError → Prop) (Q : α → Prop) : Except PathError α → Prop
  | .ok a => Q a
  | .error e => E e

/-- The computation fails with errors of the kind `E` only. -/
def Within (E : PathError → Prop) (x : Except PathError α) : Prop := Meets E (fun _ => True) x

variable {x : Except PathError α} {f : α → Except PathError β}

theorem Meets.bind (hx : Meets E Q x) (hf : ∀ a, Q a → Meets E R (f a)) : Meets E R (x >>= f) := by
  cases x with
  | ok a => exact hf a hx
  | error e => exact hx

theorem Meets.map {f : α → β} (hx : Meets E Q x) (hf : ∀ a, Q a → R (f a)) :
    Meets E R (x.map f) := by
  cases x with
  | ok a => exact hf a hx
  | error e => exact hx

theorem within_ok (a : α) : Within E (.ok a : Except PathError α) := trivial

theorem Within.bind (hx : Within E x) (hf : ∀ a, Within E (f a)) : Within E (x >>= f) :=
  Meets.bind hx fun a _ => hf a

theorem Within.map (hx : Within E x) (f : α → β) : Within E (x.map f) :=
  Meets.map hx fun _ _ => trivial

theorem Within.mapM (hf : ∀ a, Within E (f a)) (as : List α) : Within E (as.mapM f) := by
  induction as with
  | nil => exact within_ok []
  | cons a as ih =>
    rw [List.mapM_cons]
    exact (hf a).bind fun b => ih.bind fun bs => within_ok _

theorem Within.filterMapM {f : α → Except PathError (Option β)} (hf : ∀ a, Within E (f a))
    (as : List α) : Within E (as.filterMapM f) := by
  induction as with
  | nil => exact within_ok []
  | cons a as ih =>
    rw [List.filterMapM_cons]
    refine (hf a).bind fun b => ?_
    cases b with
    | none => exact ih
    | some b => exact ih.bind fun bs => within_ok _

theorem Within.optionMapM (hf : ∀ a, Within E (f a)) (o : Option α) : Within E (o.mapM f) := by
  cases o with
  | none => exact within_ok none
  | some a => exact (hf a).map some

end Except

namespace Nodes

variable {E : PathError → Prop} {a b : Nodes}

/-- The sequence breaks off with errors of the kind `E` only. -/
def Within (E : PathError → Prop) (a : Nodes) : Prop := ∀ e, a.failure = some e → E e

theorem within_ofList (ps : List Pointer) : (ofList ps).Within E := nofun

theorem Within.append (ha : a.Within E) (hb : b.Within E) : (a ++ b).Within E := by
  obtain ⟨as, _ | e⟩ := a
  · exact hb
  · exact ha

theorem Within.flatMap {f : Pointer → Nodes} (ha : a.Within E) (hf : ∀ p, (f p).Within E) :
    (a.flatMap f).Within E := by
  obtain ⟨as, failure⟩ := a
  induction as with
  | nil => exact ha
  | cons p as ih => exact (hf p).append (ih ha)

theorem Within.all (ha : a.Within E) : Except.Within E a.all := by
  obtain ⟨as, _ | e⟩ := a
  · trivial
  · exact ha e rfl

theorem Within.first (ha : a.Within E) : Except.Within E a.first := by
  obtain ⟨_ | ⟨p, as⟩, _ | e⟩ := a
  · trivial
  · exact ha e rfl
  · trivial
  · trivial

end Nodes

namespace Search

variable {E : PathError → Prop} {a b : Search}

/-- The search breaks off with errors of the kind `E` only. -/
def Within (E : PathError → Prop) (a : Search) : Prop := a.nodes.Within E

theorem within_ended : ended.Within E := nofun

theorem within_broken {e : PathError} (h : E e) : (broken e).Within E := by
  rintro _ ⟨⟩
  exact h

theorem within_found {p : Pointer} {more : Unit → Search} (h : (more ()).Within E) :
    (found p more).Within E := by
  rw [Within, nodes_found]
  exact (Nodes.within_ofList _).append h

theorem Within.of_found {p : Pointer} {more : Unit → Search} (h : (found p more).Within E) :
    (more ()).Within E := by
  rw [Within, nodes_found] at h
  exact h

theorem within_ofList (ps : List Pointer) : (ofList ps).Within E := by
  rw [Within, nodes_ofList]
  exact Nodes.within_ofList ps

theorem within_ofExcept {x : Except PathError Search} (h : Except.Meets E (Within E) x) :
    (ofExcept x).Within E := by
  cases x with
  | ok a => exact h
  | error e => exact within_broken h

theorem Within.filter (ha : a.Within E) (test : Pointer → Bool) : (a.filter test).Within E := by
  rw [Within, nodes_filter]
  exact ha

theorem Within.gather {f : Pointer → Search} (ha : a.Within E) (hf : ∀ p, (f p).Within E) :
    (a.gather f).Within E := by
  rw [Within, nodes_gather]
  exact Nodes.Within.flatMap ha hf

theorem Within.distinct (ha : a.Within E) (s : Store) : (a.distinct s).Within E := by
  rw [Within, nodes_distinct]
  exact ha

theorem Within.all (ha : a.Within E) : Except.Within E a.all := Nodes.Within.all ha

theorem Within.first (ha : a.Within E) : Except.Within E a.first := by
  rw [first_eq]
  exact Nodes.Within.first ha

end Search

namespace Action

variable {α β : Type} {E : PathError → Prop} {Q : α → Prop} {R : β → Prop} {a : Action α}
variable {f : α → Action β}

/-- On every store, the action gives a result of the kind `Q`, or fails with an error of the kind
`E`. -/
def Meets (E : PathError → Prop) (Q : α → Prop) (a : Action α) : Prop :=
  ∀ s, Except.Meets E Q (a.result s).1

/-- The action fails with errors of the kind `E` only. -/
def Within (E : PathError → Prop) (a : Action α) : Prop := Meets E (fun _ => True) a

theorem meets_pure {x : α} (h : Q x) : (pure x : Action α).Meets E Q := fun _ => h

theorem within_pure (x : α) : (pure x : Action α).Within E := fun _ => trivial

theorem meets_throw {e : PathError} (h : E e) : (throw e : Action α).Meets E Q := fun _ => h

theorem meets_read {g : Store → Except PathError α} (h : ∀ s, Except.Meets E Q (g s)) :
    (read g).Meets E Q := fun s => by
  rw [result_read]
  exact h s

theorem Meets.bind (ha : a.Meets E Q) (hf : ∀ x, Q x → (f x).Meets E R) :
    (a >>= f).Meets E R := by
  intro s
  have hs := ha s
  rw [result_bind]
  rcases h : a.result s with ⟨e | x, t⟩ <;> rw [h] at hs
  · exact hs
  · exact hf x hs t

theorem meets_get_bind {f : Store → Action β} (h : ∀ s, (f s).Meets E R) :
    ((get : Action Store) >>= f).Meets E R := fun s => h s s

theorem meets_liftM_bind {x : Except PathError α} (hx : Except.Meets E Q x)
    (hf : ∀ y, Q y → (f y).Meets E R) : ((liftM x : Action α) >>= f).Meets E R :=
  Meets.bind (fun s => by rwa [result_liftM]) hf

end Action

/-! ## Reading the graph -/

section Reading

open PathQuery.Except

variable {E : PathError → Prop} (hE : ∀ e, e.OfEvaluation → E e) {s : Store} {r : Registry}

include hE

theorem Registry.within_create (name : Option QName) (v : Value) (locale : Locale)
    (above : List Visit) : Within E (r.create s name v locale above) := by
  rw [create]
  split
  · exact within_ok _
  · exact hE _ (.unresolvable _)

namespace Pointer

variable {p : Pointer}

theorem within_next? : Within E (p.next? s r) := by
  have hfollow : Within E (do
      pure (some (← r.create s p.node.name? (p.immediate s) p.locale p.chain))) :=
    (Registry.within_create hE ..).bind fun _ => within_ok _
  rw [next?]
  split
  · exact hfollow
  · exact hfollow
  · exact hfollow
  · split
    · exact within_ok _
    · exact hfollow
  · exact within_ok _

theorem within_valuePointerUpTo (n : Nat) : Within E (p.valuePointerUpTo s r n) := by
  induction n generalizing p with
  | zero => exact within_ok _
  | succ n ih =>
    refine (within_next? hE).bind fun q => ?_
    cases q with
    | none => exact within_ok _
    | some q => exact ih

theorem within_valuePointer : Within E (p.valuePointer s r) := by
  refine (within_valuePointerUpTo hE _).bind fun q => ?_
  cases q with
  | none => exact hE _ (.tooIndirect _)
  | some q => exact within_ok _

theorem within_value : Within E (p.value s r) :=
  (within_valuePointer hE).bind fun _ => within_ok _

theorem within_childrenWith {inner : Pointer → Except PathError (List Pointer)}
    (h : ∀ p, Within E (inner p)) : Within E (p.childrenWith s r inner) := by
  refine (within_valuePointer hE).bind fun v => ?_
  split
  · exact (Within.mapM h _).bind fun _ => within_ok _
  · exact within_ok _
  · exact within_ok _

theorem within_childrenUpTo (n : Nat) : Within E (p.childrenUpTo s r n) := by
  induction n generalizing p with
  | zero => exact within_childrenWith hE fun _ => within_ok _
  | succ n ih => exact within_childrenWith hE fun _ => ih

theorem within_children : Within E (p.children s r) := within_childrenUpTo hE _

theorem within_attributes : Within E (p.attributes s r) := by
  refine (within_valuePointer hE).bind fun v => ?_
  split <;> exact within_ok _

theorem within_namespaces : Within E (p.namespaces s r) := by
  refine (within_valuePointer hE).bind fun v => ?_
  split <;> exact within_ok _

theorem within_slot? (name : QName) (isAttribute : Bool) :
    Within E (p.slot? s r name isAttribute) := by
  refine (within_valuePointer hE).bind fun v => ?_
  split
  · split <;> exact within_ok _
  · exact within_ok _

/-! ### Axes -/

theorem within_subtreeUpTo (n : Nat) (inside : List Value) :
    (p.subtreeUpTo s r n inside fun _ => .ended).Within E := by
  have hvalue := within_value (p := p) (s := s) (r := r) hE
  have hchildren := within_children (p := p) (s := s) (r := r) hE
  induction n generalizing p inside with
  | zero =>
    unfold subtreeUpTo
    split
    · next e he => exact Search.within_broken (by rwa [he] at hvalue)
    · split
      · exact Search.within_found Search.within_ended
      · split
        · next e _ he => exact Search.within_broken (by rwa [he] at hchildren)
        · exact Search.within_found Search.within_ended
        · next h => cases h
  | succ n ih =>
    unfold subtreeUpTo
    split
    · next e he => exact Search.within_broken (by rwa [he] at hvalue)
    · split
      · exact Search.within_found Search.within_ended
      · split
        · next e _ he => exact Search.within_broken (by rwa [he] at hchildren)
        · next h => cases h
        · next children m _ hm =>
          cases hm
          refine Search.within_found ?_
          rw [Search.Within, Search.nodes_each (nodes_subtreeUpTo s r _ _), Search.nodes_ended,
            Nodes.append_nil]
          exact (Nodes.within_ofList _).flatMap fun q =>
            ih _ (within_value hE) (within_children hE)

theorem within_descendants : Meets E (Search.Within E) (p.descendants s r) := by
  refine Meets.bind (within_children hE) fun children _ =>
    Meets.bind (within_value hE) fun v _ => ?_
  show Search.Within E (.each _ _ _)
  rw [Search.Within, Search.nodes_each (nodes_subtreeUpTo s r _ _), Search.nodes_ended,
    Nodes.append_nil]
  exact (Nodes.within_ofList _).flatMap fun _ => within_subtreeUpTo hE _ _

theorem within_descendantsOrSelf : Meets E (Search.Within E) (p.descendantsOrSelf s r) :=
  (within_descendants hE).bind fun _ h => Search.within_found h

theorem within_siblings : Within E (p.siblings s r) := by
  rw [siblings]
  split
  · exact within_ok _
  · split
    · exact within_ok _
    · exact (within_children hE).bind fun _ => within_ok _

theorem within_following : Within E (p.following s r) := by
  refine (Within.mapM (fun level => ?_) _).bind fun _ => within_ok _
  refine ((within_siblings hE).map _).bind fun after => ?_
  refine (Within.mapM (fun q => ?_) _).bind fun _ => within_ok _
  exact (within_descendants hE).bind fun below h => h.all.bind fun _ => within_ok _

theorem within_preceding : Within E (p.preceding s r) := by
  refine (Within.mapM (fun level => ?_) _).bind fun _ => within_ok _
  refine ((within_siblings hE).map _).bind fun before => ?_
  refine (Within.mapM (fun q => ?_) _).bind fun _ => within_ok _
  exact (within_descendantsOrSelf hE).bind fun below h => h.all.bind fun _ => within_ok _

theorem within_along (axis : Axis) : Meets E (Search.Within E) (p.along s r axis) := by
  have hlist {x : Except PathError (List Pointer)} (hx : Within E x)
      (f : List Pointer → List Pointer) :
      Meets E (Search.Within E) (x.map fun l => .ofList (f l)) :=
    Meets.map hx fun _ _ => Search.within_ofList _
  cases axis with
  | self => exact Search.within_ofList _
  | child => exact hlist (within_children hE) id
  | «attribute» => exact hlist (within_attributes hE) id
  | «namespace» => exact hlist (within_namespaces hE) id
  | parent => exact Search.within_ofList _
  | ancestor => exact Search.within_ofList _
  | ancestorOrSelf => exact Search.within_ofList _
  | descendant => exact within_descendants hE
  | descendantOrSelf => exact within_descendantsOrSelf hE
  | followingSibling => exact hlist ((within_siblings hE).map _) id
  | precedingSibling => exact hlist ((within_siblings hE).map _) List.reverse
  | following => exact hlist (within_following hE) id
  | preceding => exact hlist (within_preceding hE) id

theorem within_sortUnique (ps : List Pointer) : Within E (sortUnique s ps) := by
  refine Within.map ?_ _
  cases hsorted : sorted s ps with
  | ok us => exact within_ok us
  | error e =>
    obtain ⟨p, q, hpq⟩ := Inquiry.exists_of_tried_eq_error hsorted
    rw [comesBefore, compare] at hpq
    split at hpq
    · cases hpq
    · obtain rfl := Except.error.inj hpq
      exact hE _ (.incomparable _ _)

end Pointer

/-! ## Answers, operators and functions -/

namespace Answer

variable {a b : Answer}

theorem within_firstValue (items : List Pointer) : Within E (firstValue s r items) := by
  cases items with
  | nil => exact within_ok _
  | cons p ps => exact (Pointer.within_value hE).map _

theorem within_toNumber : Within E (a.toNumber s r) := by
  cases a with
  | nodes items => exact (within_firstValue hE items).bind fun _ => within_ok _
  | _ => exact within_ok _

theorem within_toText : Within E (a.toText s r) := by
  cases a with
  | nodes items => exact (within_firstValue hE items).bind fun _ => within_ok _
  | _ => exact within_ok _

theorem within_toValue : Within E (a.toValue s r) := by
  cases a with
  | nodes items => exact (within_firstValue hE items).bind fun _ => within_ok _
  | _ => exact within_ok _

theorem within_atoms : Within E (a.atoms s r) := by
  cases a with
  | nodes items => exact Within.mapM (fun _ => (Pointer.within_value hE).map _) items
  | _ => exact within_ok _

end Answer

theorem within_compareEquality (equal : Bool) (a b : Answer) :
    Within E (compareEquality s r equal a b) := by
  have hpairs : Within E (do
      let left ← a.atoms s r
      let right ← b.atoms s r
      pure (somePair (fun v w => equalAtoms s v w == equal) left right)) :=
    (Answer.within_atoms hE).bind fun _ => (Answer.within_atoms hE).bind fun _ => within_ok _
  unfold compareEquality
  split
  · exact within_ok _
  · exact within_ok _
  · exact hpairs

theorem within_compareNumbers (related : Float → Float → Bool) (a b : Answer) :
    Within E (compareNumbers s r related a b) :=
  (Answer.within_atoms hE).bind fun _ => (Answer.within_atoms hE).bind fun _ => within_ok _

theorem within_arithmetic (f : Float → Float → Float) (a b : Answer) :
    Within E (arithmetic s r f a b) :=
  (Answer.within_toNumber hE).bind fun _ => (Answer.within_toNumber hE).bind fun _ => within_ok _

theorem BinaryOp.within_apply (op : BinaryOp) (a b : Answer) : Within E (op.apply s r a b) := by
  cases op with
  | or | and => exact within_ok _
  | equal | notEqual => exact (within_compareEquality hE ..).map _
  | less | lessEqual | greater | greaterEqual => exact (within_compareNumbers hE ..).map _
  | add | subtract | multiply | divide | modulo => exact within_arithmetic hE ..
  | union => exact (Pointer.within_sortUnique hE _).map _

namespace CoreFunction

variable {focus : Focus} {args : List Answer}

theorem within_fail {α : Type} (f : CoreFunction) (fault : CallFault) :
    Within E (f.fail fault : Except PathError α) := hE _ (.call _ _)

theorem within_checkArity (f : CoreFunction) (n : Nat) : Within E (f.checkArity n) := by
  unfold checkArity
  dsimp only
  split
  · split
    · exact within_fail hE ..
    · exact within_ok _
  · split
    · exact within_ok _
    · exact within_fail hE ..

theorem within_nodesOf (f : CoreFunction) (a : Answer) : Within E (f.nodesOf s a) := by
  cases a with
  | nodes items => exact within_ok _
  | _ => exact within_fail hE ..

theorem within_subject (f : CoreFunction) : Within E (f.subject s focus args) := by
  cases args with
  | nil => exact within_ok _
  | cons a as => exact (within_nodesOf hE f a).map _

theorem within_textOf : Within E (textOf s r focus args) := by
  cases args with
  | nil => exact (Pointer.within_value hE).bind fun _ => within_ok _
  | cons a as => exact (Answer.within_toText hE).map _

theorem within_ofTexts (g : List Char → List Char → Answer) (t needle : Answer) :
    Within E (ofTexts s r g t needle) :=
  (Answer.within_toText hE).bind fun _ => (Answer.within_toText hE).bind fun _ => within_ok _

theorem within_run (f : CoreFunction) : Within E (f.run s r focus args) := by
  have hnumber (a : Answer) (g : Float → Answer) : Within E (do pure (g (← a.toNumber s r))) :=
    (Answer.within_toNumber hE).bind fun _ => within_ok _
  have hsubject (g : Option Pointer → Answer) : Within E (do pure (g (← f.subject s focus args))) :=
    (within_subject hE f).bind fun _ => within_ok _
  have htext (g : List Char → Answer) : Within E (do pure (g (← textOf s r focus args))) :=
    (within_textOf hE).bind fun _ => within_ok _
  unfold run
  split
  · exact within_ok _
  · exact within_ok _
  · exact (within_nodesOf hE ..).bind fun _ => within_ok _
  · exact hsubject _
  · exact hsubject _
  · exact hsubject _
  · exact htext _
  · exact (Within.mapM (fun _ => Answer.within_toText hE) _).bind fun _ => within_ok _
  · exact within_ofTexts hE ..
  · exact within_ofTexts hE ..
  · exact within_ofTexts hE ..
  · exact within_ofTexts hE ..
  · exact within_ofTexts hE ..
  · exact (Within.optionMapM (fun _ => Answer.within_toNumber hE) _).bind fun _ =>
      (Answer.within_toNumber hE).bind fun _ => (Answer.within_toText hE).bind fun _ => within_ok _
  · exact htext _
  · exact htext _
  · exact (Answer.within_toText hE).bind fun _ => (Answer.within_toText hE).bind fun _ =>
      (Answer.within_toText hE).bind fun _ => within_ok _
  · exact within_ok _
  · exact within_ok _
  · exact within_ok _
  · exact within_ok _
  · exact (Answer.within_toText hE).bind fun _ => within_ok _
  · exact (Pointer.within_value hE).bind fun _ => within_ok _
  · exact (Answer.within_toNumber hE).map _
  · exact (within_nodesOf hE ..).bind fun _ =>
      (Within.mapM (fun _ => Pointer.within_value hE) _).bind fun _ => within_ok _
  · exact hnumber ..
  · exact hnumber ..
  · exact hnumber ..
  · exact within_fail hE ..

theorem within_apply (f : CoreFunction) : Within E (f.apply s r focus args) :=
  (within_checkArity hE f _).bind fun _ => within_run hE f

end CoreFunction

end Reading

/-! ## Evaluation -/

namespace Environment

open PathQuery.Except

/-- The functions that can be called fail with errors of the kind `E` only. -/
def FunctionsWithin (env : Environment) (E : PathError → Prop) : Prop :=
  ∀ frame ∈ env.frames, ∀ library, frame.functions = some library →
    ∀ e ∈ library.entries, ∀ focus args, (e.2 focus args).Within E

/-- The failures of evaluation, and of the functions that can be called, are of the kind `E`. -/
structure Covers (env : Environment) (E : PathError → Prop) : Prop where
  own : ∀ e, e.OfEvaluation → E e
  functions : env.FunctionsWithin E

variable {E : PathError → Prop} {r : Registry} {env : Environment} {s : Store}

theorem FunctionsWithin.function? (h : env.FunctionsWithin E) {name : QName} {n : Nat}
    {g : Function} (hg : env.function? name n = some g) (focus : Focus) (args : List Answer) :
    (g focus args).Within E := by
  obtain ⟨frame, hframe, hg⟩ := List.exists_of_findSome?_eq_some hg
  obtain ⟨library, hlibrary, hg⟩ := Option.bind_eq_some_iff.1 hg
  have hentry {key : Signature} {g : Function} (h : library.lookup key = some g) :
      (key, g) ∈ library.entries := by
    obtain ⟨_, _, hl, -⟩ := List.lookup_eq_some_iff.1 h
    simp [hl]
  rw [FunctionLibrary.find?] at hg
  cases hfix : library.lookup ⟨name, some n⟩ with
  | some g' =>
    rw [hfix] at hg
    cases hg
    exact h frame hframe library hlibrary _ (hentry hfix) focus args
  | none =>
    rw [hfix] at hg
    exact h frame hframe library hlibrary _ (hentry hg) focus args

variable (hE : ∀ e, e.OfEvaluation → E e)

include hE

theorem within_variablePointer (name : QName) : Within E (env.variablePointer s name) := by
  rw [variablePointer]
  split
  · exact within_ok _
  · exact hE _ (.undeclared _)

theorem within_call (hf : env.FunctionsWithin E) (f : QName) (args : List Answer) (focus : Focus) :
    (env.call r f args focus).Within E := by
  rw [call]
  split
  · exact Action.meets_read fun s => CoreFunction.within_apply hE _
  · split
    · next g hg => exact hf.function? hg focus args
    · exact Action.meets_throw (hE _ (.unknownFunction _))

end Environment

/-- The nodes of an outcome, if it has nodes, break off with errors of the kind `E` only. -/
def Outcome.Within (E : PathError → Prop) : Outcome → Prop
  | answer _ => True
  | nodes n => n.Within E

theorem Outcome.Within.all {E : PathError → Prop} {x : Outcome} (h : x.Within E) :
    Except.Within E x.all := by
  cases x with
  | answer a => trivial
  | nodes n => exact Except.Within.map (Search.Within.all h) _

theorem Outcome.within_ofAnswer {E : PathError → Prop} (a : Answer) : (ofAnswer a).Within E := by
  cases a with
  | nodes items => exact Search.within_ofList items
  | _ => trivial

namespace Environment

open PathQuery.Except

variable {E : PathError → Prop} {r : Registry} {env : Environment} {s : Store}
variable (hE : ∀ e, e.OfEvaluation → E e)

include hE

theorem meets_traverse (o : Occasion) {x : Outcome} (hx : x.Within E) :
    (env.traverse r o x).Meets E (Search.Within E) := by
  cases x with
  | nodes n => exact Action.meets_pure hx
  | answer a =>
    exact Action.meets_read fun s => Meets.bind (Answer.within_toValue hE) fun v _ =>
      Meets.bind (Registry.within_create hE ..) fun _ _ => Search.within_ofList _

theorem within_collect (o : Occasion) {x : Outcome} (hx : x.Within E) :
    (env.collect r o x).Within E :=
  (meets_traverse hE o hx).bind fun _ h => Action.meets_read fun _ => h.all

omit hE in
theorem within_advance {axis : Axis} {f : Pointer → Search} {a : Search} (ha : a.Within E)
    (hf : ∀ p, (f p).Within E) : (advance s axis f a).Within E := by
  unfold advance
  split
  · split
    · exact Search.within_ended
    · exact ha
    · next p more =>
      have hmore := ha.of_found
      split
      · exact hf p
      · next e he => rwa [he] at hmore
      · next q rest hq =>
        rw [hq] at hmore
        exact ((Search.within_found hmore).gather hf).distinct s
  · exact ha.gather hf

theorem within_candidates (axis : Axis) (test : NodeTest) (p : Pointer) :
    (candidates r s axis test p).Within E :=
  Search.within_ofExcept (Meets.map (Pointer.within_along hE axis) fun _ h => h.filter _)

omit hE in
mutual

/-- **The value of an expression fails as evaluation or as an added function does.** -/
theorem compute_within (h : env.Covers E) (e : Expr) (focus : Focus) :
    (env.compute r e focus).Meets E (Outcome.Within E) := by
  cases e with
  | literal | number =>
    rw [compute]
    exact Action.meets_pure trivial
  | «variable» name =>
    rw [compute]
    exact Action.meets_get_bind fun s =>
      Action.Meets.bind (Action.meets_read fun _ => within_variablePointer h.own name) fun p _ =>
        Action.meets_pure (Search.within_ofList _)
  | call f args =>
    rw [compute]
    exact (evaluateAll_within h args focus).bind fun args _ =>
      (within_call h.own h.functions f args focus).bind fun a _ =>
        Action.meets_pure (Outcome.within_ofAnswer a)
  | filter base predicates =>
    rw [compute]
    exact (compute_within h base _).bind fun x hx => (within_collect h.own _ hx).bind fun nodes _ =>
      Action.Meets.bind (Action.meets_read fun s => narrow_within h predicates _ nodes s)
        fun _ _ => Action.meets_pure (Search.within_ofList _)
  | negate e =>
    rw [compute]
    exact (compute_within h e focus).bind fun x hx =>
      Action.meets_liftM_bind hx.all fun a _ =>
        Action.Meets.bind (Action.meets_read fun s => Answer.within_toNumber h.own) fun _ _ =>
          Action.meets_pure trivial
  | path start steps =>
    rw [compute]
    exact (startNodes_within h start _).bind fun nodes hn =>
      Action.meets_get_bind fun s => Action.meets_pure (walk_within h steps _ s hn)
  | binary op left right =>
    have hleft := compute_within h left
    have hright := compute_within h right
    have hside {e : Expr} {focus : Focus} {α : Type} {Q : α → Prop} {k : Answer → Action α}
        (he : (env.compute r e focus).Meets E (Outcome.Within E)) (hk : ∀ a, (k a).Meets E Q) :
        (do let a ← (← env.compute r e focus).all; k a : Action α).Meets E Q :=
      he.bind fun x hx => Action.meets_liftM_bind hx.all fun a _ => hk a
    cases op with
    | union =>
      rw [compute]
      exact (hleft _).bind fun x hx => (within_collect h.own _ hx).bind fun _ _ =>
        (hright _).bind fun y hy => (within_collect h.own _ hy).bind fun _ _ =>
          (Action.meets_read fun s => Pointer.within_sortUnique h.own _).bind fun _ _ =>
            Action.meets_pure (Search.within_ofList _)
    | or | and =>
      rw [compute]
      refine hside (hleft _) fun a => Action.meets_get_bind fun s => ?_
      split
      · exact Action.meets_pure trivial
      · exact hside (hright _) fun b => Action.meets_get_bind fun s => Action.meets_pure trivial
    | _ =>
      rw [compute]
      · exact hside (hleft _) fun a => hside (hright _) fun b =>
          (Action.meets_read fun s => BinaryOp.within_apply h.own _ a b).bind fun c _ =>
            Action.meets_pure (Outcome.within_ofAnswer c)
      all_goals nofun

theorem evaluateAll_within (h : env.Covers E) (es : List Expr) (focus : Focus) :
    (env.evaluateAll r es focus).Within E := by
  cases es with
  | nil =>
    rw [evaluateAll]
    exact Action.within_pure []
  | cons e es =>
    rw [evaluateAll]
    exact (compute_within h e _).bind fun x hx => Action.meets_liftM_bind hx.all fun a _ =>
      (evaluateAll_within h es _).bind fun _ _ => Action.meets_pure trivial

theorem narrow_within (h : env.Covers E) (es : List Expr) (o : Occasion)
    (nodes : List Pointer) (s : Store) : Within E (env.narrow r es o nodes s) := by
  cases es with
  | nil =>
    rw [narrow]
    exact within_ok nodes
  | cons e es =>
    rw [narrow]
    refine (Within.filterMapM (fun x => ?_) _).bind fun kept => narrow_within h es _ kept s
    have hask : ∀ focus : Focus, Action.Within E (do
        let a ← (← env.compute r e focus).all
        pure (keeps (← get) focus a)) := fun focus =>
      (compute_within h e focus).bind fun x hx => Action.meets_liftM_bind hx.all fun a _ =>
        Action.meets_get_bind fun _ => Action.meets_pure trivial
    exact Within.bind (hask _ s) fun _ => within_ok _

theorem startNodes_within (h : env.Covers E) (start : Start) (focus : Focus) :
    (env.startNodes r start focus).Meets E (Search.Within E) := by
  cases start with
  | here | root =>
    rw [startNodes]
    exact Action.meets_pure (Search.within_ofList _)
  | value e =>
    rw [startNodes]
    exact (compute_within h e focus).bind fun x hx => meets_traverse h.own _ hx

theorem walk_within (h : env.Covers E) (steps : List Step) (o : Occasion) (s : Store)
    {nodes : Search} (hn : nodes.Within E) : (env.walk r steps o s nodes).Within E := by
  cases steps with
  | nil =>
    rw [walk]
    exact hn
  | cons step steps =>
    obtain ⟨axis, test, predicates⟩ := step
    rw [walk_cons]
    refine walk_within h steps _ s (within_advance hn fun p => ?_)
    have hfound := within_candidates h.own (r := r) (s := s.on (o.part 0)) axis test p
    rw [find]
    split
    · exact hfound
    · exact Search.within_ofExcept <| Meets.bind hfound.all fun found _ =>
        Meets.bind (narrow_within h predicates _ found s) fun _ _ => Search.within_ofList _

end

/-! ### Single results -/

variable {p : Pointer}

theorem within_slotOrMissing (name : QName) (isAttribute : Bool) :
    Within E (slotOrMissing r p name isAttribute s) := by
  have hfirst : Within E (firstPassing r p name isAttribute s) := by
    rw [firstPassing]
    split
    · exact (Pointer.within_attributes hE).bind fun _ => within_ok _
    · exact (Pointer.within_children hE).bind fun _ => within_ok _
  refine (Pointer.within_slot? hE name isAttribute).bind fun slot => ?_
  cases slot with
  | some slot => exact within_ok _
  | none => exact hfirst.bind fun _ => within_ok _

omit hE

theorem within_resolveStep (h : env.Covers E) (o : Occasion) (step : SimpleStep) :
    (env.resolveStep r o p step).Within E := by
  refine Action.Meets.bind (Action.meets_read fun s => within_slotOrMissing h.own ..)
    fun slot _ => ?_
  split
  · exact Action.within_pure _
  · refine (compute_within h _ _).bind fun x hx => Action.meets_liftM_bind hx.all fun a _ =>
      Action.meets_get_bind fun s => ?_
    split
    · exact Action.within_pure _
    · dsimp only
      split <;> exact Action.within_pure _

theorem within_resolve (h : env.Covers E) (o : Occasion) (steps : List SimpleStep) :
    (env.resolve r o p steps).Within E := by
  induction steps generalizing o p with
  | nil => exact Action.within_pure p
  | cons step steps ih =>
    exact (within_resolveStep h _ step).bind fun _ _ => ih _

theorem within_firstOf {x : Outcome} (hx : x.Within E) : Within E (firstOf x) := by
  cases x with
  | answer a => exact within_ok _
  | nodes n =>
    refine (Search.Within.first hx).bind fun p => ?_
    cases p <;> exact within_ok _

/-- **The one result of an expression fails as evaluation or as an added function does.** -/
theorem single_within (h : env.Covers E) (e : Expr) (focus : Focus) :
    (env.single r e focus).Within E := by
  have hgeneral : (do
      let outcome ← env.begin r e focus
      Action.read fun _ => firstOf outcome : Action Single).Within E :=
    (Action.meets_get_bind fun _ => compute_within h e _).bind fun x hx =>
      Action.meets_read fun _ => within_firstOf hx
  refine Action.meets_get_bind fun s => ?_
  split
  · next name =>
    exact Action.Meets.bind (Action.meets_read fun s => within_variablePointer h.own name)
      fun _ _ => Action.within_pure _
  · split
    · exact (within_resolve h _ _).bind fun _ _ => Action.within_pure _
    · exact hgeneral
  · exact hgeneral

end Environment

end PathQuery
