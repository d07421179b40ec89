import Mathlib
import PathQuery.Proofs.AlikeFunctions
import PathQuery.Proofs.UnfailingWalks

/-!
# Comparisons read from the right

A comparison says the same of two answers as the mirrored comparison says of them in the other
order: both equalities mirror themselves, and each order relation mirrors its opposite.

* names: `BinaryOp.mirror?`, `Answer.Resolves`, `comparePairs`.
* `equalAtoms_comm`, `somePair_flip`: pairs of values. `compareEquality_comm`,
  `compareNumbers_flip`: comparisons of answers.
* **`BinaryOp.apply_mirror`**: the value of an operator.
-/

namespace PathQuery

variable {s : Store} {r : Registry} {left right : Answer}

/-- The comparison that says the same of the sides in the other order. -/
def BinaryOp.mirror? : BinaryOp → Option BinaryOp
  | .equal => some .equal
  | .notEqual => some .notEqual
  | .less => some .greater
  | .greater => some .less
  | .lessEqual => some .greaterEqual
  | .greaterEqual => some .lessEqual
  | _ => none

/-- The nodes of an answer have values. -/
def Answer.Resolves (s : Store) (r : Registry) (a : Answer) : Prop :=
  ∀ p ∈ a.items, ∃ v, p.value s r = .ok v

/-! ## Pairs of values -/

/-- Which side is a boolean or a number is no matter: both sides are converted alike. -/
theorem equalAtoms_comm (s : Store) (v w : Value) : equalAtoms s v w = equalAtoms s w v := by
  rw [equalAtoms_eq, equalAtoms_eq, Bool.or_comm w.isBool, Bool.or_comm w.isNumber,
    BEq.comm (a := s.toBool v), BEq.comm (a := s.toNumber v), BEq.comm (a := s.toText v)]

theorem somePair_flip {α : Type} (related : α → α → Bool) (as bs : List α) :
    somePair (fun b a => related a b) bs as = somePair related as bs := by
  rw [Bool.eq_iff_iff]
  simp only [somePair, List.any_eq_true]
  constructor
  · rintro ⟨b, hb, a, ha, h⟩
    exact ⟨a, ha, b, hb, h⟩
  · rintro ⟨a, ha, b, hb, h⟩
    exact ⟨b, hb, a, ha, h⟩

/-! ## Comparisons of answers -/

/-- The answer is a truth value. -/
def Answer.isBoolean : Answer → Bool
  | .boolean _ => true
  | _ => false

/-- Whether some pair of the values of two answers is related. -/
def comparePairs (s : Store) (r : Registry) (related : Value → Value → Bool)
    (left right : Answer) : Except PathError Bool := do
  let vs ← left.atoms s r
  let ws ← right.atoms s r
  pure (somePair related vs ws)

theorem comparePairs_eq_ok_iff {related : Value → Value → Bool} {b : Bool} :
    comparePairs s r related left right = .ok b ↔
      ∃ vs ws, left.atoms s r = .ok vs ∧ right.atoms s r = .ok ws ∧ somePair related vs ws = b := by
  simp only [comparePairs, Except.bind_eq_ok_iff, Except.pure_eq_ok, Except.ok.injEq]
  constructor
  · rintro ⟨vs, hvs, ws, hws, h⟩
    exact ⟨vs, ws, hvs, hws, h⟩
  · rintro ⟨vs, ws, hvs, hws, h⟩
    exact ⟨vs, hvs, ws, hws, h⟩

theorem comparePairs_flip {related : Value → Value → Bool} {b : Bool} :
    comparePairs s r related left right = .ok b ↔
      comparePairs s r (fun w v => related v w) right left = .ok b := by
  rw [comparePairs_eq_ok_iff, comparePairs_eq_ok_iff]
  constructor
  · rintro ⟨vs, ws, hvs, hws, h⟩
    exact ⟨ws, vs, hws, hvs, (somePair_flip related vs ws).trans h⟩
  · rintro ⟨ws, vs, hws, hvs, h⟩
    exact ⟨vs, ws, hvs, hws, (somePair_flip related vs ws).symm.trans h⟩

theorem exists_atoms {a : Answer} (h : a.Resolves s r) : ∃ vs, a.atoms s r = .ok vs := by
  cases a with
  | nodes items =>
    refine Except.exists_mapM fun p hp => ?_
    obtain ⟨v, hv⟩ := h p hp
    exact ⟨s.atom v, by rw [hv]; rfl⟩
  | text t => exact ⟨_, rfl⟩
  | number x => exact ⟨_, rfl⟩
  | boolean b => exact ⟨_, rfl⟩
  | object v => exact ⟨_, rfl⟩

theorem exists_comparePairs (hleft : left.Resolves s r) (hright : right.Resolves s r)
    (related : Value → Value → Bool) : ∃ b, comparePairs s r related left right = .ok b := by
  obtain ⟨vs, hvs⟩ := exists_atoms hleft
  obtain ⟨ws, hws⟩ := exists_atoms hright
  exact ⟨_, comparePairs_eq_ok_iff.2 ⟨vs, ws, hvs, hws, rfl⟩⟩

/-- Only an equality looks at a whole side. -/
theorem compareEquality_eq (s : Store) (r : Registry) (equal : Bool) (left right : Answer) :
    compareEquality s r equal left right =
      if left.isBoolean || right.isBoolean then .ok ((left.toBool s == right.toBool s) == equal)
      else comparePairs s r (fun v w => equalAtoms s v w == equal) left right := by
  cases left <;> cases right <;> rfl

theorem compareNumbers_eq (s : Store) (r : Registry) (related : Float → Float → Bool)
    (left right : Answer) : compareNumbers s r related left right =
      comparePairs s r (fun v w => related (s.toNumber v) (s.toNumber w)) left right := by
  simp only [compareNumbers, comparePairs, somePair, List.any_map]
  rfl

theorem compareEquality_comm {equal b : Bool} :
    compareEquality s r equal left right = .ok b ↔
      compareEquality s r equal right left = .ok b := by
  rw [compareEquality_eq, compareEquality_eq, Bool.or_comm right.isBoolean,
    BEq.comm (a := right.toBool s)]
  split
  · rfl
  · rw [comparePairs_flip]
    simp only [equalAtoms_comm s]

theorem compareNumbers_flip {related : Float → Float → Bool} {b : Bool} :
    compareNumbers s r related left right = .ok b ↔
      compareNumbers s r (fun y x => related x y) right left = .ok b := by
  rw [compareNumbers_eq, compareNumbers_eq]
  exact comparePairs_flip

/-! ## Operators -/

theorem exists_compareEquality (hleft : left.Resolves s r) (hright : right.Resolves s r)
    (equal : Bool) : ∃ b, compareEquality s r equal left right = .ok b := by
  rw [compareEquality_eq]
  split
  · exact ⟨_, rfl⟩
  · exact exists_comparePairs hleft hright _

theorem exists_compareNumbers (hleft : left.Resolves s r) (hright : right.Resolves s r)
    (related : Float → Float → Bool) : ∃ b, compareNumbers s r related left right = .ok b := by
  rw [compareNumbers_eq]
  exact exists_comparePairs hleft hright _

/-- Comparisons that give the same, as answers. -/
theorem exists_boolean {x y : Except PathError Bool} (hx : ∃ b, x = .ok b)
    (hxy : ∀ {b}, x = .ok b ↔ y = .ok b) :
    ∃ b, x.map Answer.boolean = .ok (.boolean b) ∧ y.map Answer.boolean = .ok (.boolean b) := by
  obtain ⟨b, hb⟩ := hx
  refine ⟨b, ?_, ?_⟩
  · rw [hb]
    rfl
  · rw [hxy.1 hb]
    rfl

/-- **A comparison and its mirror agree.** Where the nodes of both sides have values, a comparison
has a truth value, and the mirrored comparison of the sides in the other order has the same. -/
theorem BinaryOp.apply_mirror {op mirror : BinaryOp} (hmirror : op.mirror? = some mirror)
    (hleft : left.Resolves s r) (hright : right.Resolves s r) :
    ∃ b, op.apply s r left right = .ok (.boolean b) ∧
      mirror.apply s r right left = .ok (.boolean b) := by
  cases op with
  | equal =>
    obtain rfl := Option.some.inj hmirror
    exact exists_boolean (exists_compareEquality hleft hright true) compareEquality_comm
  | notEqual =>
    obtain rfl := Option.some.inj hmirror
    exact exists_boolean (exists_compareEquality hleft hright false) compareEquality_comm
  | less | lessEqual | greater | greaterEqual =>
    obtain rfl := Option.some.inj hmirror
    exact exists_boolean (exists_compareNumbers hleft hright _) compareNumbers_flip
  | or | and | add | subtract | multiply | divide | modulo | union => cases hmirror

/-- A node with a number in a cell, compared with the empty text. -/
theorem BinaryOp.apply_mirror_cell :
    let s : Store := { cells := ⟨#[.number 3]⟩ }
    let p : Pointer := { visit := { node := .cell 0 none, occasion := s.now }, locale := {} }
    ∃ b, BinaryOp.less.apply s .standard (.nodes [p]) (.text "") = .ok (.boolean b) ∧
      BinaryOp.greater.apply s .standard (.text "") (.nodes [p]) = .ok (.boolean b) := by
  intro s p
  have hleft : (Answer.nodes [p]).Resolves s .standard := by
    intro q hq
    obtain rfl : q = p := List.mem_singleton.1 hq
    exact ⟨.number 3, rfl⟩
  have hright : (Answer.text "").Resolves s .standard := List.forall_mem_nil _
  exact apply_mirror rfl hleft hright

end PathQuery
