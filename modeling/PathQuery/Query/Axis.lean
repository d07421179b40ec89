import PathQuery.Pointer.Navigate
import PathQuery.Query.Search
import PathQuery.Syntax.Expr

/-!
# Axes

The nodes that lie in a direction from a node, before any test. Forward axes go in document order,
reverse axes outwards from the node.

* names: `Pointer.subtreeUpTo`, `Pointer.descendants`, `Pointer.followingSiblings`,
  `Pointer.precedingSiblings`, `Pointer.following`, `Pointer.preceding`, `Pointer.along`.
* The walk down a graph does not enter a value that it is already in, so it ends on cyclic graphs.
-/

namespace PathQuery

namespace Pointer

variable (s : Store) (r : Registry)

/-! ## Down -/

/-- A node and the nodes below it, at most `n` values deep, and then the rest of the search.
`inside` are the values that the walk is in; such a value is not entered again. -/
def subtreeUpTo : Nat → List Value → Pointer → (Unit → Search) → Search
  | n, inside, p, rest =>
    match p.value s r with
    | .error e => .broken e
    | .ok v =>
      if v.isNull || v.isScalar || inside.any (·.same v) then .found p rest
      else
        match p.children s r, n with
        | .error e, _ => .broken e
        | .ok _, 0 => .found p rest
        | .ok children, n + 1 =>
          .found p fun _ => .each (subtreeUpTo n (v :: inside)) children rest

/-- A subtree is found before the rest, whatever the rest is. -/
theorem nodes_subtreeUpTo (n : Nat) (inside : List Value) (p : Pointer) (rest : Unit → Search) :
    (p.subtreeUpTo s r n inside rest).nodes =
      (p.subtreeUpTo s r n inside fun _ => .ended).nodes ++ (rest ()).nodes := by
  induction n generalizing inside p rest with
  | zero =>
    unfold subtreeUpTo
    repeat' split
    all_goals simp_all
  | succ n ih =>
    unfold subtreeUpTo
    split
    · simp
    · split
      · simp
      · split
        · simp
        · simp_all
        · next children m _ hm =>
          cases hm
          simp [Search.nodes_each (ih _), Nodes.append_assoc]

/-- The nodes below a node. -/
def descendants (p : Pointer) : Except PathError Search := do
  let children ← p.children s r
  let v ← p.value s r
  pure (.each (subtreeUpTo s r s.objectCount [v]) children fun _ => .ended)

/-- A node and the nodes below it. -/
def descendantsOrSelf (p : Pointer) : Except PathError Search := do
  let below ← p.descendants s r
  pure (.found p fun _ => below)

/-! ## Beside -/

/-- The children of the parent, cut at the node: those before it and those after it. A node that is
not among them comes after them all; attributes and roots have none. -/
def siblings (p : Pointer) : Except PathError (List Pointer × List Pointer) := do
  match p.parent? with
  | none => pure ([], [])
  | some parent =>
    if p.node.isAttribute then pure ([], [])
    else
      let (before, rest) := (← parent.children s r).span fun q => !q.samePosition s p
      pure (before, rest.drop 1)

/-- The siblings before a node, in document order. -/
def precedingSiblings (p : Pointer) : Except PathError (List Pointer) :=
  (p.siblings s r).map Prod.fst

/-- The siblings after a node. -/
def followingSiblings (p : Pointer) : Except PathError (List Pointer) :=
  (p.siblings s r).map Prod.snd

/-- The nodes after a node that are not below it: level by level upwards, the siblings that follow
with all that is below them. -/
def following (p : Pointer) : Except PathError (List Pointer) := do
  let levels ← (p :: p.ancestors).mapM fun level => do
    let trees ← (← level.followingSiblings s r).mapM fun q => do
      pure (q :: (← (← q.descendants s r).all))
    pure trees.flatten
  pure levels.flatten

/-- The nodes before a node that are not above it, the nearest first. -/
def preceding (p : Pointer) : Except PathError (List Pointer) := do
  let levels ← (p :: p.ancestors).mapM fun level => do
    let trees ← (← level.precedingSiblings s r).reverse.mapM fun q => do
      pure (← (← q.descendantsOrSelf s r).all).reverse
    pure trees.flatten
  pure levels.flatten

/-! ## All axes -/

/-- The nodes along an axis. -/
def along (p : Pointer) : Axis → Except PathError Search
  | .self => .ok (.ofList (p.elements s))
  | .child => (p.children s r).map .ofList
  | .attribute => (p.attributes s r).map .ofList
  | .namespace => (p.namespaces s r).map .ofList
  | .parent => .ok (.ofList p.parent?.toList)
  | .ancestor => .ok (.ofList p.ancestors)
  | .ancestorOrSelf => .ok (.ofList (p :: p.ancestors))
  | .descendant => p.descendants s r
  | .descendantOrSelf => p.descendantsOrSelf s r
  | .followingSibling => (p.followingSiblings s r).map .ofList
  | .precedingSibling => (p.precedingSiblings s r).map fun l => .ofList l.reverse
  | .following => (p.following s r).map .ofList
  | .preceding => (p.preceding s r).map .ofList

end Pointer

end PathQuery
