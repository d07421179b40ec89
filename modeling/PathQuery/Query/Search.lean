import PathQuery.Query.Nodes
import PathQuery.Pointer.Order

/-!
# Searches

A search finds pointers one at a time, and does no more work than the pointers pulled from it need.
Every operation comes with the node sequence that it gives in the end, so where a search is stopped
changes only how much is done.

* names: `Search`; `ofList`, `andThen`, `each`, `filter`, `gather`, `distinct`; `nodes`, `pull`,
  `first`, `all`.
* **`nodes_gather`**: to search from what a search finds is to put the finds of each pointer one
  after another. **`pull_eq_take`**: pulling a few gives what pulling all begins with.
-/

namespace PathQuery

/-- Pointers that are found one at a time. -/
inductive Search where
  /-- There is nothing more to find. -/
  | ended
  /-- The search fails. -/
  | broken (e : PathError)
  /-- A pointer is found; more may follow. -/
  | found (p : Pointer) (more : Unit → Search)

namespace Search

instance : Inhabited Search := ⟨ended⟩

/-! ## Pulling -/

/-- What a search finds after the pointers already taken, the last first. -/
def nodesOnto (taken : List Pointer) : Search → Nodes
  | ended => .ofList taken.reverse
  | broken e => ⟨taken.reverse, some e⟩
  | found p more => nodesOnto (p :: taken) (more ())

/-- All that a search finds. -/
def nodes (a : Search) : Nodes := a.nodesOnto []

/-- At most `n` pulls after the pointers already taken. -/
def pullOnto (taken : List Pointer) : Nat → Search → Nodes
  | 0, _ | _, ended => .ofList taken.reverse
  | _ + 1, broken e => ⟨taken.reverse, some e⟩
  | n + 1, found p more => pullOnto (p :: taken) n (more ())

/-- What at most `n` pulls give. -/
def pull (n : Nat) (a : Search) : Nodes := a.pullOnto [] n

/-- The first pointer found, if there is one. -/
def first : Search → Except PathError (Option Pointer)
  | ended => .ok none
  | broken e => .error e
  | found p _ => .ok (some p)

/-- All pointers, or the failure. -/
def all (a : Search) : Except PathError (List Pointer) := a.nodes.all

theorem nodesOnto_eq (taken : List Pointer) (a : Search) :
    a.nodesOnto taken = .ofList taken.reverse ++ a.nodes := by
  induction a generalizing taken with
  | ended => simp [nodesOnto, nodes, Nodes.ofList]
  | broken e => simp [nodesOnto, nodes, Nodes.ofList]
  | found p more ih =>
    have h := ih () [p]
    simp only [nodes, nodesOnto] at h ⊢
    rw [ih, h, ← Nodes.append_assoc]
    simp [Nodes.ofList, nodes]

@[simp] theorem nodes_ended : ended.nodes = {} := rfl

@[simp] theorem nodes_broken (e : PathError) : (broken e).nodes = .fail e := rfl

@[simp] theorem nodes_found (p : Pointer) (more : Unit → Search) :
    (found p more).nodes = .ofList [p] ++ (more ()).nodes := nodesOnto_eq [p] (more ())

theorem pullOnto_eq (taken : List Pointer) (n : Nat) (a : Search) :
    a.pullOnto taken n = .ofList taken.reverse ++ a.nodes.take n := by
  induction a generalizing taken n with
  | ended => cases n <;> simp [pullOnto, Nodes.take, Nodes.ofList]
  | broken e => cases n <;> simp [pullOnto, Nodes.take, Nodes.ofList, Nodes.fail]
  | found p more ih =>
    cases n with
    | zero => simp [pullOnto, Nodes.take, Nodes.ofList]
    | succ n =>
      simp only [pullOnto, ih (), nodes_found, Nodes.take, Nodes.items_ofList_append]
      by_cases h : n ≤ (more ()).nodes.items.length <;> simp [h, Nodes.ofList_append]

theorem pull_eq_take (n : Nat) (a : Search) : a.pull n = a.nodes.take n :=
  (pullOnto_eq [] n a).trans (Nodes.nil_append _)

theorem first_eq (a : Search) : a.first = a.nodes.first := by
  cases a <;> simp [first, Nodes.first, Nodes.fail]

/-! ## Searching -/

/-- The search that finds the pointers of a list. -/
def ofList : List Pointer → Search
  | [] => ended
  | p :: ps => found p fun _ => ofList ps

/-- A search, or the failure to start it. -/
def ofExcept : Except PathError Search → Search
  | .ok a => a
  | .error e => broken e

/-- One search after another. -/
def andThen : Search → (Unit → Search) → Search
  | ended, rest => rest ()
  | broken e, _ => broken e
  | found p more, rest => found p fun _ => (more ()).andThen rest

/-- The searches from several pointers, each of which goes on with the next. -/
def each (f : Pointer → (Unit → Search) → Search) : List Pointer → (Unit → Search) → Search
  | [], rest => rest ()
  | p :: ps, rest => f p fun _ => each f ps rest

/-- The pointers found that pass a test. -/
def filter (test : Pointer → Bool) : Search → Search
  | ended => ended
  | broken e => broken e
  | found p more => if test p then found p fun _ => filter test (more ()) else filter test (more ())

/-- What `f` finds from each pointer in turn. -/
def gather (f : Pointer → Search) : Search → Search
  | ended => ended
  | broken e => broken e
  | found p more =>
    match f p with
    | ended => gather f (more ())
    | broken e => broken e
    | found q rest => found q fun _ => (rest ()).andThen fun _ => gather f (more ())

/-- The first pointer found of every path that is not in `seen`. -/
def distinctFrom (s : Store) (seen : TextSet) : Search → Search
  | ended => ended
  | broken e => broken e
  | found p more =>
    let path := p.path s
    if seen.contains path then distinctFrom s seen (more ())
    else found p fun _ => distinctFrom s (seen.insert path) (more ())

/-- The first pointer found of every path. -/
def distinct (s : Store) (a : Search) : Search := a.distinctFrom s ∅

@[simp] theorem nodes_ofList (ps : List Pointer) : (ofList ps).nodes = .ofList ps := by
  induction ps with
  | nil => rfl
  | cons p ps ih => simp [ofList, ih, Nodes.ofList]

@[simp] theorem nodes_andThen (a : Search) (rest : Unit → Search) :
    (a.andThen rest).nodes = a.nodes ++ (rest ()).nodes := by
  induction a with
  | ended => simp [andThen]
  | broken e => simp [andThen]
  | found p more ih => simp [andThen, ih, Nodes.append_assoc]

/-- If each search finds something of its own before the rest, all of them together find it in
turn. -/
theorem nodes_each {f : Pointer → (Unit → Search) → Search} {g : Pointer → Nodes}
    (h : ∀ p rest, (f p rest).nodes = g p ++ (rest ()).nodes) (ps : List Pointer)
    (rest : Unit → Search) :
    (each f ps rest).nodes = (Nodes.ofList ps).flatMap g ++ (rest ()).nodes := by
  induction ps with
  | nil => rfl
  | cons p ps ih =>
    have hcons : (Nodes.ofList (p :: ps)).flatMap g = g p ++ (Nodes.ofList ps).flatMap g := rfl
    rw [each, h, ih, hcons, Nodes.append_assoc]

@[simp] theorem nodes_filter (test : Pointer → Bool) (a : Search) :
    (a.filter test).nodes = a.nodes.filter test := by
  induction a with
  | ended => rfl
  | broken e => rfl
  | found p more ih =>
    by_cases h : test p <;> simp [filter, h, ih, Nodes.filter, Nodes.ofList_append]

theorem nodes_gather (f : Pointer → Search) (a : Search) :
    (a.gather f).nodes = a.nodes.flatMap fun p => (f p).nodes := by
  induction a with
  | ended => rfl
  | broken e => rfl
  | found p more ih =>
    cases h : f p <;> simp [gather, h, ih, Nodes.append_assoc]

theorem nodes_distinctFrom (s : Store) (seen : TextSet) (a : Search) :
    (a.distinctFrom s seen).nodes =
      { a.nodes with items := Pointer.uniqueFrom s seen a.nodes.items } := by
  induction a generalizing seen with
  | ended => rfl
  | broken e => rfl
  | found p more ih =>
    by_cases h : p.path s ∈ seen <;>
      simp [distinctFrom, Pointer.uniqueFrom, h, ih, Nodes.ofList_append]

@[simp] theorem nodes_distinct (s : Store) (a : Search) :
    (a.distinct s).nodes = { a.nodes with items := Pointer.unique s a.nodes.items } :=
  nodes_distinctFrom s ∅ a

end Search

end PathQuery
