import PathQuery.Proofs.Descents
import PathQuery.Proofs.Resolving

/-!
# Chains below a node that shows an object

What is below a node that shows an object is what is below the object, whatever the node is. So a
chain below a variable is an address with another root, and its path is the text of that address
behind the path of the variable.

* names: `Labelled`.
* `Addressed.eq_of_labelled`: an address leads to one chain of named items. **`exists_graft`**: the
  chains below a node. **`nodes_eq_of_path_eq`**: the elements of a variable lead to nodes with
  paths of their own.
-/

namespace PathQuery

open Relation (ReflTransGen TransGen)

variable {s : Store} {root holder : Holder} {x y : Node} {ns ns' ms below : List Node}
variable {gs : List Segment}

/-! ## Items with names -/

/-- Every item of a list in the chain has the name of the node above it. -/
def Labelled (ns : List Node) : Prop :=
  ns.IsChain fun n m => ∀ l label index, n = .items l label index → label = m.name?

theorem ChildChain.labelled {is : List Nat} {name : String} {index : Index}
    (h : ChildChain s ns is name index ms) (hns : Labelled ns) : Labelled ms := by
  induction h with
  | slot => exact .cons_cons (fun l label index h => by cases h) hns
  | item _ _ _ ih =>
    refine ih (.cons_cons (fun l label index h => ?_) hns)
    obtain ⟨-, rfl, -⟩ := Node.items.inj h
    rfl

namespace Addressed

/-- No slot stands at the address of an item. -/
theorem not_slot_item {index : Index} {name name' : String} {places : List Nat} {i : Nat}
    (hplaces : places ≠ []) {gs gs' : List Segment} :
    gs ++ [(⟨name, index.places⟩ : Segment)] ≠ gs' ++ [⟨name', places ++ [i]⟩] := by
  intro h
  have hlast := (List.append_inj' h rfl).2
  simp only [List.cons.injEq, Segment.mk.injEq, and_true] at hlast
  have hlength := index.length_places_le
  have hpos := List.length_pos_of_ne_nil hplaces
  rw [hlast.2, List.length_append, List.length_singleton] at hlength
  omega

/-- **An address leads to one chain of named items**, through whatever lists. -/
theorem eq_of_labelled (h : Addressed s root ns gs) (h' : Addressed s root ns' gs)
    (hns : Labelled ns) (hns' : Labelled ns') : ns = ns' := by
  induction h generalizing ns' with
  | root =>
    generalize hgs : ([] : List Segment) = steps at h'
    cases h' with
    | root => rfl
    | slot => simp at hgs
    | item => simp at hgs
  | @slot n ns gs h name v index hn hend hentry hnode ih =>
    generalize hgs : gs ++ [(⟨name, index.places⟩ : Segment)] = steps at h'
    cases h' with
    | root => simp at hgs
    | @slot n' ns' gs' h' name' v' index' hn' hend' hentry' hnode' =>
      obtain ⟨rfl, hlast⟩ := List.append_inj' hgs rfl
      simp only [List.cons.injEq, Segment.mk.injEq, and_true] at hlast
      obtain ⟨rfl, hplaces⟩ := hlast
      obtain ⟨rfl, rfl⟩ := List.cons.inj (ih hn' hns.tail hns'.tail)
      rw [Store.slot_eq_of_places hend hend' hentry hentry' hnode hnode' hplaces]
    | item hn' hend' => exact absurd hgs (not_slot_item (hn'.places_ne_nil hend'))
  | @item n ns gs name places l i label hn hend hi ih =>
    generalize hgs : gs ++ [(⟨name, places ++ [i + 1]⟩ : Segment)] = steps at h'
    cases h' with
    | root => simp at hgs
    | slot => exact absurd hgs.symm (not_slot_item (hn.places_ne_nil hend))
    | @item n' ns' gs' name' places' l' i' label' hn' hend' hi' =>
      obtain ⟨rfl, hlast⟩ := List.append_inj' hgs rfl
      simp only [List.cons.injEq, Segment.mk.injEq, and_true] at hlast
      obtain ⟨rfl, hplaces⟩ := hlast
      obtain ⟨rfl, hplace⟩ := List.append_inj' hplaces rfl
      obtain ⟨rfl, rfl⟩ := List.cons.inj (ih hn' hns.tail hns'.tail)
      obtain rfl : l = l' := Value.list.inj (Option.some.inj (hend.symm.trans hend'))
      obtain rfl : i = i' := by simpa using hplace
      have hlabel := hns.rel _ _ _ rfl
      have hlabel' := hns'.rel _ _ _ rfl
      rw [hlabel, hlabel']

end Addressed

/-! ## Another root -/

theorem ChildChain.graft {is : List Nat} {name : String} {index : Index}
    (hx : x.end? s = some holder.value) (hy : y.end? s = some holder.value)
    (h : ChildChain s ns is name index ms) (hns : ns = below ++ [x]) :
    ∃ below', ms = below' ++ [x] ∧ ChildChain s (below ++ [y]) is name index (below' ++ [y]) := by
  induction h generalizing below with
  | @slot n ns h name v index hend hentry hnode =>
    rcases List.cons_eq_append_iff.1 hns with ⟨rfl, heq⟩ | ⟨rest, rfl, rfl⟩
    · obtain ⟨rfl, rfl⟩ := List.cons.inj heq
      rw [hx, ← hy] at hend
      exact ⟨[_], rfl, .slot hend hentry hnode⟩
    · exact ⟨_ :: n :: rest, rfl, .slot hend hentry hnode⟩
  | @item n ns ms l i is name index hend hi _ ih =>
    rcases List.cons_eq_append_iff.1 hns with ⟨rfl, heq⟩ | ⟨rest, rfl, rfl⟩
    · obtain ⟨rfl, rfl⟩ := List.cons.inj heq
      rw [hx] at hend
      cases holder <;> cases hend
    · obtain ⟨below', rfl, hchain⟩ := @ih (.items l n.name? (.element i) :: n :: rest) rfl
      exact ⟨below', rfl, .item hend hi hchain⟩

theorem Holder.end?_node (h : Holder) : (h.value.node none).end? s = some h.value := by
  cases h <;> rfl

/-- **A chain below a node that shows an object** is an address of the object with another root. -/
theorem exists_graft (hx : x.end? s = some holder.value) (h : TransGen s.HasChild [x] ms) :
    ∃ below gs, ms = below ++ [x] ∧ gs ≠ [] ∧
      Addressed s holder (below ++ [holder.value.node none]) gs ∧
        Labelled (below ++ [holder.value.node none]) := by
  have hstep (below : List Node) {gs : List Segment} {ms : List Node}
      (ha : Addressed s holder (below ++ [holder.value.node none]) gs)
      (hlabelled : Labelled (below ++ [holder.value.node none]))
      (hms : s.HasChild (below ++ [x]) ms) :
      ∃ below gs, ms = below ++ [x] ∧ gs ≠ [] ∧
        Addressed s holder (below ++ [holder.value.node none]) gs ∧
          Labelled (below ++ [holder.value.node none]) := by
    obtain ⟨is, name, index, hchain⟩ := hms.exists_childChain
    obtain ⟨below', rfl, hgraft⟩ := hchain.graft hx holder.end?_node rfl
    exact ⟨below', _, rfl, by simp, hgraft.addressed ha, hgraft.labelled hlabelled⟩
  induction h with
  | single h => exact hstep [] .root (List.isChain_singleton _) h
  | tail _ h ih =>
    obtain ⟨below, gs, rfl, -, ha, hlabelled⟩ := ih
    exact hstep below ha hlabelled h

/-! ## Paths below the elements of a variable -/

namespace Pointer

open Grammar

variable {p q : Pointer} {scope i j : Nat} {name : QName} {holder' : Holder}

/-- The path of an element of a variable. -/
theorem slashed_element (h : (s.items? ((Node.var scope name (.element i)).base s)).isSome = true) :
    (Node.slashed ((Node.var scope name (.element i)).pathBelow s "")).toList =
      '$' :: name.text.toList ++ placeText (i + 1) ++ ['/'] := by
  have hpath : ((Node.var scope name (.element i)).pathBelow s "").toList =
      '$' :: name.text.toList ++ placeText (i + 1) := by
    rw [Node.pathBelow, Node.isCollection, if_pos h, String.toList_append, String.toList_append,
      Node.text_element]
    rfl
  rw [Node.slashed, if_neg fun hends => ?_, String.toList_append, hpath]
  · rfl
  · rw [Node.endsWith_slash, hpath, placeText, ← List.cons_append, ← List.append_assoc,
      List.getLast?_concat] at hends
    exact absurd hends (by decide)

/-- The path of a node below an element of a variable. -/
theorem path_graft {below : List Node} {gs : List Segment}
    (hitems : (s.items? ((Node.var scope name (.element i)).base s)).isSome = true)
    (hp : p.nodes = below ++ [.var scope name (.element i)]) (hne : gs ≠ [])
    (ha : Addressed s holder (below ++ [holder.value.node none]) gs)
    (hgs : ∀ g ∈ gs, IsName g.name) :
    (p.path s).toList = '$' :: name.text.toList ++ placeText (i + 1) ++ segmentsText gs := by
  rw [path, hp, List.foldr_append, List.foldr_cons, List.foldr_nil]
  exact (ha.foldr_pathBelow hgs (slashed_element hitems) rfl).2 hne

/-- **The nodes below the elements of a variable are told apart by their paths.** -/
theorem nodes_eq_of_path_eq {v : Value} (hnames : s.NamesReached v)
    (hitems : (s.items? ((Node.var scope name .whole).base s)).isSome = true)
    (hi : (Node.var scope name (.element i)).end? s = some holder.value)
    (hj : (Node.var scope name (.element j)).end? s = some holder'.value)
    (hv : s.Reaches v holder.value) (hv' : s.Reaches v holder'.value)
    (hp : TransGen s.HasChild [.var scope name (.element i)] p.nodes)
    (hq : TransGen s.HasChild [.var scope name (.element j)] q.nodes)
    (h : p.path s = q.path s) : p.nodes = q.nodes := by
  have hreached {holder : Holder} (hv : s.Reaches v holder.value) :
      s.NamesReached holder.value := fun h name hh hname => hnames h name (hv.trans hh) hname
  obtain ⟨below, gs, hbelow, hne, ha, hlabelled⟩ := exists_graft hi hp
  obtain ⟨below', gs', hbelow', hne', ha', hlabelled'⟩ := exists_graft hj hq
  have hgs := ha.isName (hreached hv)
  have hgs' := ha'.isName (hreached hv')
  rw [← String.toList_inj, path_graft hitems hbelow hne ha hgs,
    path_graft hitems hbelow' hne' ha' hgs', List.append_assoc, List.append_assoc,
    List.append_cancel_left_eq] at h
  -- the number of the element stands before the first slash
  have hplace (n : Nat) : ∀ c ∈ placeText n, (c != '/') = true := by
    intro c hc
    rw [bne_iff_ne]
    rintro rfl
    have hslash : '/' ∉ [n].flatMap placeText := not_mem_places [n] (by decide) (by decide)
    exact hslash (by simpa using hc)
  have honward (gs : List Segment) : ∀ c ∈ (segmentsText gs).head?, (c != '/') = false :=
    fun c hc => by simpa using onward_segmentsText gs c hc
  obtain ⟨hplaces, htexts⟩ := append_inj_of_test (hplace _) (hplace _) (honward _) (honward _) h
  obtain rfl : i = j := by
    have := @placesText_inj [i + 1] [j + 1] (by simpa using hplaces)
    simpa using this
  obtain rfl := segmentsText_inj (fun g hg => (hgs g hg).isLabel)
    (fun g hg => (hgs' g hg).isLabel) htexts
  obtain rfl := Holder.value_injective (Option.some.inj (hi.symm.trans hj))
  rw [hbelow, hbelow', List.append_cancel_right (ha.eq_of_labelled ha' hlabelled hlabelled')]

end Pointer

end PathQuery
