/-!
# Computations that ask

A computation that may ask of two items whether the first is less than the second, and goes on as
the answer says. What comes out of it depends on who answers; the same computation can be answered
by a relation, or by a comparison that may fail.

* names: `Inquiry`, `Inquiry.less`; `answered`, `asked`, `tried`, `reindex`.
* **`tried_eq_ok`**, **`tried_eq_error`**: a comparison that may fail fails an inquiry exactly if it
  is asked about a pair that it fails on.
-/

namespace PathQuery

/-- A computation that asks about pairs of items. -/
inductive Inquiry (α β : Type) where
  | done (b : β)
  | ask (a b : α) (next : Bool → Inquiry α β)

namespace Inquiry

variable {α β γ : Type}

/-- One computation after another. -/
def andThen : Inquiry α β → (β → Inquiry α γ) → Inquiry α γ
  | done b, f => f b
  | ask a b next, f => ask a b fun yes => (next yes).andThen f

instance : Monad (Inquiry α) where
  pure := done
  bind := andThen

theorem andThen_done (x : Inquiry α β) : x.andThen done = x := by
  induction x with
  | done b => rfl
  | ask a b next ih => exact congrArg (ask a b) (funext ih)

theorem andThen_assoc {δ : Type} (x : Inquiry α β) (f : β → Inquiry α γ) (g : γ → Inquiry α δ) :
    (x.andThen f).andThen g = x.andThen fun b => (f b).andThen g := by
  induction x with
  | done b => rfl
  | ask a b next ih => exact congrArg (ask a b) (funext ih)

instance : LawfulMonad (Inquiry α) := .mk' _ andThen_done (fun _ _ => rfl) andThen_assoc

/-- Asks whether the first item is less than the second. -/
def less (a b : α) : Inquiry α Bool := ask a b done

/-! ## Answers -/

section Answers

variable (lt : α → α → Bool)

/-- What comes out if a relation answers. -/
def answered : Inquiry α β → β
  | done b => b
  | ask a b next => (next (lt a b)).answered

/-- The pairs that are asked about if a relation answers. -/
def asked : Inquiry α β → List (α × α)
  | done _ => []
  | ask a b next => (a, b) :: (next (lt a b)).asked

/-- What comes out if the answers may fail: the first failure ends it. -/
def tried {ε : Type} (answer : α → α → Except ε Bool) : Inquiry α β → Except ε β
  | done b => .ok b
  | ask a b next => do (next (← answer a b)).tried answer

variable (x : Inquiry α β) (f : β → Inquiry α γ)

@[simp] theorem answered_pure (b : β) : (pure b : Inquiry α β).answered lt = b := rfl

@[simp] theorem answered_less (a b : α) : (less a b).answered lt = lt a b := rfl

@[simp] theorem answered_bind : (x >>= f).answered lt = (f (x.answered lt)).answered lt := by
  induction x with
  | done b => rfl
  | ask a b next ih => exact ih _

@[simp] theorem answered_map (g : β → γ) : (g <$> x).answered lt = g (x.answered lt) :=
  answered_bind lt x fun b => pure (g b)

@[simp] theorem asked_pure (b : β) : (pure b : Inquiry α β).asked lt = [] := rfl

@[simp] theorem asked_less (a b : α) : (less a b).asked lt = [(a, b)] := rfl

@[simp] theorem asked_bind :
    (x >>= f).asked lt = x.asked lt ++ (f (x.answered lt)).asked lt := by
  induction x with
  | done b => rfl
  | ask a b next ih => exact congrArg ((a, b) :: ·) (ih _)

@[simp] theorem asked_map (g : β → γ) : (g <$> x).asked lt = x.asked lt :=
  (asked_bind lt x fun b => pure (g b)).trans (List.append_nil _)

end Answers

/-! ## Answers that may fail -/

section Failures

variable {ε : Type} {answer : α → α → Except ε Bool} {lt : α → α → Bool} {x : Inquiry α β} {e : ε}

theorem tried_map (g : β → γ) : (g <$> x).tried answer = (x.tried answer).map g := by
  induction x with
  | done b => rfl
  | ask a b next ih =>
    show (do ((g <$> next (← answer a b)).tried answer)) =
      (do (next (← answer a b)).tried answer).map g
    cases answer a b with
    | error e => rfl
    | ok yes => exact ih yes

/-- An inquiry comes to its end if none of its questions fails. -/
theorem tried_eq_ok (h : ∀ q ∈ x.asked lt, answer q.1 q.2 = .ok (lt q.1 q.2)) :
    x.tried answer = .ok (x.answered lt) := by
  induction x with
  | done b => rfl
  | ask a b next ih =>
    obtain ⟨hab, hnext⟩ := List.forall_mem_cons.1 h
    rw [tried, hab]
    exact ih _ hnext

/-- An inquiry fails if one of its questions does, as one of them does. -/
theorem tried_eq_error (hlt : ∀ a b yes, answer a b = .ok yes → lt a b = yes)
    (h : ∃ q ∈ x.asked lt, ∃ e, answer q.1 q.2 = .error e) :
    ∃ q ∈ x.asked lt, ∃ e, answer q.1 q.2 = .error e ∧ x.tried answer = .error e := by
  induction x with
  | done b => simp [asked] at h
  | ask a b next ih =>
    rw [asked] at h ⊢
    cases hab : answer a b with
    | error e => exact ⟨(a, b), List.mem_cons_self, e, hab, by rw [tried, hab]; rfl⟩
    | ok yes =>
      obtain rfl := hlt a b yes hab
      obtain ⟨q, hq, e, he⟩ := h
      rcases List.mem_cons.1 hq with rfl | hq
      · rw [hab] at he
        cases he
      · obtain ⟨q, hq, e, he, htried⟩ := ih _ ⟨q, hq, e, he⟩
        refine ⟨q, List.mem_cons_of_mem _ hq, e, he, ?_⟩
        rw [tried, hab]
        exact htried

/-- A failure is that of a question. -/
theorem exists_of_tried_eq_error (h : x.tried answer = .error e) :
    ∃ a b, answer a b = .error e := by
  induction x with
  | done b => cases h
  | ask a b next ih =>
    rw [tried] at h
    cases hab : answer a b with
    | error e' =>
      rw [hab] at h
      obtain rfl := Except.error.inj h
      exact ⟨a, b, hab⟩
    | ok yes =>
      rw [hab] at h
      exact ih yes h

end Failures

/-! ## Other items -/

section Reindex

variable {δ : Type}

/-- The same computation about the images of the items. -/
def reindex (f : δ → α) : Inquiry δ β → Inquiry α β
  | done b => done b
  | ask a b next => ask (f a) (f b) fun yes => (next yes).reindex f

variable (f : δ → α)

@[simp] theorem reindex_pure (b : β) : (pure b : Inquiry δ β).reindex f = pure b := rfl

@[simp] theorem reindex_less (a b : δ) : (less a b).reindex f = less (f a) (f b) := rfl

@[simp] theorem reindex_bind (x : Inquiry δ β) (g : β → Inquiry δ γ) :
    (x >>= g).reindex f = x.reindex f >>= fun b => (g b).reindex f := by
  induction x with
  | done b => rfl
  | ask a b next ih => exact congrArg (ask (f a) (f b)) (funext ih)

@[simp] theorem reindex_map (g : β → γ) (x : Inquiry δ β) :
    (g <$> x).reindex f = g <$> x.reindex f :=
  reindex_bind f x fun b => pure (g b)

@[simp] theorem answered_reindex (lt : α → α → Bool) (x : Inquiry δ β) :
    (x.reindex f).answered lt = x.answered fun a b => lt (f a) (f b) := by
  induction x with
  | done b => rfl
  | ask a b next ih => exact ih _

@[simp] theorem asked_reindex (lt : α → α → Bool) (x : Inquiry δ β) :
    (x.reindex f).asked lt = (x.asked fun a b => lt (f a) (f b)).map (Prod.map f f) := by
  induction x with
  | done b => rfl
  | ask a b next ih => exact congrArg ((f a, f b) :: ·) (ih _)

@[simp] theorem tried_reindex {ε : Type} (answer : α → α → Except ε Bool) (x : Inquiry δ β) :
    (x.reindex f).tried answer = x.tried fun a b => answer (f a) (f b) := by
  induction x with
  | done b => rfl
  | ask a b next ih => exact congrArg (answer (f a) (f b) >>= ·) (funext ih)

end Reindex

end Inquiry

end PathQuery
