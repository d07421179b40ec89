import Mathlib.Order.ConditionallyCompleteLattice.Basic
import PathQuery.Proofs.Progress

/-!
# Reading two texts side by side

A parser is run on two texts that are related. If it reads the same value from both and leaves
related texts, or fails on both, no reader of its result can tell the texts apart.

* names: `SameOutcome`, `Paired`, with one lemma for each combinator; `Refused`: an alternative that
  is tried later may use that the earlier ones failed on both texts.
* **`Paired.many`**: a relation that one round keeps is kept by the repetition.
-/

namespace PathQuery.Parser

variable {α β : Type} {P P' Q Q' R : List Char → List Char → Prop}

/-- The parser reads the same value from both texts and leaves texts that `Q` relates, or it fails
on both. -/
def SameOutcome (Q : List Char → List Char → Prop) (p : Parser α) (s t : List Char) : Prop :=
  (∃ a s' t', Reads p s a s' ∧ Reads p t a t' ∧ Q s' t') ∨ (Fails p s ∧ Fails p t)

/-- The parser has the same outcome on all texts that `P` relates. -/
def Paired (P Q : List Char → List Char → Prop) (p : Parser α) : Prop :=
  ∀ s t, P s t → SameOutcome Q p s t

/-- The texts are related, and the parser fails on both. -/
def Refused (P : List Char → List Char → Prop) (p : Parser α) : List Char → List Char → Prop :=
  fun s t => P s t ∧ Fails p s ∧ Fails p t

variable {p q : Parser α} {f : α → Parser β}

theorem Paired.mono (h : Paired P Q p) (hP : P' ≤ P) (hQ : Q ≤ Q') : Paired P' Q' p := by
  intro s t hst
  obtain ⟨a, s', t', hs, ht, hrest⟩ | hfails := h s t (hP s t hst)
  · exact .inl ⟨a, s', t', hs, ht, hQ s' t' hrest⟩
  · exact .inr hfails

theorem Paired.weaken (h : Paired P Q p) (hQ : Q ≤ Q') : Paired P Q' p := h.mono le_rfl hQ

theorem Paired.strengthen (h : Paired P Q p) (hP : P' ≤ P) : Paired P' Q p := h.mono hP le_rfl

theorem Paired.sup (h : Paired P Q p) (h' : Paired P' Q p) : Paired (P ⊔ P') Q p :=
  fun s t hst => hst.elim (h s t) (h' s t)

theorem paired_of_fails (h : ∀ s t, P s t → Fails p s ∧ Fails p t) : Paired P Q p :=
  fun s t hst => .inr (h s t hst)

theorem paired_fail : Paired P Q (fail : Parser α) :=
  paired_of_fails fun s t _ => ⟨⟨s, rfl⟩, ⟨t, rfl⟩⟩

theorem paired_pure (a : α) : Paired P P (pure a : Parser α) :=
  fun s t hst => .inl ⟨a, s, t, reads_pure, reads_pure, hst⟩

theorem Paired.bind (h : Paired P Q p) (hf : ∀ a, Paired Q R (f a)) : Paired P R (p >>= f) := by
  intro s t hst
  obtain ⟨a, s', t', hs, ht, hrest⟩ | ⟨hs, ht⟩ := h s t hst
  · obtain ⟨b, s'', t'', hs', ht', hrest'⟩ | ⟨hs', ht'⟩ := hf a s' t' hrest
    · exact .inl ⟨b, s'', t'', hs.bind hs', ht.bind ht', hrest'⟩
    · exact .inr ⟨hs.bind_fails hs', ht.bind_fails ht'⟩
  · exact .inr ⟨hs.bind, ht.bind⟩

theorem Paired.map (h : Paired P Q p) (f : α → β) : Paired P Q (do let a ← p; pure (f a)) :=
  h.bind fun _ => paired_pure _

theorem Paired.token {R' : List Char → List Char → Prop} (h : Paired Q R p)
    (hbefore : Paired P Q blanks) (hbehind : Paired R R' blanks) : Paired P R' (token p) :=
  hbefore.bind fun _ => h.bind fun _ => hbehind.bind fun _ => paired_pure _

/-! ## Choice -/

theorem Paired.orElse (h : Paired P Q p) (h' : Paired (Refused P p) Q q) :
    Paired P Q (Parser.orElse p q) := by
  intro s t hst
  obtain ⟨a, s', t', hs, ht, hrest⟩ | ⟨hs, ht⟩ := h s t hst
  · exact .inl ⟨a, s', t', hs.orElse, ht.orElse, hrest⟩
  · obtain ⟨a, s', t', hs', ht', hrest⟩ | ⟨hs', ht'⟩ := h' s t ⟨hst, hs, ht⟩
    · exact .inl ⟨a, s', t', hs.orElse hs', ht.orElse ht', hrest⟩
    · exact .inr ⟨hs.orElse_fails hs', ht.orElse_fails ht'⟩

theorem Paired.refused {q : Parser β} (h : Paired P R q) : Paired (Refused P p) R q :=
  h.strengthen fun _ _ hst => hst.1

theorem fails_of_map {f : α → β} {s : List Char} (h : Fails (do let a ← p; pure (f a)) s) :
    Fails p s := by
  cases hp : p s with
  | error at_ => exact ⟨at_, hp⟩
  | ok x =>
    obtain ⟨at_, h⟩ := h
    cases (Reads.bind (f := fun a => pure (f a)) hp reads_pure).symm.trans h

theorem Refused.of_map {f : α → β} : Refused P (do let a ← p; pure (f a)) ≤ Refused P p :=
  fun _ _ h => ⟨h.1, fails_of_map h.2.1, fails_of_map h.2.2⟩

/-- What follows an optional part depends on whether it was there. -/
theorem Paired.optional_bind {f : Option α → Parser β} (h : Paired P Q p)
    (hsome : ∀ a, Paired Q R (f (some a))) (hnone : Paired (Refused P p) R (f none)) :
    Paired P R (optional p >>= f) := by
  intro s t hst
  obtain ⟨a, s', t', hs, ht, hrest⟩ | ⟨hs, ht⟩ := h s t hst
  · obtain ⟨b, s'', t'', hs', ht', hrest'⟩ | ⟨hs', ht'⟩ := hsome a s' t' hrest
    · exact .inl ⟨b, s'', t'', hs.optional.bind hs', ht.optional.bind ht', hrest'⟩
    · exact .inr ⟨hs.optional.bind_fails hs', ht.optional.bind_fails ht'⟩
  · obtain ⟨b, s', t', hs', ht', hrest⟩ | ⟨hs', ht'⟩ := hnone s t ⟨hst, hs, ht⟩
    · exact .inl ⟨b, s', t', hs.optional.bind hs', ht.optional.bind ht', hrest⟩
    · exact .inr ⟨hs.optional.bind_fails hs', ht.optional.bind_fails ht'⟩

/-! ## Repetition -/

/-- **A relation that one round keeps is kept by the repetition.** -/
theorem Paired.many (h : Paired P P p) (hp : Advances p) : Paired P P (many p) := by
  intro s t hst
  -- The repetition never fails, so there is always something read.
  refine .inl ?_
  induction hn : s.length using Nat.strongRecOn generalizing s t with
  | ind n ih =>
    obtain ⟨a, s', t', hs, ht, hrest⟩ | ⟨hs, ht⟩ := h s t hst
    · obtain ⟨as, s'', t'', hs', ht', hrest'⟩ := ih s'.length (hn ▸ hp.shorter hs) s' t' hrest rfl
      exact ⟨a :: as, s'', t'', hs.many (hp.shorter hs) hs', ht.many (hp.shorter ht) ht', hrest'⟩
    · exact ⟨[], s, t, hs.many, ht.many, hst⟩

/-- Behind the first item the repetition goes on with a separator; without one it does not begin. -/
theorem Paired.separated {separator : Parser Unit} (hseparator : Paired Q P separator)
    (hadvances : Advances separator) (h : Paired P Q p) (hp : Within p) (hQ : Q ≤ R) (hP : P ≤ R) :
    Paired P R (separated separator p) := by
  have hfurther : Paired Q R (Parser.many (do separator; p)) :=
    ((hseparator.bind fun _ => h).many (hadvances.bind fun _ => hp)).weaken hQ
  exact h.optional_bind (fun a => hfurther.map _)
    ((paired_pure []).refused.weaken hP)

end PathQuery.Parser
