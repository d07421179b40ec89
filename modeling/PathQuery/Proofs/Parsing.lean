import PathQuery.Syntax.Grammar

/-!
# Reading with parsers

What the combinators give, from what their parts give.

* names: `Reads`, `Fails`, `Run`, `skip`; one lemma for each combinator and outcome. `Gives`: what
  holds of everything that a parser can read.
* **`Reads.token`**: a token leaves no blanks behind it; `skip` says so.
-/

namespace PathQuery

namespace Parser

variable {α β : Type}

/-- The parser reads a value and leaves the rest. -/
def Reads (p : Parser α) (input : List Char) (a : α) (rest : List Char) : Prop :=
  p input = .ok (a, rest)

/-- The parser fails. -/
def Fails (p : Parser α) (input : List Char) : Prop := ∃ at_, p input = .error at_

variable {p q : Parser α} {f : α → Parser β} {input rest rest' : List Char} {a : α} {b : β}

/-! ## Sequence -/

theorem reads_pure : Reads (pure a : Parser α) input a input := rfl

theorem Reads.bind (h : Reads p input a rest) (h' : Reads (f a) rest b rest') :
    Reads (p >>= f) input b rest' := by
  show (p >>= f) input = _
  exact (congrArg (· >>= fun x : α × List Char => f x.1 x.2) h).trans h'

theorem Reads.bind_fails (h : Reads p input a rest) (h' : Fails (f a) rest) :
    Fails (p >>= f) input := by
  obtain ⟨at_, h'⟩ := h'
  exact ⟨at_, (congrArg (· >>= fun x : α × List Char => f x.1 x.2) h).trans h'⟩

theorem Fails.bind (h : Fails p input) : Fails (p >>= f) input := by
  obtain ⟨at_, h⟩ := h
  exact ⟨at_, congrArg (· >>= fun x : α × List Char => f x.1 x.2) h⟩

theorem reads_bind_iff :
    Reads (p >>= f) input b rest ↔ ∃ a mid, Reads p input a mid ∧ Reads (f a) mid b rest := by
  constructor
  · intro h
    have h : (p input >>= fun x : α × List Char => f x.1 x.2) = .ok (b, rest) := h
    cases hp : p input with
    | error at_ =>
      rw [hp] at h
      cases h
    | ok x =>
      rw [hp] at h
      exact ⟨x.1, x.2, hp, h⟩
  · rintro ⟨a, mid, h, h'⟩
    exact h.bind h'

/-! ## Choice -/

theorem Reads.orElse (h : Reads p input a rest) : Reads (Parser.orElse p q) input a rest := by
  rw [Reads] at h
  simp [Reads, Parser.orElse, h]

theorem Fails.orElse (h : Fails p input) (h' : Reads q input a rest) :
    Reads (Parser.orElse p q) input a rest := by
  obtain ⟨at_, h⟩ := h
  rw [Reads] at h'
  simp [Reads, Parser.orElse, h, h']

theorem Fails.orElse_fails (h : Fails p input) (h' : Fails q input) :
    Fails (Parser.orElse p q) input := by
  obtain ⟨at_, h⟩ := h
  obtain ⟨at', h'⟩ := h'
  exact ⟨at', by simp [Parser.orElse, h, h']⟩

theorem Reads.optional (h : Reads p input a rest) : Reads (optional p) input (some a) rest := by
  rw [Reads] at h
  simp [Reads, Parser.optional, h]

theorem Fails.optional (h : Fails p input) : Reads (optional p) input none input := by
  obtain ⟨at_, h⟩ := h
  simp [Reads, Parser.optional, h]

theorem reads_peek (h : Reads p input a rest) :
    Reads (peek p) input a input := by
  rw [Reads] at h
  rw [Reads, peek, h]

/-! ## Repetition -/

theorem Fails.many (h : Fails p input) : Reads (many p) input [] input := by
  obtain ⟨at_, h⟩ := h
  rw [Reads, Parser.many, h]

theorem Reads.many {as : List α} (h : Reads p input a rest) (hlt : rest.length < input.length)
    (h' : Reads (many p) rest as rest') : Reads (many p) input (a :: as) rest' := by
  rw [Reads] at h h' ⊢
  rw [Parser.many, h]
  simp only [hlt, if_true, h']
  rfl

/-- The parser reads values one after another, and may be able to go on. -/
inductive Run (p : Parser α) : List Char → List α → List Char → Prop
  | nil {input : List Char} : Run p input [] input
  | cons {input mid rest : List Char} {a : α} {as : List α} (h : Reads p input a mid)
    (hlt : mid.length < input.length) (hrest : Run p mid as rest) : Run p input (a :: as) rest

theorem Run.snoc {as : List α} {mid : List Char} (h : Run p input as mid) (ha : Reads p mid a rest)
    (hlt : rest.length < mid.length) : Run p input (as ++ [a]) rest := by
  induction h with
  | nil => exact .cons ha hlt .nil
  | cons hb hlt' _ ih => exact .cons hb hlt' (ih ha hlt)

theorem Run.many {as : List α} (h : Run p input as rest) (hfails : Fails p rest) :
    Reads (many p) input as rest := by
  induction h with
  | nil => exact hfails.many
  | cons ha hlt _ ih => exact ha.many hlt (ih hfails)

/-! ## Fixed texts -/

theorem reads_tag {s : String} {cs : List Char} (h : input = s.toList ++ cs) :
    Reads (tag s) input () cs := by
  subst h
  simp [Reads, tag, ← String.length_toList]

theorem fails_tag {s : String} (h : ¬s.toList <+: input) : Fails (tag s) input :=
  ⟨input, by simp [tag, h]⟩

/-- A fixed text is not read from a text that starts with another character. -/
theorem fails_tag_of_head {s : String} {c d : Char} {cs : List Char} (hs : s.toList.head? = some d)
    (hne : c ≠ d) : Fails (tag s) (c :: cs) := by
  refine fails_tag fun hp => ?_
  obtain ⟨t, ht⟩ := List.head?_eq_some_iff.1 hs
  rw [ht, List.cons_prefix_cons] at hp
  exact hne hp.1.symm

theorem fails_tag_nil {s : String} (hs : s.toList ≠ []) : Fails (tag s) [] :=
  fails_tag fun hp => hs (List.prefix_nil.1 hp)

/-- A fixed text is not read where another character, or none, stands at the front. -/
theorem fails_tag_of_head_ne {s : String} {d : Char} (hs : s.toList.head? = some d)
    (h : ∀ c ∈ input.head?, c ≠ d) : Fails (tag s) input := by
  cases input with
  | nil => exact fails_tag_nil (by rintro hn; simp [hn] at hs)
  | cons c cs => exact fails_tag_of_head hs (h c rfl)

theorem takeWhile_append_of_head {test : Char → Bool} {rest : List Char} (cs : List Char)
    (h : ∀ c ∈ rest.head?, test c = false) :
    (cs ++ rest).takeWhile test = cs.takeWhile test ∧
      (cs ++ rest).dropWhile test = cs.dropWhile test ++ rest := by
  induction cs with
  | nil => cases rest <;> simp_all
  | cons c cs ih => by_cases hc : test c <;> simp [hc, ih]

/-! ## Tokens -/

/-- A text without the blanks at its front. -/
def skip (cs : List Char) : List Char := cs.dropWhile Text.isTokenBlank

theorem skip_eq_self (h : ∀ c ∈ input.head?, Text.isTokenBlank c = false) : skip input = input := by
  cases input with
  | nil => rfl
  | cons c cs => simp [skip, h c rfl]

theorem head_skip : ∀ c ∈ (skip input).head?, Text.isTokenBlank c = false := by
  intro c hc
  have h := List.head?_dropWhile_not Text.isTokenBlank input
  rw [Option.mem_def] at hc
  rw [skip] at hc
  simpa [hc] using h

@[simp] theorem skip_skip : skip (skip input) = skip input := skip_eq_self head_skip

@[simp] theorem skip_space (cs : List Char) : skip (' ' :: cs) = skip cs := rfl

theorem length_skip_le (cs : List Char) : (skip cs).length ≤ cs.length :=
  (List.dropWhile_suffix _).length_le

theorem reads_blanks : Reads blanks input () (skip input) := rfl

theorem Reads.token (h : Reads p (skip input) a rest) :
    Reads (Parser.token p) input a (skip rest) :=
  reads_blanks.bind (h.bind (reads_blanks.bind reads_pure))

theorem Fails.token (h : Fails p (skip input)) : Fails (Parser.token p) input :=
  reads_blanks.bind_fails h.bind

/-! ## What can be read -/

section Gives

variable {P : α → Prop} {Q : β → Prop}

/-- Whatever the parser reads has a property. -/
def Gives (p : Parser α) (P : α → Prop) : Prop :=
  ∀ input a rest, Reads p input a rest → P a

theorem gives_fail : Gives (fail : Parser α) P := by
  intro input a rest h
  cases h

theorem gives_pure (h : P a) : Gives (pure a : Parser α) P := by
  intro input b rest hr
  cases hr
  exact h

theorem gives_any : Gives p fun _ => True := fun _ _ _ _ => trivial

theorem Gives.bind (h : Gives p P) (hf : ∀ a, P a → Gives (f a) Q) : Gives (p >>= f) Q := by
  intro input b rest hr
  obtain ⟨a, mid, ha, hb⟩ := reads_bind_iff.1 hr
  exact hf a (h _ _ _ ha) _ _ _ hb

theorem Gives.orElse (h : Gives p P) (h' : Gives q P) : Gives (Parser.orElse p q) P := by
  intro input a rest hr
  rw [Reads, Parser.orElse] at hr
  split at hr
  · next hp =>
    obtain rfl := Except.ok.inj hr
    exact h _ _ _ hp
  · exact h' _ _ _ hr

theorem Gives.optional (h : Gives p P) : Gives (optional p) fun x => ∀ a ∈ x, P a := by
  intro input x rest hr
  rw [Reads, Parser.optional] at hr
  split at hr
  · next hp =>
    obtain ⟨rfl, -⟩ := Prod.mk.inj (Except.ok.inj hr)
    rintro a ⟨⟩
    exact h _ _ _ hp
  · obtain ⟨rfl, -⟩ := Prod.mk.inj (Except.ok.inj hr)
    simp

theorem Gives.many (h : Gives p P) : Gives (many p) fun as => ∀ a ∈ as, P a := by
  intro input as rest hr
  induction hn : input.length using Nat.strongRecOn generalizing input as rest with
  | ind n ih =>
    rw [Reads, Parser.many] at hr
    split at hr
    · obtain ⟨rfl, -⟩ := Prod.mk.inj (Except.ok.inj hr)
      simp
    · next a mid hp =>
      split at hr
      · next hlt =>
        cases hmany : Parser.many p mid with
        | error at_ =>
          rw [hmany] at hr
          cases hr
        | ok x =>
          obtain ⟨bs, rest'⟩ := x
          rw [hmany] at hr
          obtain ⟨rfl, -⟩ := Prod.mk.inj (Except.ok.inj hr)
          intro b hb
          rcases List.mem_cons.1 hb with rfl | hb
          · exact h _ _ _ hp
          · exact ih mid.length (hn ▸ hlt) mid bs rest' hmany rfl b hb
      · cases hr

theorem Gives.token (h : Gives p P) : Gives (token p) P :=
  gives_any.bind fun _ _ => h.bind fun _ ha => gives_any.bind fun _ _ => gives_pure ha

theorem Gives.separated {separator : Parser Unit} (h : Gives p P) :
    Gives (separated separator p) fun as => ∀ a ∈ as, P a := by
  refine h.optional.bind fun x hx => ?_
  cases x with
  | none => exact gives_pure (by simp)
  | some a =>
    refine (Gives.many (gives_any.bind fun _ _ => h)).bind fun as has => gives_pure ?_
    intro b hb
    rcases List.mem_cons.1 hb with rfl | hb
    · exact hx b rfl
    · exact has b hb

end Gives

end Parser

end PathQuery
