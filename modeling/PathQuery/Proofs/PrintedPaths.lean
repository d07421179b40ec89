import PathQuery.Proofs.Integers
import PathQuery.Proofs.PathTexts

/-!
# Printed paths are read back

A printed path is a run of names between slashes, each with numbers in brackets. Such a text is read
as the absolute path of child steps that it shows.

* names: `Segment`, `Segment.text`, `Segment.step`, `segmentsText`.
* **`parse_segments`**: a printed path is parsed to its own steps.
-/

open PathQuery.Parser

namespace PathQuery

/-- The text of a predicate that is a number. -/
def Grammar.placeText (n : Nat) : List Char := '[' :: (Nat.toDigits 10 n ++ [']'])

/-- A step of a printed path: a name, and the numbers in its predicates. -/
structure Segment where
  name : String
  places : List Nat

namespace Segment

/-- The text of a step, with the slash before it. -/
def text (g : Segment) : List Char :=
  '/' :: (g.name.toList ++ g.places.flatMap Grammar.placeText)

/-- The step that is shown. -/
def step (g : Segment) : Step :=
  .mk .child (.name (.bare g.name)) (g.places.map fun n => .number (Number.ofNat n))

end Segment

namespace Grammar

variable {nested : Parser Expr} {rest : List Char} {depth : Nat}

/-! ## Numbers in predicates -/

theorem isProper_toDigits (n : Nat) : Number.Literal.IsProper ⟨Nat.toDigits 10 n, []⟩ := by
  have hdigits : ∀ c ∈ Nat.toDigits 10 n, c.isDigit = true :=
    fun c hc => Nat.isDigit_of_mem_toDigits (by omega) (by omega) hc
  exact ⟨by simpa using hdigits, by simp⟩

theorem text_toDigits (n : Nat) :
    Number.Literal.text ⟨Nat.toDigits 10 n, []⟩ = Nat.toDigits 10 n := by
  simp [Number.Literal.text]

theorem startsAt_toDigits (n : Nat) : StartsAt 9 (Nat.toDigits 10 n) :=
  text_toDigits n ▸ startsAt_number (isProper_toDigits n) 9

theorem reads_number (n : Nat) (hrest : Closing rest) :
    Reads (orExpr nested) (Nat.toDigits 10 n ++ rest) (.number (Number.ofNat n)) rest := by
  have hstop : ∀ c ∈ rest.head?, c.isDigit = false ∧ c ≠ '.' := by
    intro c hc
    rcases hrest c hc with rfl | rfl | rfl <;> decide
  have hend : Number.Literal.atEnd ⟨Nat.toDigits 10 n, []⟩ = ⟨Nat.toDigits 10 n, []⟩ := ite_self _
  have hprimary : Reads (primary nested) _ _ _ := reads_numberPrimary (isProper_toDigits n) hstop
  rw [text_toDigits, hend, ite_self, Number.literal_value_toDigits] at hprimary
  exact reads_orExpr_of_pathExpr (reads_pathExpr_of_primary hprimary (hrest.follow 9)) hrest
    ((startsAt_toDigits n).fails_minus (by omega) rest)

theorem reads_predicate (depth n : Nat) (rest : List Char) :
    Reads (predicate (expression (depth + 1))) (placeText n ++ rest) (.number (Number.ofNat n))
      (skip rest) := by
  have hskip := (startsAt_toDigits n).skip (']' :: rest)
  have hopen : Reads (token (tag "[")) (placeText n ++ rest) ()
      (skip (Nat.toDigits 10 n ++ ']' :: rest)) :=
    Reads.token (reads_tag (by simp [placeText, skip, Text.isTokenBlank]))
  have hclosing : Closing (']' :: rest) := by simp [Closing]
  have hnumber : Reads (expression (depth + 1)) (Nat.toDigits 10 n ++ ']' :: rest)
      (.number (Number.ofNat n)) (skip (']' :: rest)) :=
    Reads.token (by rw [hskip]; exact reads_number n hclosing)
  have hclose : Reads (token (tag "]")) (']' :: rest) () (skip rest) :=
    Reads.token (reads_tag rfl)
  rw [hskip] at hopen
  rw [hclosing.skip] at hnumber
  exact hopen.bind (hnumber.bind (hclose.bind reads_pure))

theorem reads_predicates (places : List Nat) (hrest : ∀ c ∈ (skip rest).head?, c ≠ '[') :
    Reads (many (predicate (expression (depth + 1)))) (skip (places.flatMap placeText ++ rest))
      (places.map fun n => .number (Number.ofNat n)) (skip rest) := by
  induction places with
  | nil => exact (fails_predicate (by simpa using hrest)).many
  | cons n places ih =>
    have hread := reads_predicate depth n (places.flatMap placeText ++ rest)
    have hskip : skip ((n :: places).flatMap placeText ++ rest) =
        placeText n ++ (places.flatMap placeText ++ rest) := by
      rw [List.flatMap_cons, List.append_assoc]
      rfl
    rw [hskip]
    refine hread.many ?_ ih
    have := length_skip_le (places.flatMap placeText ++ rest)
    simp only [placeText, List.cons_append, List.length_cons, List.length_append] at this ⊢
    omega

theorem not_mem_places {c : Char} (places : List Nat) (hc : c ≠ '[' ∧ c ≠ ']')
    (hd : c.isDigit = false) : c ∉ places.flatMap placeText := by
  simp only [List.mem_flatMap, not_exists, not_and, placeText, List.mem_cons, List.mem_append,
    not_or, List.not_mem_nil, not_false_eq_true, and_true]
  refine fun n _ => ⟨hc.1, fun hm => ?_, hc.2⟩
  simp [Nat.isDigit_of_mem_toDigits (by omega) (by omega) hm] at hd

/-! ## Steps -/

theorem reads_stepHead {name : String} (hname : IsName name) (hrest : After rest)
    (hcolon : ∀ c ∈ (skip rest).head?, c ≠ ':') :
    Reads stepHead (name.toList ++ rest) (.child, .name (.bare name)) rest := by
  have hwritten : (QName.bare name).IsWritten := ⟨hname, by simp [QName.bare]⟩
  have hfails {s : String} {d : Char} (hs : s.toList.head? = some d)
      (hd : isNameStart d = false) : Fails (tag s) (name.toList ++ rest) :=
    fails_tag_name hname hs hd
  have hchild : Reads (do let a ← optional axis; let t ← nodeTest; pure (a.getD Axis.child, t))
      (name.toList ++ rest) (.child, .name (.bare name)) rest :=
    (fails_axis_name hname hrest.isOutside hcolon).optional.bind
      ((reads_nameTest hwritten hrest).bind reads_pure)
  exact (hfails (d := '.') rfl (by decide)).bind.orElse
    ((hfails (d := '.') rfl (by decide)).bind.orElse
      ((hfails (d := '@') rfl (by decide)).bind.orElse hchild))

/-- What may follow a step of a printed path. -/
def Onward (rest : List Char) : Prop := ∀ c ∈ rest.head?, c = '/'

theorem Onward.skip (h : Onward rest) : Parser.skip rest = rest :=
  skip_eq_self fun c hc => h c hc ▸ rfl

/-- The predicates of a step start with a bracket. -/
theorem head_places (places : List Nat) (hrest : Onward rest) :
    ∀ c ∈ (places.flatMap placeText ++ rest).head?, c = '[' ∨ c = '/' := by
  intro c hc
  cases places with
  | nil => exact .inr (hrest c hc)
  | cons n places => exact .inl (by simpa [placeText] using hc.symm)

theorem skip_places (places : List Nat) (hrest : Onward rest) :
    skip (places.flatMap placeText ++ rest) = places.flatMap placeText ++ rest :=
  skip_eq_self fun c hc => by rcases head_places places hrest c hc with rfl | rfl <;> rfl

theorem after_places (places : List Nat) (hrest : Onward rest) :
    After (places.flatMap placeText ++ rest) where
  head c hc := by rcases head_places places hrest c hc with rfl | rfl <;> simp
  next c hc := by
    rw [skip_places places hrest] at hc
    rcases head_places places hrest c hc with rfl | rfl <;> decide

variable (depth) in
theorem reads_step {g : Segment} (hname : IsName g.name) (hrest : Onward rest) :
    Reads (step (expression (depth + 1))) (g.name.toList ++ (g.places.flatMap placeText ++ rest))
      g.step rest := by
  have hhead := head_places g.places hrest
  have hskip := skip_places g.places hrest
  have hstep := reads_stepHead hname (after_places g.places hrest) fun c hc => by
    rw [hskip] at hc
    rcases hhead c hc with rfl | rfl <;> decide
  have hnext : ∀ c ∈ (skip rest).head?, c ≠ '[' := fun c hc => by
    rw [hrest.skip] at hc
    rw [hrest c hc]
    decide
  have hplaces : Reads (many (predicate (expression (depth + 1)))) _ _ _ :=
    reads_predicates g.places hnext
  rw [← skip_name hname] at hstep
  rw [hrest.skip] at hplaces
  exact hstep.token.bind (hplaces.bind reads_pure)

/-- One slash stands before a name, not two. -/
theorem fails_doubleSlash {g : Segment} (hname : IsName g.name) :
    Fails (tag "//") (g.text ++ rest) := by
  obtain ⟨d, cs, hn, hd⟩ := exists_cons_of_isName hname
  refine fails_tag fun hp => ?_
  simp only [Segment.text, hn, List.cons_append] at hp
  rw [show "//".toList = ['/', '/'] from rfl, List.cons_prefix_cons, List.cons_prefix_cons] at hp
  rw [← hp.2.1] at hd
  exact absurd hd (by decide)

theorem reads_slash (g : Segment) (rest : List Char) :
    Reads (tag "/") (g.text ++ rest) () (g.name.toList ++ (g.places.flatMap placeText ++ rest)) :=
  reads_tag (by simp [Segment.text])

variable (depth) in
theorem reads_furtherStep {g : Segment} (hname : IsName g.name) (hrest : Onward rest) :
    Reads (furtherStep (expression (depth + 1))) (g.text ++ rest) [g.step] rest := by
  have hslash : Reads (do tag "/"; pure false) (g.text ++ rest) false
      (g.name.toList ++ (g.places.flatMap placeText ++ rest)) :=
    (reads_slash g rest).bind reads_pure
  exact ((fails_doubleSlash hname).bind.orElse hslash).bind
    ((reads_step depth hname hrest).bind reads_pure)

/-! ## Whole paths -/

/-- The texts of the steps of a printed path. -/
def segmentsText (gs : List Segment) : List Char := gs.flatMap Segment.text

theorem onward_segmentsText (gs : List Segment) : Onward (segmentsText gs) := by
  intro c hc
  cases gs with
  | nil => simp [segmentsText] at hc
  | cons g gs => simpa [segmentsText, Segment.text] using hc.symm

theorem reads_furtherSteps {gs : List Segment} (hgs : ∀ g ∈ gs, IsName g.name) :
    Reads (furtherSteps (expression (depth + 1))) (segmentsText gs) (gs.map Segment.step) [] := by
  have hmany : Reads (many (furtherStep (expression (depth + 1)))) (segmentsText gs)
      (gs.map fun g => [g.step]) [] := by
    induction gs with
    | nil => exact (fails_furtherStep_of_next (by simp [segmentsText])).many
    | cons g gs ih =>
      have hstep := reads_furtherStep depth (hgs g (List.mem_cons_self ..)) (onward_segmentsText gs)
      refine hstep.many ?_ (ih fun g hg => hgs g (List.mem_cons_of_mem _ hg))
      simp [Segment.text]
      omega
  have hflat (gs : List Segment) : (gs.map fun g => [g.step]).flatten = gs.map Segment.step := by
    induction gs <;> simp_all
  refine hmany.bind ?_
  rw [hflat]
  exact reads_pure

theorem reads_locationPath {g : Segment} {gs : List Segment} (hgs : ∀ h ∈ g :: gs, IsName h.name) :
    Reads (locationPath (expression (depth + 1))) (segmentsText (g :: gs))
      (.root, (g :: gs).map Segment.step) [] := by
  have hname := hgs g (List.mem_cons_self ..)
  have hfirst := reads_step depth hname (onward_segmentsText gs)
  have hmore : Reads (furtherSteps (expression (depth + 1))) (segmentsText gs)
      (gs.map Segment.step) [] := reads_furtherSteps fun g hg => hgs g (List.mem_cons_of_mem _ hg)
  have hslash : Reads (optional (tag "/")) (segmentsText (g :: gs)) (some ())
      (g.name.toList ++ (g.places.flatMap placeText ++ segmentsText gs)) :=
    (reads_slash g _).optional
  exact (fails_doubleSlash hname).optional.bind
    (hslash.bind (hfirst.optional.bind (hmore.bind reads_pure)))

theorem endsVisibly_segmentsText {gs : List Segment} (hne : gs ≠ [])
    (hgs : ∀ g ∈ gs, IsName g.name) : EndsVisibly (segmentsText gs) := by
  induction gs with
  | nil => exact absurd rfl hne
  | cons g gs ih =>
    cases gs with
    | nil =>
      have hname := hgs g (List.mem_cons_self ..)
      rcases List.eq_nil_or_concat g.places with hnil | ⟨places, n, hplaces⟩
      · simpa [segmentsText, Segment.text, hnil] using (endsVisibly_name hname).cons '/'
      · have hends : EndsVisibly ('/' :: (g.name.toList ++ (places.flatMap placeText ++
            '[' :: Nat.toDigits 10 n)) ++ [']']) := endsVisibly_last _ rfl
        simpa [segmentsText, Segment.text, hplaces, placeText] using hends
    | cons g' gs =>
      exact (ih (by simp) fun g hg => hgs g (List.mem_cons_of_mem _ hg)).append g.text

/-- **A printed path is read as the steps that it shows.** -/
theorem parse_segments {gs : List Segment} (hne : gs ≠ []) (hgs : ∀ g ∈ gs, IsName g.name) :
    parse (String.ofList (segmentsText gs)) = .ok (.path .root (gs.map Segment.step)) := by
  have htrim := (endsVisibly_segmentsText hne hgs).trimEnd
  obtain ⟨g, gs, rfl⟩ := List.exists_cons_of_ne_nil hne
  obtain ⟨depth, hdepth⟩ : ∃ depth, (segmentsText (g :: gs)).length = depth + 1 :=
    ⟨_, by simp [segmentsText, Segment.text]; rfl⟩
  have hcons : ∃ cs, segmentsText (g :: gs) = '/' :: cs := ⟨_, rfl⟩
  obtain ⟨cs, hcs⟩ := hcons
  have hclosing : Closing [] := by simp [Closing]
  have hskip : skip (segmentsText (g :: gs)) = segmentsText (g :: gs) :=
    (onward_segmentsText (g :: gs)).skip
  have hpath : Reads (pathExpr (expression (depth + 1))) (segmentsText (g :: gs))
      (.path .root ((g :: gs).map Segment.step)) (skip []) :=
    reads_pathExpr_of_locationPath (by rw [hcs]; exact fails_filtered_slash cs)
      (reads_locationPath hgs) (by simp [skip])
  refine parse_of_reads htrim hskip (reads_orExpr_of_pathExpr (hdepth ▸ hpath) hclosing ?_)
  rw [hskip, hcs]
  exact fails_tag_of_head (d := '-') rfl (by decide)

end Grammar

end PathQuery
