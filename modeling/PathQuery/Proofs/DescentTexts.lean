import PathQuery.Proofs.PrintedPaths

/-!
# Texts of descents

The ways to write a descent to the nodes of one name: behind a double slash, which stands for a step
of its own, and along the descendant axis. Both stand behind nothing, for the root, or behind a
variable.

* names: `Grammar.Behind`.
* **`parse_behind_nothing`**, **`parse_behind_variable`**: what is read of them.
-/

open PathQuery.Parser

namespace PathQuery.Grammar

variable {nested : Parser Expr} {more : List Char} {steps : List Step} {n x : String}

/-- The text is read as further steps, and it shows where they begin. -/
structure Behind (more : List Char) (steps : List Step) : Prop where
  reads (depth : Nat) : Reads (furtherSteps (expression (depth + 1))) more steps []
  root (depth : Nat) : Reads (locationPath (expression (depth + 1))) more (.root, steps) []
  slash : ∃ cs, more = '/' :: cs
  ends : EndsVisibly more
  ne_nil : steps ≠ []

theorem Behind.skip (h : Behind more steps) : skip more = more := by
  obtain ⟨cs, rfl⟩ := h.slash
  rfl

theorem reads_lastStep (hn : IsName n) (depth : Nat) :
    Reads (step (expression (depth + 1))) n.toList (.mk .child (.name (.bare n)) []) [] := by
  have hread := @reads_step [] depth ⟨n, []⟩ hn nofun
  simpa [Segment.step] using hread

/-- **A double slash is a step of its own.** -/
theorem behind_doubleSlash (hn : IsName n) : Behind ('/' :: '/' :: n.toList)
    [.descendants, .mk .child (.name (.bare n)) []] where
  reads depth := by
    have hslashes : Reads (do tag "//"; pure true) ('/' :: '/' :: n.toList) true n.toList :=
      (reads_tag rfl).bind reads_pure
    have hone : Reads (furtherStep (expression (depth + 1))) ('/' :: '/' :: n.toList)
        [.descendants, .mk .child (.name (.bare n)) []] [] :=
      hslashes.orElse.bind ((reads_lastStep hn depth).bind reads_pure)
    have hnone : Fails (furtherStep (expression (depth + 1))) [] :=
      fails_furtherStep_of_next (by simp)
    exact (hone.many (by simp) hnone.many).bind reads_pure
  root depth := by
    have hslashes : Reads (tag "//") ('/' :: '/' :: n.toList) () n.toList := reads_tag rfl
    have hnone : Reads (furtherSteps (expression (depth + 1))) [] [] [] :=
      (fails_furtherStep_of_next (by simp)).many.bind reads_pure
    exact hslashes.optional.bind ((reads_lastStep hn depth).bind (hnone.bind reads_pure))
  slash := ⟨_, rfl⟩
  ends := ((endsVisibly_name hn).cons '/').cons '/'
  ne_nil := List.cons_ne_nil _ _

theorem behind_descendant (hn : IsName n) :
    Behind ('/' :: (Axis.descendant.text.toList ++ ':' :: ':' :: n.toList))
      [.mk .descendant (.name (.bare n)) []] := by
  have hwritten : (QName.bare n).IsWritten := ⟨hn, by simp [QName.bare]⟩
  let spelling : Spelling := .prefer ⟨Nat.toDigits 10 0, []⟩ (isProper_toDigits 0)
  have hsteps (nested : Parser Expr) :
      StepsInside nested spelling [.mk .descendant (.name (.bare n)) []] :=
    List.forall_mem_singleton.2 ⟨.inl hwritten, by simp [Step.predicates]⟩
  have hend : StepsEnd [] := ⟨⟨by simp, by simp [Parser.skip]⟩, by simp [Parser.skip]⟩
  have htext : '/' :: (Axis.descendant.text.toList ++ ':' :: ':' :: n.toList) =
      stepsText spelling [.mk .descendant (.name (.bare n)) []] ++ [] := by
    simp [stepsText, predicatesText, NodeTest.text, QName.text, QName.bare]
  refine ⟨fun depth => ?_, fun depth => ?_, ⟨_, rfl⟩, ?_, List.cons_ne_nil _ _⟩
  · have hread : Reads (furtherSteps (expression (depth + 1))) _ _ _ :=
      reads_stepsText (hsteps _) hend
    rw [← htext] at hread
    exact hread
  · rw [htext]
    exact reads_locationPath_root (hsteps _) hend
  · have hname := (((endsVisibly_name hn).cons ':').cons ':').append Axis.descendant.text.toList
    exact hname.cons '/'

/-- What is read of a path from the root. -/
theorem parse_behind_nothing (h : Behind more steps) :
    parse (String.ofList more) = .ok (.path .root steps) := by
  obtain ⟨cs, rfl⟩ := h.slash
  have hclosing : Closing [] := by simp [Closing]
  have hpath : Reads (pathExpr (expression (cs.length + 1))) ('/' :: cs) (.path .root steps)
      (Parser.skip []) :=
    reads_pathExpr_of_locationPath (fails_filtered_slash cs) (h.root _) (by simp [Parser.skip])
  exact parse_of_reads h.ends.trimEnd rfl
    (reads_orExpr_of_pathExpr hpath hclosing (fails_tag_of_head (d := '-') rfl (by decide)))

/-- What is read of a path from a variable. -/
theorem parse_behind_variable (hx : IsName x) (h : Behind more steps) :
    parse (String.ofList ('$' :: (x.toList ++ more))) =
      .ok (.path (.value (.variable (.bare x))) steps) := by
  have hwritten : (QName.bare x).IsWritten := ⟨hx, by simp [QName.bare]⟩
  have hclosing : Closing [] := by simp [Closing]
  have hafter : After more := by
    obtain ⟨cs, rfl⟩ := h.slash
    exact .of_head (.inr rfl)
  have hnext : ∀ c ∈ (Parser.skip (Parser.skip more)).head?, c ≠ '[' := by
    obtain ⟨cs, hcs⟩ := h.slash
    rw [h.skip, h.skip, hcs]
    simp
  have hfiltered : Reads (filtered (expression ((x.toList ++ more).length + 1)))
      ('$' :: (x.toList ++ more)) (.variable (.bare x)) more := by
    have hvariable : Reads (primary (expression ((x.toList ++ more).length + 1)))
        ('$' :: ((QName.bare x).text.toList ++ more)) _ _ := reads_variable hwritten hafter
    have hnone : Reads (many (predicate (expression ((x.toList ++ more).length + 1))))
        (Parser.skip more) [] (Parser.skip more) := (fails_predicate hnext).many
    rw [h.skip] at hvariable hnone
    exact hvariable.bind (hnone.bind reads_pure)
  have hpath : Reads (pathExpr (expression ((x.toList ++ more).length + 1)))
      ('$' :: (x.toList ++ more)) (.path (.value (.variable (.bare x))) steps)
      (Parser.skip []) := by
    refine hfiltered.orElse.bind ((h.reads _).bind ?_)
    rw [if_neg (by simpa using h.ne_nil)]
    exact reads_pure
  exact parse_of_reads ((h.ends.append x.toList).cons '$').trimEnd rfl
    (reads_orExpr_of_pathExpr hpath hclosing (fails_tag_of_head (d := '-') rfl (by decide)))

end PathQuery.Grammar
