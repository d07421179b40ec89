import PathQuery.Proofs.Levels

/-!
# Words that are read back

The leaves of the grammar: names, quoted texts, numbers, node tests and the heads of steps are read
back from their written forms. What follows such a word must not go on with it.

* names: `After`: what may stand behind a node test.
* **`reads_testText`**, **`reads_numberText`**: node tests and numbers; a number at the end of the
  text comes back without its fraction.
-/

open PathQuery.Parser

namespace PathQuery.Grammar

variable {k : Nat} {rest input : List Char}

/-! ## Names -/

/-- What may follow a node test. -/
structure After (rest : List Char) : Prop where
  head : ∀ c ∈ rest.head?, c = ' ' ∨ c = '[' ∨ c = ']' ∨ c = ')' ∨ c = ',' ∨ c = '/'
  next : ∀ c ∈ (skip rest).head?, c ≠ '('

theorem Follow.after (h : Follow k rest) : After rest where
  head c hc := by rcases h.head c hc with h | h | h | h <;> simp [h]
  next c hc := (h.next c hc).2.2

theorem After.isOutside (h : After rest) : ∀ c ∈ rest.head?, isOutside c = true := by
  intro c hc
  rcases h.head c hc with rfl | rfl | rfl | rfl | rfl | rfl <;> decide

theorem After.ne_colon (h : After rest) : ∀ c ∈ rest.head?, c ≠ ':' := by
  intro c hc
  rcases h.head c hc with rfl | rfl | rfl | rfl | rfl | rfl <;> decide

/-- A name with its qualifier is read back, if no colon and name go on with a name that has none. -/
theorem reads_qualifiedName_of_end {q : QName} (hq : q.IsWritten)
    (houtside : ∀ c ∈ rest.head?, isOutside c = true)
    (hcolon : q.qualifier = none → ∀ c cs, rest = ':' :: c :: cs → isNameStart c = false) :
    Reads qualifiedName (q.text.toList ++ rest) q rest := by
  have hread {name : String} (hname : IsName name) :
      Reads nameText (name.toList ++ rest) name rest := reads_nameText hname houtside
  obtain ⟨qualifier, name⟩ := q
  obtain ⟨hname, hqualifier⟩ := hq
  cases qualifier with
  | none =>
    have hsecond : Fails (do tag ":"; nameText) rest := by
      by_cases hc : ':' ∈ rest.head?
      · obtain ⟨cs, rfl⟩ := List.head?_eq_some_iff.1 hc
        have hnext : ∀ c ∈ cs.head?, isNameStart c = false := by
          intro c hc
          obtain ⟨ds, rfl⟩ := List.head?_eq_some_iff.1 hc
          exact hcolon rfl c ds rfl
        exact (reads_tag (s := ":") rfl).bind_fails (fails_nameText hnext)
      · exact (fails_tag_of_head_ne rfl fun c hc' => by rintro rfl; exact hc hc').bind
    exact (hread hname).bind (hsecond.optional.bind reads_pure)
  | some qualifier =>
    have hinput : (QName.mk (some qualifier) name).text.toList ++ rest =
        qualifier.toList ++ ':' :: (name.toList ++ rest) := by simp [QName.text]
    have hfirst : Reads nameText (qualifier.toList ++ ':' :: (name.toList ++ rest)) qualifier
        (':' :: (name.toList ++ rest)) :=
      reads_nameText (hqualifier qualifier rfl) (by simp; decide)
    have hsecond : Reads (do tag ":"; nameText) (':' :: (name.toList ++ rest)) name rest :=
      (reads_tag rfl).bind (hread hname)
    rw [hinput]
    exact hfirst.bind (hsecond.optional.bind reads_pure)

theorem reads_qualifiedName {q : QName} (hq : q.IsWritten)
    (houtside : ∀ c ∈ rest.head?, isOutside c = true) (hcolon : ∀ c ∈ rest.head?, c ≠ ':') :
    Reads qualifiedName (q.text.toList ++ rest) q rest := by
  refine reads_qualifiedName_of_end hq houtside fun _ c cs hrest => ?_
  exact absurd rfl (hcolon ':' (by simp [hrest]))

/-- A written name starts with a letter or an underscore. -/
theorem exists_cons_of_isWritten {q : QName} (hq : q.IsWritten) :
    ∃ c cs, q.text.toList = c :: cs ∧ isNameStart c = true := by
  obtain ⟨qualifier, name⟩ := q
  cases qualifier with
  | none => exact exists_cons_of_isName hq.1
  | some qualifier =>
    obtain ⟨c, cs, hcs, hc⟩ := exists_cons_of_isName (hq.2 qualifier rfl)
    exact ⟨c, cs ++ ':' :: name.toList, by simp [QName.text, hcs], hc⟩

theorem startsAt_name {c : Char} (hc : isNameStart c = true) (k : Nat) (cs : List Char) :
    StartsAt k (c :: cs) := by
  refine ⟨c, cs, rfl, isTokenBlank_of_isNameStart hc, fun _ => ?_⟩
  rintro rfl
  revert hc
  decide

/-- A word that a text with a name at its front starts with is the beginning of the name. -/
theorem exists_suffix_of_word {name word : String} {rest' : List Char} (hname : IsName name)
    (houtside : ∀ c ∈ rest.head?, isOutside c = true) (hword : IsName word)
    (h : name.toList ++ rest = word.toList ++ rest') :
    ∃ cs, name.toList = word.toList ++ cs ∧ (∀ c ∈ cs, isOutside c = false) ∧
      rest' = cs ++ rest := by
  rcases List.append_eq_append_iff.1 h with ⟨cs, hcs, hcs'⟩ | ⟨cs, hcs, hcs'⟩
  · -- The word would go on behind the name.
    cases cs with
    | nil => exact ⟨[], by simpa using hcs.symm, by simp, by simpa using hcs'.symm⟩
    | cons c cs =>
      have hc := houtside c (by simp [hcs'])
      rw [not_isOutside_of_mem hword (by simp [hcs])] at hc
      simp at hc
  · exact ⟨cs, hcs, fun c hc => not_isOutside_of_mem hname (by simp [hcs, hc]), hcs'⟩

/-- Behind a word at the front of a name there is only what stands in a name or behind it. -/
theorem fails_token_of_word {name word s : String} {d : Char} {rest' : List Char}
    (hname : IsName name) (houtside : ∀ c ∈ rest.head?, isOutside c = true)
    (hs : s.toList.head? = some d) (hd : isOutside d = true)
    (hnext : ∀ c ∈ (skip rest).head?, c ≠ d) (hword : IsName word)
    (h : name.toList ++ rest = word.toList ++ rest') : Fails (token (tag s)) rest' := by
  obtain ⟨cs, -, hcs, rfl⟩ := exists_suffix_of_word hname houtside hword h
  refine Fails.token ?_
  cases cs with
  | nil => exact fails_tag_of_head_ne hs hnext
  | cons c cs =>
    have hc := hcs c (List.mem_cons_self ..)
    have hblank : Text.isTokenBlank c = false := by
      by_contra hb
      simp only [Text.isTokenBlank, Bool.not_eq_false, Bool.or_eq_true, beq_iff_eq] at hb
      rcases hb with ((rfl | rfl) | rfl) | rfl <;> revert hc <;> decide
    rw [List.cons_append, skip_eq_self (by simpa using hblank)]
    refine fails_tag_of_head hs ?_
    rintro rfl
    simp [hd] at hc

theorem fails_oneOf {α : Type} {words : List (String × α)}
    (h : ∀ w ∈ words, Fails (tag w.1) input) : Fails (oneOf words) input := by
  induction words with
  | nil => exact ⟨input, rfl⟩
  | cons w words ih =>
    exact (h w (List.mem_cons_self ..)).bind.orElse_fails
      (ih fun w hw => h w (List.mem_cons_of_mem _ hw))

theorem exists_word_of_reads_oneOf {α : Type} {words : List (String × α)} {a : α}
    (h : Reads (oneOf words) input a rest) : ∃ w ∈ words, input = w.1.toList ++ rest := by
  induction words with
  | nil => cases h
  | cons w words ih =>
    by_cases hw : w.1.toList <+: input
    · obtain ⟨cs, rfl⟩ := hw
      have hword : Reads (do tag w.1; pure w.2) (w.1.toList ++ cs) w.2 cs :=
        (reads_tag rfl).bind reads_pure
      have hread : Reads (oneOf (w :: words)) (w.1.toList ++ cs) w.2 cs := hword.orElse
      rw [Reads, hread, Except.ok.injEq, Prod.mk.injEq] at h
      exact ⟨w, List.mem_cons_self .., by rw [h.2]⟩
    · obtain ⟨at_, hat⟩ : Fails (do tag w.1; pure w.2) input := (fails_tag hw).bind
      have hrest : Reads (oneOf words) input a rest := by
        simpa only [Reads, oneOf, Parser.orElse, hat] using h
      obtain ⟨w', hw', hinput⟩ := ih hrest
      exact ⟨w', List.mem_cons_of_mem _ hw', hinput⟩

/-- A name is not read as one of some words with a sign behind it. -/
theorem fails_words_of_name {α β : Type} {words : List (String × α)} {q : α → Parser β}
    {name s : String} {d : Char} (hwords : ∀ w ∈ words, IsName w.1) (hname : IsName name)
    (houtside : ∀ c ∈ rest.head?, isOutside c = true) (hs : s.toList.head? = some d)
    (hd : isOutside d = true) (hnext : ∀ c ∈ (skip rest).head?, c ≠ d) :
    Fails (do let a ← oneOf words; token (tag s); q a) (name.toList ++ rest) := by
  cases ho : oneOf words (name.toList ++ rest) with
  | error at_ => exact Fails.bind ⟨at_, ho⟩
  | ok x =>
    have hread : Reads (oneOf words) (name.toList ++ rest) x.1 x.2 := ho
    obtain ⟨w, hw, hinput⟩ := exists_word_of_reads_oneOf hread
    have htoken : Fails (token (tag s)) x.2 :=
      fails_token_of_word hname houtside hs hd hnext (hwords w hw) hinput
    exact hread.bind_fails htoken.bind

theorem isOutside_bracket : isOutside '(' = true := by decide

theorem fails_nodeTypeTest_name {name : String} (hname : IsName name)
    (houtside : ∀ c ∈ rest.head?, isOutside c = true)
    (hnext : ∀ c ∈ (skip rest).head?, c ≠ '(') : Fails nodeTypeTest (name.toList ++ rest) := by
  refine Fails.orElse_fails ?_ ?_
  · by_cases hw : "processing-instruction".toList <+: name.toList ++ rest
    · obtain ⟨cs, hcs⟩ := hw
      have hword : IsName "processing-instruction" := rfl
      have hbracket : Fails (token (tag "(")) cs :=
        fails_token_of_word hname houtside rfl isOutside_bracket hnext hword hcs.symm
      exact (reads_tag hcs.symm).bind_fails hbracket.bind
    · exact (fails_tag hw).bind
  · refine fails_words_of_name ?_ hname houtside rfl isOutside_bracket hnext
    simp only [List.forall_mem_cons]
    exact ⟨rfl, rfl, rfl, rfl, by simp⟩

/-- A text is read up to the next quote of the same kind. -/
theorem reads_quotedBy {quote : String} {c : Char} {s : List Char} (hquote : quote.toList = [c])
    (hs : c ∉ s) (rest : List Char) :
    Reads (quotedBy quote c) (c :: (s ++ c :: rest)) (String.ofList s) rest := by
  have htake : Reads (takeWhile (· != c)) (s ++ c :: rest) s (c :: rest) := by
    have hstop : ∀ d ∈ (c :: rest).head?, (d != c) = false := by simp
    obtain ⟨htake, hdrop⟩ := takeWhile_append_of_head s hstop
    have hall : ∀ d ∈ s, (d != c) = true := by
      intro d hd
      rw [bne_iff_ne]
      rintro rfl
      exact hs hd
    rw [Reads, takeWhile, htake, hdrop, List.takeWhile_eq_self_iff.2 hall,
      List.dropWhile_eq_nil_iff.2 hall, List.nil_append]
  have hopen : Reads (tag quote) (c :: (s ++ c :: rest)) () (s ++ c :: rest) :=
    reads_tag (by simp [hquote])
  have hclose : Reads (tag quote) (c :: rest) () rest := reads_tag (by simp [hquote])
  exact hopen.bind (htake.bind (hclose.bind reads_pure))

theorem reads_quoted {s : String} (hs : IsQuotable s) (rest : List Char) :
    Reads stringLiteral (quoted s ++ rest) s rest := by
  have hread {quote : String} {c : Char} (hquote : quote.toList = [c]) (hc : c ∉ s.toList) :
      Reads (quotedBy quote c) (c :: (s.toList ++ c :: rest)) s rest := by
    simpa using reads_quotedBy hquote hc rest
  rw [quoted]
  split
  · next hsingle =>
    have hdouble : '"' ∉ s.toList := hs.resolve_left fun h => h hsingle
    have hinput : '"' :: (s.toList ++ ['"']) ++ rest = '"' :: (s.toList ++ '"' :: rest) := by simp
    rw [hinput]
    exact (fails_tag_of_head (d := '\'') rfl (by decide)).bind.orElse (hread rfl hdouble)
  · next hsingle =>
    have hinput : '\'' :: (s.toList ++ ['\'']) ++ rest = '\'' :: (s.toList ++ '\'' :: rest) := by
      simp
    rw [hinput]
    exact (hread rfl hsingle).orElse

/-! ## Node tests -/

theorem fails_star {name : String} (hname : IsName name) (cs : List Char) :
    Fails (do tag "*"; pure (NodeTest.name (.bare "*"))) (name.toList ++ cs) :=
  (fails_tag_name hname (d := '*') rfl (by decide)).bind

theorem isOutside_colon (cs : List Char) : ∀ c ∈ (':' :: cs).head?, isOutside c = true := by
  simp
  decide

theorem fails_nodeTypeTest_qualifier {name : String} (hname : IsName name) (cs : List Char) :
    Fails nodeTypeTest (name.toList ++ ':' :: cs) := by
  refine fails_nodeTypeTest_name hname (isOutside_colon cs) ?_
  rw [skip_eq_self (by simp [Text.isTokenBlank])]
  simp

theorem reads_nameTest {q : QName} (hq : q.IsWritten) (hrest : After rest) :
    Reads nodeTest (q.text.toList ++ rest) (.name q) rest := by
  have hread : Reads (do let q ← qualifiedName; pure (NodeTest.name q)) (q.text.toList ++ rest)
      (.name q) rest := (reads_qualifiedName hq hrest.isOutside hrest.ne_colon).bind reads_pure
  obtain ⟨qualifier, name⟩ := q
  cases qualifier with
  | none =>
    have hname : IsName name := hq.1
    have hwildcard : Fails (do let q ← nameText; tag ":*"; pure (NodeTest.name ⟨some q, "*"⟩))
        (name.toList ++ rest) :=
      (reads_nameText hname hrest.isOutside).bind_fails
        (fails_tag_of_head_ne rfl hrest.ne_colon).bind
    have htype := fails_nodeTypeTest_name hname hrest.isOutside hrest.next
    exact (fails_star hname _).orElse (htype.orElse (hwildcard.orElse hread))
  | some qualifier =>
    have hqualifier : IsName qualifier := hq.2 qualifier rfl
    have hinput : (QName.mk (some qualifier) name).text.toList ++ rest =
        qualifier.toList ++ ':' :: (name.toList ++ rest) := by simp [QName.text]
    rw [hinput] at hread ⊢
    have hstar : Fails (tag ":*") (':' :: (name.toList ++ rest)) := fails_tag fun hp => by
      obtain ⟨c, cs, hname, hc⟩ := exists_cons_of_isName hq.1
      rw [show ":*".toList = [':', '*'] from rfl, List.cons_prefix_cons, hname,
        List.cons_append, List.cons_prefix_cons] at hp
      rw [← hp.2.1] at hc
      revert hc
      decide
    have hwildcard : Fails (do let q ← nameText; tag ":*"; pure (NodeTest.name ⟨some q, "*"⟩))
        (qualifier.toList ++ ':' :: (name.toList ++ rest)) :=
      (reads_nameText hqualifier (isOutside_colon _)).bind_fails hstar.bind
    have htype := fails_nodeTypeTest_qualifier hqualifier (name.toList ++ rest)
    exact (fails_star hqualifier _).orElse (htype.orElse (hwildcard.orElse hread))

theorem reads_wildcardTest {qualifier : Option String} (hqualifier : ∀ q ∈ qualifier, IsName q)
    (rest : List Char) :
    Reads nodeTest ((QName.mk qualifier "*").text.toList ++ rest) (.name ⟨qualifier, "*"⟩)
      rest := by
  cases qualifier with
  | none =>
    have hread : Reads (do tag "*"; pure (NodeTest.name (.bare "*"))) ('*' :: rest)
        (.name ⟨none, "*"⟩) rest := (reads_tag rfl).bind reads_pure
    exact hread.orElse
  | some qualifier =>
    have hname : IsName qualifier := hqualifier qualifier rfl
    have hinput : (QName.mk (some qualifier) "*").text.toList ++ rest =
        qualifier.toList ++ ':' :: '*' :: rest := by simp [QName.text]
    have hread : Reads (do let q ← nameText; tag ":*"; pure (NodeTest.name ⟨some q, "*"⟩))
        (qualifier.toList ++ ':' :: '*' :: rest) (.name ⟨some qualifier, "*"⟩) rest :=
      (reads_nameText hname (isOutside_colon _)).bind ((reads_tag rfl).bind reads_pure)
    rw [hinput]
    exact (fails_star hname _).orElse
      ((fails_nodeTypeTest_qualifier hname ('*' :: rest)).orElse hread.orElse)

theorem reads_openBracket (cs : List Char) :
    Reads (token (tag "(")) ('(' :: cs) () (skip cs) := Reads.token (reads_tag rfl)

theorem reads_closeBracket (cs : List Char) :
    Reads (token (tag ")")) (')' :: cs) () (skip cs) := Reads.token (reads_tag rfl)

theorem reads_typeTest (t : NodeType) (rest : List Char) :
    Reads nodeTest (t.word.toList ++ '(' :: ')' :: rest) (.type t) rest := by
  have hword : Reads (oneOf [("text", NodeType.text), ("node", .node), ("comment", .comment),
      ("processing-instruction", .instruction)]) (t.word.toList ++ '(' :: ')' :: rest) t
      ('(' :: ')' :: rest) := by
    cases t <;> with_unfolding_all rfl
  have htarget : Fails (do
      tag "processing-instruction"
      token (tag "(")
      let target ← stringLiteral
      token (tag ")")
      pure (NodeTest.target target)) (t.word.toList ++ '(' :: ')' :: rest) := by
    cases t with
    | instruction =>
      have hquote : Fails stringLiteral (')' :: rest) :=
        (fails_tag_of_head (d := '\'') rfl (by decide)).bind.orElse_fails
          (fails_tag_of_head (d := '"') rfl (by decide)).bind
      exact (reads_tag rfl).bind_fails ((reads_openBracket (')' :: rest)).bind_fails hquote.bind)
    | _ => exact (fails_tag_of_head (d := 'p') rfl (by decide)).bind
  have hstar : Fails (tag "*") (t.word.toList ++ '(' :: ')' :: rest) := by
    cases t <;> exact fails_tag_of_head (d := '*') rfl (by decide)
  have hread : Reads nodeTypeTest (t.word.toList ++ '(' :: ')' :: rest) (.type t) rest :=
    htarget.orElse (hword.bind ((reads_openBracket (')' :: rest)).bind
      ((reads_tag rfl).bind reads_pure)))
  exact hstar.bind.orElse hread.orElse

theorem reads_targetTest {s : String} (hs : IsQuotable s) (rest : List Char) :
    Reads nodeTest ("processing-instruction".toList ++ '(' :: (quoted s ++ ')' :: rest))
      (.target s) (skip rest) := by
  have hquoted : skip (quoted s ++ ')' :: rest) = quoted s ++ ')' :: rest := by
    rw [quoted]
    split <;> rfl
  have hopen := reads_openBracket (quoted s ++ ')' :: rest)
  rw [hquoted] at hopen
  have hread : Reads nodeTypeTest ("processing-instruction".toList ++
      '(' :: (quoted s ++ ')' :: rest)) (.target s) (skip rest) :=
    Reads.orElse ((reads_tag rfl).bind (hopen.bind ((reads_quoted hs _).bind
      ((reads_closeBracket rest).bind reads_pure))))
  exact (fails_tag_of_head (d := '*') rfl (by decide)).bind.orElse hread.orElse

/-- **A node test is read back**; a target takes the blanks behind it with it. -/
theorem reads_testText {t : NodeTest} (ht : t.WellFormed) (hrest : After rest) :
    ∃ mid, Reads nodeTest (t.text ++ rest) t mid ∧ skip mid = skip rest := by
  cases t with
  | name q =>
    rcases ht with hq | ⟨hname, hqualifier⟩
    · exact ⟨rest, reads_nameTest hq hrest, rfl⟩
    · obtain ⟨qualifier, name⟩ := q
      obtain rfl : name = "*" := hname
      exact ⟨rest, reads_wildcardTest hqualifier rest, rfl⟩
  | type t =>
    refine ⟨rest, ?_, rfl⟩
    simpa [NodeTest.text] using reads_typeTest t rest
  | target s =>
    refine ⟨skip rest, ?_, skip_skip⟩
    simpa [NodeTest.text, NodeType.word] using reads_targetTest ht rest

/-! ## Steps -/

theorem isName_axis (a : Axis) : IsName a.text := by cases a <;> rfl

theorem fails_axis_name {name : String} (hname : IsName name)
    (houtside : ∀ c ∈ rest.head?, isOutside c = true)
    (hnext : ∀ c ∈ (skip rest).head?, c ≠ ':') : Fails axis (name.toList ++ rest) := by
  refine fails_words_of_name (fun w hw => ?_) hname houtside rfl (by decide) hnext
  obtain ⟨a, -, rfl⟩ := List.mem_map.1 hw
  exact isName_axis a

theorem reads_axis (a : Axis) (cs : List Char) :
    Reads axis (a.text.toList ++ ':' :: ':' :: cs) a (skip cs) := by
  have hname : Reads (oneOf axisNames) (a.text.toList ++ ':' :: ':' :: cs) a
      (':' :: ':' :: cs) := by cases a <;> with_unfolding_all rfl
  have hcolons : Reads (token (tag "::")) (':' :: ':' :: cs) () (skip cs) :=
    Reads.token (reads_tag rfl)
  exact hname.bind (hcolons.bind reads_pure)

theorem skip_name {name : String} (h : IsName name) (cs : List Char) :
    skip (name.toList ++ cs) = name.toList ++ cs :=
  skip_eq_self (name_not_blank h)

theorem skip_testText {t : NodeTest} (ht : t.WellFormed) (cs : List Char) :
    skip (t.text ++ cs) = t.text ++ cs := by
  cases t with
  | name q =>
    obtain ⟨qualifier, name⟩ := q
    rcases ht with hq | ⟨rfl, hqualifier⟩
    · cases qualifier with
      | none => exact skip_name hq.1 cs
      | some qualifier =>
        have hname := hq.2 qualifier rfl
        simpa [NodeTest.text, QName.text] using skip_name hname (':' :: (name.toList ++ cs))
    · cases qualifier with
      | none => rfl
      | some qualifier =>
        have hname := hqualifier qualifier rfl
        simpa [NodeTest.text, QName.text] using skip_name hname (':' :: '*' :: cs)
  | type t => cases t <;> rfl
  | target s => rfl

theorem reads_stepHeadText {a : Axis} {t : NodeTest} (ht : t.WellFormed) (hrest : After rest) :
    Reads (token stepHead) (a.text.toList ++ ':' :: ':' :: (t.text ++ rest)) (a, t)
      (skip rest) := by
  obtain ⟨mid, hread, hmid⟩ := reads_testText ht hrest
  rw [← skip_testText ht rest] at hread
  have hfails {s : String} {d : Char} (hs : s.toList.head? = some d)
      (hd : isNameStart d = false) :
      Fails (tag s) (a.text.toList ++ ':' :: ':' :: (t.text ++ rest)) :=
    fails_tag_name (isName_axis a) hs hd
  have hhead : Reads stepHead (a.text.toList ++ ':' :: ':' :: (t.text ++ rest)) (a, t) mid := by
    have hlong : Reads (do let a ← optional axis; let t ← nodeTest; pure (a.getD Axis.child, t))
        (a.text.toList ++ ':' :: ':' :: (t.text ++ rest)) (a, t) mid :=
      (reads_axis a _).optional.bind (hread.bind reads_pure)
    exact (hfails (d := '.') rfl (by decide)).bind.orElse
      ((hfails (d := '.') rfl (by decide)).bind.orElse
        ((hfails (d := '@') rfl (by decide)).bind.orElse hlong))
  rw [← hmid]
  exact Reads.token (by rwa [skip_name (isName_axis a)])
/-! ## Numbers -/

theorem takeWhile_digits {ds cs : List Char} (hds : ∀ c ∈ ds, c.isDigit = true)
    (hcs : ∀ c ∈ cs.head?, c.isDigit = false) :
    (ds ++ cs).takeWhile Char.isDigit = ds ∧ (ds ++ cs).dropWhile Char.isDigit = cs := by
  obtain ⟨htake, hdrop⟩ := takeWhile_append_of_head ds hcs
  rw [htake, hdrop, List.takeWhile_eq_self_iff.2 hds, List.dropWhile_eq_nil_iff.2 hds]
  exact ⟨rfl, rfl⟩

theorem read?_whole {ds : List Char} (hds : ∀ d ∈ ds, d.isDigit = true) (hne : ds ≠ [])
    (hrest : ∀ d ∈ rest.head?, d.isDigit = false ∧ d ≠ '.') :
    Number.Literal.read? (ds ++ rest) = some (⟨ds, []⟩, rest) := by
  obtain ⟨htake, hdrop⟩ := takeWhile_digits hds fun d hd => (hrest d hd).1
  obtain ⟨d, ds, rfl⟩ := List.exists_cons_of_ne_nil hne
  rw [Number.Literal.read?, htake, hdrop]
  cases rest with
  | nil => rfl
  | cons e es =>
    have he := (hrest e rfl).2
    split
    · next heq _ => cases heq
    · next heq _ => cases heq
    · next heq => exact absurd (List.cons.inj heq).1 he
    · rfl

theorem read?_decimal {ds fs : List Char} (hds : ∀ d ∈ ds, d.isDigit = true) (hne : ds ≠ [])
    (hfs : ∀ d ∈ fs, d.isDigit = true) (hrest : ∀ d ∈ rest.head?, d.isDigit = false) :
    Number.Literal.read? (ds ++ '.' :: (fs ++ rest)) =
      some (if rest = [] then ⟨ds, []⟩ else ⟨ds, fs⟩, rest) := by
  have hpoint : ∀ d ∈ ('.' :: (fs ++ rest)).head?, d.isDigit = false := by simp
  obtain ⟨htake, hdrop⟩ := takeWhile_digits hds hpoint
  obtain ⟨htake', hdrop'⟩ := takeWhile_digits hfs hrest
  obtain ⟨d, ds, rfl⟩ := List.exists_cons_of_ne_nil hne
  rw [Number.Literal.read?, htake, hdrop]
  simp only [hdrop', htake']
  cases rest <;> simp

theorem read?_fraction {fs : List Char} (hfs : ∀ d ∈ fs, d.isDigit = true) (hne : fs ≠ [])
    (hrest : ∀ d ∈ rest.head?, d.isDigit = false) :
    Number.Literal.read? ('.' :: (fs ++ rest)) = some (⟨[], fs⟩, rest) := by
  obtain ⟨htake, hdrop⟩ := takeWhile_digits hfs hrest
  rw [Number.Literal.read?]
  simp [htake, hdrop, hne]

/-- In front of what cannot go on with it, a literal is read as a whole. -/
theorem read?_of_isWrittenAs {l : Number.Literal} {u : List Char} (h : l.IsWrittenAs u)
    (hrest : ∀ c ∈ rest.head?, c.isDigit = false ∧ c ≠ '.') :
    Number.Literal.read? (u ++ rest) = some (if rest = [] then l.atEnd else l, rest) := by
  have hstop : ∀ c ∈ rest.head?, c.isDigit = false := fun c hc => (hrest c hc).1
  obtain ⟨hl, hu⟩ := Number.Literal.isWrittenAs_iff.1 h
  have hwhole := hl.whole
  have hfraction := hl.fraction
  have hne := hl.2
  obtain ⟨whole, fraction⟩ := l
  rcases hu with ⟨hnil, rfl⟩ | rfl
  · obtain rfl : fraction = [] := hnil
    rw [read?_whole hwhole (by simpa using hne) hrest,
      Number.Literal.atEnd_eq_self (.inr rfl), ite_self]
  · rw [List.append_assoc, List.cons_append]
    rcases eq_or_ne whole [] with rfl | hsome
    · rw [List.nil_append, read?_fraction hfraction (by simpa using hne) hstop,
        Number.Literal.atEnd_eq_self (.inl rfl), ite_self]
    · rw [read?_decimal hwhole hsome hfraction hstop]
      simp [Number.Literal.atEnd, hsome]

theorem reads_numberLiteral_of {cs : List Char} {lit : Number.Literal}
    (h : Number.Literal.read? cs = some (lit, rest)) : Reads numberLiteral cs lit.value rest := by
  rw [Reads, numberLiteral, h]

/-- **A number is read back**, but for its fraction at the end of the text. -/
theorem reads_numberText {l : Number.Literal} (hl : l.IsProper)
    (hrest : ∀ c ∈ rest.head?, c.isDigit = false ∧ c ≠ '.') :
    Reads numberLiteral (l.text ++ rest) (if rest = [] then l.atEnd else l).value rest :=
  reads_numberLiteral_of (read?_of_isWrittenAs ⟨hl, .inl rfl⟩ hrest)

end PathQuery.Grammar
