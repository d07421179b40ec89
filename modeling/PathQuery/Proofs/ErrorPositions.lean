import PathQuery.Proofs.Nesting

/-!
# Where reading stops

A syntax error gives a number of bytes. It is the number of bytes of a text that the expression
starts with, so the words for the place quote exactly the text that was read.

* names: `Rule`: the rules of the grammar; `Repeated`: what they repeat; `PlacedBehind`: where an
  error is placed.
* **`Rule.within`**, **`Repeated.advances`**: one case for each rule.
* **`parse_goes_forward`**: no rule leaves the text it was given, no repetition stands still, the
  bound on the nesting decides nothing, and an error is placed between two characters.
-/

open PathQuery.Parser

namespace PathQuery

namespace Grammar

/-! ## Rules and repetitions -/

/-- The rules of the grammar, around a parser of nested expressions. -/
inductive Rule (nested : Parser Expr) : {α : Type} → Parser α → Prop
  | nameText : Rule nested nameText
  | qualifiedName : Rule nested qualifiedName
  | keyword (word : String) : Rule nested (keyword word)
  | numberLiteral : Rule nested numberLiteral
  | stringLiteral : Rule nested stringLiteral
  | nodeTypeTest : Rule nested nodeTypeTest
  | nodeTest : Rule nested nodeTest
  | axis : Rule nested axis
  | predicate : Rule nested (predicate nested)
  | stepHead : Rule nested stepHead
  | step : Rule nested (step nested)
  | furtherStep : Rule nested (furtherStep nested)
  | furtherSteps : Rule nested (furtherSteps nested)
  | locationPath : Rule nested (locationPath nested)
  | variableReference : Rule nested variableReference
  | functionCall : Rule nested (functionCall nested)
  | bracketed : Rule nested (bracketed nested)
  | primary : Rule nested (primary nested)
  | filtered : Rule nested (filtered nested)
  | operators (k : Nat) : Rule nested (operators k)
  | level (k : Nat) : Rule nested (rule nested k)
  | expression : Rule nested (token (orExpr nested))

/-- What the rules repeat: predicates, further steps, minus signs, operators of a level with their
operands, and the arguments of a call. -/
inductive Repeated (nested : Parser Expr) : {α : Type} → Parser α → Prop
  | predicate : Repeated nested (predicate nested)
  | furtherStep : Repeated nested (furtherStep nested)
  | minus : Repeated nested (token (tag "-"))
  | link (k : Nat) : Repeated nested (link nested k)
  | argument : Repeated nested nested
  | furtherArgument : Repeated nested (do tag ","; nested)

variable {α : Type} {nested : Parser Expr} {p : Parser α}

theorem Rule.within (hr : Rule nested p) (h : Within nested) : Within p := by
  cases hr with
  | nameText => exact advances_nameText.toWithin
  | qualifiedName => exact advances_qualifiedName.toWithin
  | keyword word => exact (within_tag word).bind fun _ => within_notFollowed
  | numberLiteral => exact advances_numberLiteral.toWithin
  | stringLiteral => exact advances_stringLiteral.toWithin
  | nodeTypeTest => exact advances_nodeTypeTest.toWithin
  | nodeTest => exact advances_nodeTest.toWithin
  | axis => exact advances_axis.toWithin
  | predicate => exact (advances_predicate h).toWithin
  | stepHead => exact advances_stepHead.toWithin
  | step => exact (advances_step h).toWithin
  | furtherStep => exact (advances_furtherStep h).toWithin
  | furtherSteps => exact within_furtherSteps h
  | locationPath => exact (advances_locationPath h).toWithin
  | variableReference => exact advances_variableReference.toWithin
  | functionCall => exact (advances_functionCall h).toWithin
  | bracketed => exact (advances_bracketed h).toWithin
  | primary => exact (advances_primary h).toWithin
  | filtered => exact (advances_filtered h).toWithin
  | operators k => exact (advances_operators k).toWithin
  | level k => exact (advances_rule h k).toWithin
  | expression => exact (advances_rule h 1).token.toWithin

theorem Repeated.advances (hr : Repeated nested p) (h : Advances nested) : Advances p := by
  cases hr with
  | predicate => exact advances_predicate h.toWithin
  | furtherStep => exact advances_furtherStep h.toWithin
  | minus => exact advances_minus
  | link k =>
    exact (advances_operators k).token.bind fun _ =>
      (advances_rule h.toWithin (k + 1)).toWithin.bind fun _ => within_pure _
  | argument => exact h
  | furtherArgument => exact (within_tag ",").bind_advances fun _ => h

/-! ## Bytes -/

theorem byteCount_cons (c : Char) (cs : List Char) :
    byteCount (c :: cs) = c.utf8Size + byteCount cs := rfl

theorem byteCount_append (cs ds : List Char) :
    byteCount (cs ++ ds) = byteCount cs + byteCount ds := by
  induction cs with
  | nil => simp [byteCount]
  | cons c cs ih => rw [List.cons_append, byteCount_cons, byteCount_cons, ih, Nat.add_assoc]

theorem utf8ByteSize_ofList (cs : List Char) : (String.ofList cs).utf8ByteSize = byteCount cs := by
  induction cs with
  | nil => rfl
  | cons c cs ih =>
    rw [String.ofList_cons, String.utf8ByteSize_append, String.utf8ByteSize_singleton, ih,
      byteCount_cons]

/-- A text is what fills its bytes. -/
theorem bytesBefore_byteCount (before after : List Char) :
    SyntaxError.bytesBefore (byteCount before) (before ++ after) = some before := by
  induction before with
  | nil =>
    show SyntaxError.bytesBefore 0 _ = _
    rw [SyntaxError.bytesBefore]
  | cons c before ih =>
    obtain ⟨n, hn⟩ := Nat.exists_eq_add_of_le' (Nat.succ_le_of_lt c.utf8Size_pos)
    have hcount : byteCount (c :: before) = n + byteCount before + 1 := by
      rw [byteCount_cons, hn]
      omega
    rw [hcount, List.cons_append, SyntaxError.bytesBefore, if_pos (by omega),
      show n + byteCount before + 1 - c.utf8Size = byteCount before by omega, ih]
    rfl

/-! ## Errors -/

/-- An error is placed behind a text with which the expression starts. -/
structure PlacedBehind (e : SyntaxError) (before after : String) : Prop where
  source : e.source = before ++ after
  position : e.position = before.utf8ByteSize

/-- The place of a failure in what was read from a text lies behind a part of the text. -/
theorem placedBehind_of_suffix {source rest : List Char} (fault : SyntaxFault)
    (h : rest <:+ source) :
    ∃ before, PlacedBehind ⟨String.ofList source, fault, byteCount source - byteCount rest⟩ before
      (String.ofList rest) := by
  obtain ⟨before, rfl⟩ := h
  refine ⟨String.ofList before, String.ofList_append, ?_⟩
  rw [utf8ByteSize_ofList, byteCount_append, Nat.add_sub_cancel]

theorem placedBehind_of_parse {s : String} {e : SyntaxError} (h : parse s = .error e) :
    e.source = String.ofList (Text.trimEnd s.toList) ∧
      ∃ before after, PlacedBehind e before after := by
  have hwithin := (advances_expression ((Text.trimEnd s.toList).length + 1)).toWithin
  rw [parse] at h
  dsimp only at h
  split at h
  · cases h
  · next hread =>
    obtain rfl := Except.error.inj h
    obtain ⟨before, hbefore⟩ := placedBehind_of_suffix _ (hwithin.reads hread)
    exact ⟨rfl, before, _, hbefore⟩
  · next hread =>
    obtain rfl := Except.error.inj h
    obtain ⟨before, hbefore⟩ := placedBehind_of_suffix _ (hwithin.fails hread)
    exact ⟨rfl, before, _, hbefore⟩

namespace PlacedBehind

variable {e : SyntaxError} {before after : String} (h : PlacedBehind e before after)

include h

theorem position_le : e.position ≤ e.source.utf8ByteSize := by
  rw [h.position, h.source, String.utf8ByteSize_append]
  exact Nat.le_add_right _ _

theorem bytesBefore_eq :
    SyntaxError.bytesBefore e.position e.source.toList = some before.toList := by
  have hbytes : e.position = byteCount before.toList := by
    rw [h.position, ← utf8ByteSize_ofList, String.ofList_toList]
  rw [hbytes, h.source, String.toList_append, bytesBefore_byteCount]

/-- **The words for the place quote what was read**, if there is something before and after it. -/
theorem place_eq : e.place =
    if before = "" then "at the beginning of the expression"
    else if after = "" then "- expression incomplete"
    else s!"after: '{before}'" := by
  have hzero {t : String} : t.utf8ByteSize = 0 ↔ t = "" := String.utf8ByteSize_eq_zero_iff
  have hbegin : e.position = 0 ↔ before = "" := by rw [h.position, hzero]
  have hend : e.source.utf8ByteSize ≤ e.position ↔ after = "" := by
    rw [h.position, h.source, String.utf8ByteSize_append, ← hzero]
    omega
  simp only [SyntaxError.place, h.bytesBefore_eq, hbegin, hend, Option.map_some,
    String.ofList_toList, Option.getD_some]

end PlacedBehind

/-- **The parser goes forward and says where it stopped.** Every rule leaves, or fails at, a suffix
of the text it was given. What is repeated reads a character at least, so that no repetition fails;
nested expressions are read from shorter texts, so that any depth beyond the length of the text
gives the same. The place of a syntax error is the number of bytes of a text with which the
expression, blanks after it ignored, starts: it lies between two characters, and the words for it
quote just this text. -/
theorem parse_goes_forward :
    (∀ (depth : Nat) {α : Type} (p : Parser α), Rule (expression depth) p → Within p) ∧
    (∀ (depth : Nat) {α : Type} (p : Parser α), Repeated (expression depth) p →
      Advances p ∧ ∀ input, ∃ as rest, Reads (many p) input as rest ∧ rest <:+ input) ∧
    (∀ (input : List Char) (depth : Nat), input.length < depth →
      expression depth input = expression (input.length + 1) input) ∧
    ∀ (s : String) (e : SyntaxError), parse s = .error e →
      e.source = String.ofList (Text.trimEnd s.toList) ∧ e.position ≤ e.source.utf8ByteSize ∧
      ∃ before after, e.source = before ++ after ∧ e.position = before.utf8ByteSize ∧
        SyntaxError.bytesBefore e.position e.source.toList = some before.toList ∧
        e.place =
          if before = "" then "at the beginning of the expression"
          else if after = "" then "- expression incomplete"
          else s!"after: '{before}'" := by
  refine ⟨fun depth α p hr => hr.within (advances_expression depth).toWithin,
    fun depth α p hr => ?_, fun input depth h => expression_eq_of_lt h (Nat.lt_succ_self _),
    fun s e h => ?_⟩
  · have hadvances := hr.advances (advances_expression depth)
    exact ⟨hadvances, hadvances.reads_many⟩
  · obtain ⟨hsource, before, after, hplaced⟩ := placedBehind_of_parse h
    exact ⟨hsource, hplaced.position_le, before, after, hplaced.source, hplaced.position,
      hplaced.bytesBefore_eq, hplaced.place_eq⟩

/-- A bracket that is not closed is reported behind the text in front of it. -/
theorem parse_goes_forward_unclosed :
    parse "foo[1" = .error ⟨"foo[1", .unexpected '[', 3⟩ ∧
      ∃ before after, "foo[1" = before ++ after ∧ 3 = before.utf8ByteSize ∧
        SyntaxError.bytesBefore 3 "foo[1".toList = some before.toList ∧
        SyntaxError.place ⟨"foo[1", .unexpected '[', 3⟩ =
          if before = "" then "at the beginning of the expression"
          else if after = "" then "- expression incomplete"
          else s!"after: '{before}'" := by
  have hparse : parse "foo[1" = .error ⟨"foo[1", .unexpected '[', 3⟩ := by with_unfolding_all rfl
  exact ⟨hparse, (parse_goes_forward.2.2.2 _ _ hparse).2.2⟩

end Grammar

end PathQuery
