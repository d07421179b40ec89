import PathQuery.Proofs.Nesting
import PathQuery.Proofs.SpacedWords

/-!
# Blanks between the words of an expression

The rules skip blanks each for itself, around signs, operators, steps and primary expressions. Taken
together they skip all blanks between words but one: the node test behind the sign of attributes has
to follow at once. Every rule is run on a text and on the same text with blanks inserted elsewhere.

* A rule begins at a lexeme or at blanks in front of one, and ends so, or where a shorter word was
  read off the front of a lexeme: there no rule goes on.
* **`paired_rule`**, **`paired_expression`**: every rule has the same outcome on both texts.
* **`parse_spaced`**: blanks between the words of an expression do not matter.
  **`not_parse_of_spaced`**: the blank behind the sign of attributes does.
-/

open PathQuery.Parser

namespace PathQuery.Grammar

variable {s t : List Char}

theorem paired_blanks_sup : Paired (Slack ⊔ Stuck) (Tight ⊔ Stuck) blanks :=
  (paired_blanks.weaken le_sup_left).sup (paired_blanks_stuck.weaken le_sup_right)

theorem fails_tag_of_stuck {w : String} {d : Char} (hw : w.toList.head? = some d)
    (hd : d.isDigit = false ∧ d ≠ ':') (h : Stuck s t) : Fails (tag w) s ∧ Fails (tag w) t := by
  obtain ⟨c, s', t', rfl, rfl, hc⟩ := h
  have hne : c ≠ d := by
    rintro rfl
    rcases hc with hc | hc
    · simp [hd.1] at hc
    · exact hd.2 hc
  exact ⟨fails_tag_of_head hw hne, fails_tag_of_head hw hne⟩

theorem paired_tag_sup {w : String} {d : Char} (h : Paired Tight Slack (tag w))
    (hw : w.toList.head? = some d) (hd : d.isDigit = false ∧ d ≠ ':') :
    Paired (Tight ⊔ Stuck) Slack (tag w) :=
  h.sup (paired_of_fails fun _ _ => fails_tag_of_stuck hw hd)

theorem paired_token_sup {w : String} {d : Char} (h : Paired Tight Slack (tag w))
    (hw : w.toList.head? = some d) (hd : d.isDigit = false ∧ d ≠ ':') :
    Paired (Slack ⊔ Stuck) Tight (token (tag w)) :=
  (paired_tag_sup h hw hd).token paired_blanks_sup paired_blanks

/-! ## Operators -/

theorem paired_operators (k : Nat) : Paired Tight (Slack ⊔ Colon) (operators k) := by
  have hword {w : String} (op : BinaryOp) (hw : IsName w) :
      Paired Tight (Slack ⊔ Colon) (do keyword w; pure op) := (paired_keyword hw).map _
  have hsign {w : String} {c : Char} (op : BinaryOp) (hw : w.toList = [c])
      (hc : isPlain c = true) : Paired Tight (Slack ⊔ Colon) (do tag w; pure op) :=
    ((paired_sign hw hc).weaken le_sup_left).map _
  have hdouble {w : String} {c d : Char} (op : BinaryOp) (hw : w.toList = [c, d])
      (hcd : [c, d] ∈ doubleSigns) : Paired Tight (Slack ⊔ Colon) (do tag w; pure op) :=
    ((paired_doubleSign hw hcd).weaken le_sup_left).map _
  unfold operators
  split
  · exact hword .or rfl
  · exact hword .and rfl
  · exact (hsign .equal rfl (by decide)).orElse (hdouble .notEqual rfl (by decide)).refused
  · have hless : Paired (Refused Tight (tag "<=")) (Slack ⊔ Colon)
        (do tag "<"; pure BinaryOp.less) :=
      ((paired_halfSign rfl (by decide) (by decide) rfl).weaken
        (parted_le_slack.trans le_sup_left)).map _
    have hgreater : Paired (Refused Tight (tag ">=")) (Slack ⊔ Colon)
        (do tag ">"; pure BinaryOp.greater) :=
      ((paired_halfSign rfl (by decide) (by decide) rfl).weaken
        (parted_le_slack.trans le_sup_left)).map _
    refine (hdouble .lessEqual rfl (by decide)).orElse ?_
    refine (hdouble .greaterEqual rfl (by decide)).refused.orElse ?_
    exact (hless.strengthen fun _ _ h => Refused.of_map _ _ h.1).orElse
      (hgreater.strengthen fun _ _ h => Refused.of_map _ _ ⟨h.1.1.1, h.1.2⟩)
  · exact (hsign .add rfl (by decide)).orElse (hsign .subtract rfl (by decide)).refused
  · exact (hsign .multiply rfl (by decide)).orElse <| Paired.refused <|
      (hword (w := "div") .divide rfl).orElse (hword (w := "mod") .modulo rfl).refused
  · exact hsign .union rfl (by decide)
  · exact paired_fail

theorem fails_operators_of_stuck (k : Nat) (h : Stuck s t) :
    Fails (operators k) s ∧ Fails (operators k) t := by
  have hsign {w : String} {d : Char} (op : BinaryOp) (hw : w.toList.head? = some d)
      (hd : d.isDigit = false ∧ d ≠ ':') :
      Fails (do tag w; pure op) s ∧ Fails (do tag w; pure op) t :=
    (fails_tag_of_stuck hw hd h).imp Fails.bind Fails.bind
  have hword {w : String} {d : Char} (op : BinaryOp) (hw : w.toList.head? = some d)
      (hd : d.isDigit = false ∧ d ≠ ':') :
      Fails (do keyword w; pure op) s ∧ Fails (do keyword w; pure op) t :=
    (fails_tag_of_stuck hw hd h).imp (fun h => Fails.bind h.bind) fun h => Fails.bind h.bind
  have horElse {p q : Parser BinaryOp} (hp : Fails p s ∧ Fails p t) (hq : Fails q s ∧ Fails q t) :
      Fails (orElse p q) s ∧ Fails (orElse p q) t :=
    ⟨hp.1.orElse_fails hq.1, hp.2.orElse_fails hq.2⟩
  unfold operators
  split
  · exact hword (d := 'o') .or rfl (by decide)
  · exact hword (d := 'a') .and rfl (by decide)
  · exact horElse (hsign (d := '=') .equal rfl (by decide))
      (hsign (d := '!') .notEqual rfl (by decide))
  · exact horElse (hsign (d := '<') .lessEqual rfl (by decide)) <|
      horElse (hsign (d := '>') .greaterEqual rfl (by decide)) <|
      horElse (hsign (d := '<') .less rfl (by decide)) (hsign (d := '>') .greater rfl (by decide))
  · exact horElse (hsign (d := '+') .add rfl (by decide))
      (hsign (d := '-') .subtract rfl (by decide))
  · exact horElse (hsign (d := '*') .multiply rfl (by decide)) <|
      horElse (hword (d := 'd') .divide rfl (by decide))
        (hword (d := 'm') .modulo rfl (by decide))
  · exact hsign (d := '|') .union rfl (by decide)
  · exact ⟨⟨s, rfl⟩, ⟨t, rfl⟩⟩

/-- An operator takes the blanks around it; a colon may follow a word. -/
theorem paired_token_operators (k : Nat) :
    Paired (Slack ⊔ Stuck) (Tight ⊔ Colon) (token (operators k)) := by
  have hstuck : Paired Stuck (Slack ⊔ Colon) (operators k) :=
    paired_of_fails fun _ _ => fails_operators_of_stuck k
  have hbehind : Paired (Slack ⊔ Colon) (Tight ⊔ Colon) blanks :=
    (paired_blanks.weaken le_sup_left).sup (paired_blanks_colon.weaken le_sup_right)
  exact ((paired_operators k).sup hstuck).token paired_blanks_sup hbehind

/-! ## Rules at a colon -/

section Colon

variable {nested : Parser Expr} {cs : List Char}

theorem fails_tag_of_colon {w : String} {d : Char} (hw : w.toList.head? = some d) (hd : ':' ≠ d) :
    Fails (tag w) (':' :: cs) := fails_tag_of_head hw hd

theorem fails_word_of_colon {w : String} (hw : IsName w) : Fails (tag w) (':' :: cs) :=
  fails_tag_of_not_isNameStart hw (by simp; decide)

theorem fails_nodeTest_of_colon : Fails nodeTest (':' :: cs) := by
  have hname : Fails nameText (':' :: cs) := fails_nameText (by simp; decide)
  have hwords : Fails (oneOf [("text", NodeType.text), ("node", .node), ("comment", .comment),
      ("processing-instruction", .instruction)]) (':' :: cs) := by
    refine fails_oneOf ?_
    simp only [List.forall_mem_cons]
    exact ⟨fails_word_of_colon rfl, fails_word_of_colon rfl, fails_word_of_colon rfl,
      fails_word_of_colon rfl, by simp⟩
  have htype : Fails nodeTypeTest (':' :: cs) :=
    (fails_word_of_colon (w := "processing-instruction") rfl).bind.orElse_fails hwords.bind
  exact (fails_tag_of_colon (d := '*') rfl (by decide)).bind.orElse_fails <|
    htype.orElse_fails <| hname.bind.orElse_fails (Fails.bind hname.bind)

theorem fails_step_of_colon : Fails (step nested) (':' :: cs) := by
  have haxis : Fails axis (':' :: cs) := by
    refine (fails_oneOf fun w hw => ?_).bind
    obtain ⟨a, -, rfl⟩ := List.mem_map.1 hw
    exact fails_word_of_colon (isName_axis a)
  have hpoint {w : String} (hw : w.toList.head? = some '.') : Fails (tag w) (':' :: cs) :=
    fails_tag_of_colon hw (by decide)
  have hhead : Fails stepHead (':' :: cs) :=
    (hpoint rfl).bind.orElse_fails <| (hpoint rfl).bind.orElse_fails <|
    (fails_tag_of_colon (d := '@') rfl (by decide)).bind.orElse_fails <|
    haxis.optional.bind_fails fails_nodeTest_of_colon.bind
  exact (Fails.token hhead).bind

/-- No operand starts with a colon. -/
theorem fails_pathExpr_of_colon : Fails (pathExpr nested) (':' :: cs) := by
  have hslash {w : String} (hw : w.toList.head? = some '/') : Fails (tag w) (':' :: cs) :=
    fails_tag_of_colon hw (by decide)
  have hcall : Fails (functionCall nested) (':' :: cs) :=
    fails_functionCall_of_head (by simp; decide)
  have hprimary : Fails (primary nested) (':' :: cs) :=
    fails_primary_of_front (by rintro c ⟨⟩; rfl)
      (hcall.orElse_fails (fails_tag_of_colon (d := '(') rfl (by decide)).bind)
  have hlocation : Fails (locationPath nested) (':' :: cs) :=
    (hslash rfl).optional.bind_fails ((hslash rfl).optional.bind_fails fails_step_of_colon.bind)
  exact (hprimary.bind.orElse_fails hlocation.bind).bind

end Colon

/-! ## Rules for nested expressions -/

section Nested

variable {nested : Parser Expr} (h : Paired Slack (Tight ⊔ Stuck) nested) (hw : Within nested)

include h

theorem paired_predicate : Paired (Tight ⊔ Stuck) Tight (predicate nested) := by
  have hopen : Paired (Tight ⊔ Stuck) Tight (token (tag "[")) :=
    (paired_token_sup (paired_sign rfl (by decide)) (d := '[') rfl (by decide)).strengthen
      (sup_le_sup_right tight_le_slack _)
  have hclose : Paired (Tight ⊔ Stuck) Tight (token (tag "]")) :=
    (paired_token_sup (paired_sign rfl (by decide)) (d := ']') rfl (by decide)).strengthen
      (sup_le_sup_right tight_le_slack _)
  exact hopen.bind fun _ => (h.strengthen tight_le_slack).bind fun _ => hclose.map _

include hw

theorem paired_predicates : Paired (Tight ⊔ Stuck) (Tight ⊔ Stuck) (many (predicate nested)) :=
  ((paired_predicate h).weaken le_sup_left).many (advances_predicate hw)

theorem paired_step : Paired Slack (Tight ⊔ Stuck) (step nested) :=
  (paired_stepHead.token paired_blanks paired_blanks_sup).bind fun _ =>
    (paired_predicates h hw).map _

theorem paired_furtherStep : Paired (Tight ⊔ Stuck) (Tight ⊔ Stuck) (furtherStep nested) := by
  have hdouble : Paired Tight Slack (tag "//") := paired_doubleSign rfl (by decide)
  have hsingle : Paired (Refused Tight (tag "//")) Slack (tag "/") :=
    (paired_halfSign rfl (by decide) (by decide) rfl).weaken parted_le_slack
  have hslash : Paired Tight Slack (orElse (do tag "//"; pure true) (do tag "/"; pure false)) :=
    (hdouble.map _).orElse ((hsingle.map _).strengthen Refused.of_map)
  have hstuck : Paired Stuck Slack (orElse (do tag "//"; pure true) (do tag "/"; pure false)) :=
    paired_of_fails fun s t hst => by
      have hd := fails_tag_of_stuck (w := "//") (d := '/') rfl (by decide) hst
      have hs := fails_tag_of_stuck (w := "/") (d := '/') rfl (by decide) hst
      exact ⟨hd.1.bind.orElse_fails hs.1.bind, hd.2.bind.orElse_fails hs.2.bind⟩
  exact (hslash.sup hstuck).bind fun _ => (paired_step h hw).map _

theorem paired_furtherSteps : Paired (Tight ⊔ Stuck) (Tight ⊔ Stuck) (furtherSteps nested) :=
  ((paired_furtherStep h hw).many (advances_furtherStep hw)).map _

omit h in
/-- Behind a slash that is the whole path no further step follows. -/
theorem paired_furtherSteps_root : Paired (Parted '/') (Parted '/') (furtherSteps nested) := by
  have hnone : Paired (Parted '/') (Parted '/') (furtherStep nested) :=
    paired_of_fails fun s t hst =>
      ⟨fails_furtherStep_of_next hst.2.1, fails_furtherStep_of_next hst.2.2⟩
  exact (hnone.many (advances_furtherStep hw)).map _

theorem paired_locationPath :
    Paired Tight ((Tight ⊔ Stuck) ⊔ Parted '/') (locationPath nested) := by
  have hsteps (start : Start) (front : List Step) :
      Paired Slack ((Tight ⊔ Stuck) ⊔ Parted '/') (do
        let first ← step nested
        let more ← furtherSteps nested
        pure (start, front ++ first :: more)) :=
    (paired_step h hw).bind fun _ => ((paired_furtherSteps h hw).weaken le_sup_left).map _
  have hdouble : Paired Tight Slack (tag "//") := paired_doubleSign rfl (by decide)
  refine hdouble.optional_bind (fun _ => hsteps .root [.descendants]) ?_
  have hsingle : Paired (Refused Tight (tag "//")) (Parted '/') (tag "/") :=
    paired_halfSign rfl (by decide) (by decide) rfl
  refine hsingle.optional_bind (fun _ => ?_) ?_
  · have hstep : Paired (Parted '/') (Tight ⊔ Stuck) (step nested) :=
      (paired_step h hw).strengthen parted_le_slack
    refine hstep.optional_bind (fun first => ?_) ?_
    · exact ((paired_furtherSteps h hw).weaken le_sup_left).map _
    · exact ((paired_pure _).weaken le_sup_right).refused
  · exact ((hsteps .here []).strengthen tight_le_slack).refused.refused

theorem paired_arguments (f : QName) : Paired Slack Slack (arguments nested f) := by
  have hopen : Paired Tight Slack (tag "(") := paired_sign rfl (by decide)
  have hcomma : Paired (Tight ⊔ Stuck) Slack (tag ",") :=
    paired_tag_sup (paired_sign rfl (by decide)) (d := ',') rfl (by decide)
  have hclose : Paired (Slack ⊔ Stuck) Tight (token (tag ")")) :=
    paired_token_sup paired_closeBracket (d := ')') rfl (by decide)
  have hargs : Paired Slack (Slack ⊔ Stuck) (separated (tag ",") nested) :=
    Paired.separated hcomma (advances_tag (by decide)) h hw (sup_le_sup_right tight_le_slack _)
      le_sup_left
  exact paired_blanks.bind fun _ => hopen.bind fun _ => hargs.bind fun _ =>
    (hclose.weaken tight_le_slack).map _

omit h hw in
theorem fails_functionCall_of_bracket {f : QName} {s s' : List Char}
    (hf : Reads qualifiedName s f s') (hbracket : Fails (token (tag "(")) s') :
    Fails (functionCall nested) s := by
  obtain ⟨at_, hbracket⟩ := hbracket
  exact ⟨at_, by rw [functionCall_eq, hf]; simp only [hbracket]⟩

omit h hw in
theorem functionCall_of_bracket {f : QName} {s s' s'' : List Char}
    (hf : Reads qualifiedName s f s') (hbracket : Reads (token (tag "(")) s' () s'') :
    functionCall nested s =
      if f.qualifier.isNone && nodeTypeNames.contains f.name then .error s
      else arguments nested f s' := by
  rw [Reads] at hbracket
  rw [functionCall_eq, hf]
  simp only [hbracket]

theorem paired_functionCall : Paired Tight Slack (functionCall nested) := by
  intro s t hst
  obtain ⟨f, s', t', hs, ht, hrest⟩ | ⟨⟨_, hs⟩, ⟨_, ht⟩⟩ := paired_qualifiedName s t hst
  · rcases hrest with hslack | ⟨s', t', rfl, rfl⟩
    · obtain ⟨⟨⟩, s'', t'', hs', ht', -⟩ | ⟨hs', ht'⟩ :=
        paired_token (paired_sign (w := "(") rfl (by decide)) s' t' hslack
      · have hs : functionCall nested s = _ := functionCall_of_bracket hs hs'
        have ht : functionCall nested t = _ := functionCall_of_bracket ht ht'
        by_cases hname : (f.qualifier.isNone && nodeTypeNames.contains f.name) = true
        · rw [if_pos hname] at hs ht
          exact .inr ⟨⟨_, hs⟩, ⟨_, ht⟩⟩
        · rw [if_neg hname] at hs ht
          obtain ⟨e, x, y, hx, hy, hxy⟩ | ⟨⟨_, hx⟩, ⟨_, hy⟩⟩ :=
            paired_arguments h hw f s' t' hslack
          · exact .inl ⟨e, x, y, hs.trans hx, ht.trans hy, hxy⟩
          · exact .inr ⟨⟨_, hs.trans hx⟩, ⟨_, ht.trans hy⟩⟩
      · exact .inr ⟨fails_functionCall_of_bracket hs hs', fails_functionCall_of_bracket ht ht'⟩
    · have hcolon (cs : List Char) : Fails (token (tag "(")) (':' :: cs) :=
        Fails.token (fails_tag_of_colon (d := '(') rfl (by decide))
      exact .inr ⟨fails_functionCall_of_bracket hs (hcolon s'),
        fails_functionCall_of_bracket ht (hcolon t')⟩
  · exact .inr ⟨⟨_, by rw [functionCall_eq, hs]⟩, ⟨_, by rw [functionCall_eq, ht]⟩⟩

theorem paired_primary : Paired Slack Tight (primary nested) := by
  have hbracketed : Paired Tight Slack (bracketed nested) := by
    have hopen : Paired Tight Slack (tag "(") := paired_sign rfl (by decide)
    have hclose : Paired (Tight ⊔ Stuck) Slack (tag ")") :=
      paired_tag_sup paired_closeBracket (d := ')') rfl (by decide)
    exact hopen.bind fun _ => h.bind fun _ => hclose.map _
  refine Paired.token ?_ paired_blanks paired_blanks
  exact paired_variableReference.orElse <| Paired.refused <|
    (paired_numberLiteral.map _).orElse <| Paired.refused <|
    (paired_stringLiteral.map _).orElse <| Paired.refused <|
    (paired_functionCall h hw).orElse hbracketed.refused

theorem paired_filtered : Paired Slack (Tight ⊔ Stuck) (filtered nested) :=
  (paired_primary h hw).bind fun _ =>
    ((paired_predicates h hw).strengthen le_sup_left).map _

theorem paired_pathExpr : Paired (Tight ⊔ Colon) (Slack ⊔ Stuck) (pathExpr nested) := by
  have hfiltered : Paired Tight ((Tight ⊔ Stuck) ⊔ Parted '/') (filtered nested) :=
    (paired_filtered h hw).mono tight_le_slack le_sup_left
  have hmore : Paired ((Tight ⊔ Stuck) ⊔ Parted '/') (Slack ⊔ Stuck) (furtherSteps nested) :=
    ((paired_furtherSteps h hw).weaken (sup_le_sup_right tight_le_slack _)).sup
      ((paired_furtherSteps_root hw).weaken (parted_le_slack.trans le_sup_left))
  refine (Paired.bind (hfiltered.orElse ((paired_locationPath h hw).map _).refused)
    fun _ => hmore.map _).sup (paired_of_fails ?_)
  rintro s t ⟨s', t', rfl, rfl⟩
  exact ⟨fails_pathExpr_of_colon, fails_pathExpr_of_colon⟩

omit h hw in
theorem paired_leftAssoc {k : Nat} {operand : Parser Expr} (hadvances : Advances operand)
    (h : Paired (Tight ⊔ Colon) (Slack ⊔ Stuck) operand) :
    Paired (Tight ⊔ Colon) (Slack ⊔ Stuck) (leftAssoc (operators k) operand) := by
  refine h.bind fun _ => ((Paired.bind (paired_token_operators k) fun _ => ?_).many ?_).map _
  · exact h.map _
  · exact (advances_operators k).token.bind fun _ => hadvances.toWithin.bind fun _ => within_pure _

theorem paired_rule (k : Nat) : Paired (Tight ⊔ Colon) (Slack ⊔ Stuck) (rule nested k) := by
  have hchain {k : Nat} (h : Paired (Tight ⊔ Colon) (Slack ⊔ Stuck) (rule nested (k + 1))) :
      Paired (Tight ⊔ Colon) (Slack ⊔ Stuck) (leftAssoc (operators k) (rule nested (k + 1))) :=
    paired_leftAssoc (advances_rule hw (k + 1)) h
  have hunion : Paired (Tight ⊔ Colon) (Slack ⊔ Stuck) (rule nested 8) :=
    hchain (k := 8) (paired_pathExpr h hw)
  have hminus : Paired (Tight ⊔ Colon) (Tight ⊔ Colon) (token (tag "-")) :=
    (paired_token_sup (paired_sign rfl (by decide)) (d := '-') rfl (by decide)).mono
      (sup_le_sup tight_le_slack colon_le_stuck) le_sup_left
  have hunary : Paired (Tight ⊔ Colon) (Slack ⊔ Stuck) (rule nested 7) :=
    (hminus.many advances_minus).bind fun _ => hunion.map _
  have hproduct : Paired (Tight ⊔ Colon) (Slack ⊔ Stuck) (rule nested 6) := hchain hunary
  have hsum : Paired (Tight ⊔ Colon) (Slack ⊔ Stuck) (rule nested 5) := hchain hproduct
  have horder : Paired (Tight ⊔ Colon) (Slack ⊔ Stuck) (rule nested 4) := hchain hsum
  have hequality : Paired (Tight ⊔ Colon) (Slack ⊔ Stuck) (rule nested 3) := hchain horder
  have hand : Paired (Tight ⊔ Colon) (Slack ⊔ Stuck) (rule nested 2) := hchain hequality
  match k with
  | 0 | 1 => exact hchain hand
  | 2 => exact hand
  | 3 => exact hequality
  | 4 => exact horder
  | 5 => exact hsum
  | 6 => exact hproduct
  | 7 => exact hunary
  | 8 => exact hunion
  | _ + 9 => exact paired_pathExpr h hw

end Nested

theorem paired_expression (depth : Nat) : Paired Slack (Tight ⊔ Stuck) (expression depth) := by
  induction depth with
  | zero => exact paired_fail
  | succ depth ih =>
    have hrule := paired_rule ih (advances_expression depth).toWithin 1
    exact (hrule.strengthen le_sup_left).token paired_blanks paired_blanks_sup

/-! ## Whole texts -/

theorem parse_eq_ok_iff {s : String} {e : Expr} : parse s = .ok e ↔
    Reads (expression ((Text.trimEnd s.toList).length + 1)) (Text.trimEnd s.toList) e [] := by
  rw [parse, Reads]
  dsimp only
  split
  · next hread => simp [hread]
  · next hread => simp [hread]
  · next hread => simp [hread]

/-- What is left of one text is left of the other, or nothing is left of either. -/
theorem nil_iff_of_left (h : (Tight ⊔ Stuck) s t) : s = [] ↔ t = [] := by
  rcases h with h | ⟨c, s', t', rfl, rfl, -⟩
  · exact (Spaced.loose h).nil_iff
  · simp

/-- **Blanks between the words of an expression do not matter**, but for a blank behind the sign of
attributes: with blanks inserted anywhere else, the same texts are expressions, and the same
ones. -/
theorem parse_spaced {s t : String} (h : Spaced IsAttributeSign s.toList t.toList) (e : Expr) :
    parse s = .ok e ↔ parse t = .ok e := by
  have htight : Tight (Text.trimEnd s.toList) (Text.trimEnd t.toList) := h.trimEnd
  rw [parse_eq_ok_iff, parse_eq_ok_iff]
  generalize Text.trimEnd s.toList = x at htight ⊢
  generalize Text.trimEnd t.toList = y at htight ⊢
  -- The longer text bounds the nesting of both.
  have hdepth : expression (x.length + 1) x = expression (y.length + 1) x :=
    expression_eq_of_lt (Nat.lt_succ_self _) (Nat.lt_succ_of_le htight.length_le)
  rw [Reads, hdepth, ← Reads]
  obtain ⟨e', x', y', hx, hy, hleft⟩ | ⟨⟨_, hx⟩, ⟨_, hy⟩⟩ :=
    paired_expression (y.length + 1) x y (tight_le_slack x y htight)
  · have hnil := nil_iff_of_left hleft
    rw [Reads] at hx hy
    simp only [Reads, hx, hy, Except.ok.injEq, Prod.mk.injEq, hnil]
  · simp [Reads, hx, hy]

theorem parse_spaced_step :
    Spaced IsAttributeSign "a/b".toList "a /b".toList ∧
      parse "a /b" = .ok (.path .here [.mk .child (.name (.bare "a")) [],
        .mk .child (.name (.bare "b")) []]) := by
  have hname : Lexeme 'a' [] ['/', 'b'] :=
    .name (q := .bare "a") (by decide) rfl ⟨rfl, by simp [QName.bare]⟩ (by simp; decide) (by simp)
  have hspaced : Spaced IsAttributeSign "a/b".toList "a /b".toList :=
    .cons (g := [' ']) hname (by simp [Text.isTokenBlank]) (by simp [IsAttributeSign]) (.refl _)
  refine ⟨hspaced, (parse_spaced hspaced _).1 ?_⟩
  with_unfolding_all rfl

/-- **A blank behind the sign of attributes does matter**: `@id` is an expression, `@ id` is
none. -/
theorem not_parse_of_spaced : ¬∀ (s t : String) (e : Expr),
    Spaced (fun _ => False) s.toList t.toList → parse s = .ok e → parse t = .ok e := by
  intro h
  have hsign : Lexeme '@' [] ['i', 'd'] := by
    refine .single rfl ⟨by decide, by decide, ?_, ?_, ?_, ?_⟩ <;> simp [doubleSigns]
  have hspaced : Spaced (fun _ => False) "@id".toList "@ id".toList :=
    .cons (g := [' ']) hsign (by simp [Text.isTokenBlank]) (by simp) (.refl _)
  have hid : parse "@id" = .ok (.path .here [.mk .attribute (.name (.bare "id")) []]) := by
    with_unfolding_all rfl
  have hgap : parse "@ id" = .error ⟨"@ id", .noExpression, 0⟩ := by with_unfolding_all rfl
  cases hgap.symm.trans (h _ _ _ hspaced hid)

end PathQuery.Grammar
