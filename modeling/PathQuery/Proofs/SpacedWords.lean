import PathQuery.Proofs.Lexemes
import PathQuery.Proofs.PairedReading
import PathQuery.Proofs.PathTexts

/-!
# Reading the words of a spaced text

The words of the grammar are read alike from a text and from the same text with blanks inserted
between its lexemes, but for a blank behind the sign of attributes. Behind a word, blanks may stand
in one text and not in the other. Some words are read off the front of a longer lexeme: a keyword or
a qualifier off a name, a point off a fraction. Then both texts go on with the same colon or digit,
and nothing that may follow the word starts so.

* names: `Tight`, `Slack`: the two relations between the texts; `Inside`, `Colon`, `Stuck`: where
  they are left inside a lexeme; `Parted`: behind the first half of a sign. One lemma for each word.
-/

open PathQuery.Parser

namespace PathQuery.Grammar

/-- Nothing is inserted behind the sign of attributes. -/
def IsAttributeSign (p : List Char) : Prop := p = ['@']

/-- At a lexeme in both texts. -/
def Tight : List Char → List Char → Prop := Spaced IsAttributeSign

/-- Behind a lexeme in both texts, and blanks may have been inserted. -/
def Slack : List Char → List Char → Prop := Loose IsAttributeSign

/-- Both texts go on with a colon. -/
def Colon (s t : List Char) : Prop := ∃ s' t', s = ':' :: s' ∧ t = ':' :: t'

/-- Both texts go on with the same digit or colon. -/
def Stuck (s t : List Char) : Prop :=
  ∃ c s' t', s = c :: s' ∧ t = c :: t' ∧ (c.isDigit = true ∨ c = ':')

/-- Both texts go on with the same character of a name, or with a colon and the same character,
which is no colon. -/
def Inside (s t : List Char) : Prop :=
  ∃ c d s' t', s = c :: s' ∧ t = c :: t' ∧
    (isNameChar c = true ∨ c = ':' ∧ s'.head? = some d ∧ t'.head? = some d ∧ d ≠ ':')

variable {α : Type} {Q : List Char → List Char → Prop} {p : Parser α} {s t : List Char}

theorem tight_le_slack : Tight ≤ Slack := fun _ _ h => h.loose

theorem colon_le_stuck : Colon ≤ Stuck := by
  rintro s t ⟨s', t', hs, ht⟩
  exact ⟨':', s', t', hs, ht, .inr rfl⟩

/-! ## Blanks -/

theorem not_blank_of_stuck {c : Char} (h : c.isDigit = true ∨ c = ':') :
    Text.isTokenBlank c = false := by
  rcases h with h | rfl
  · exact isTokenBlank_of_isDigit h
  · rfl

theorem paired_blanks : Paired Slack Tight blanks :=
  fun s t h => .inl ⟨(), skip s, skip t, reads_blanks, reads_blanks, h.skip⟩

theorem paired_blanks_colon : Paired Colon Colon blanks := by
  rintro s t ⟨s', t', rfl, rfl⟩
  exact .inl ⟨(), _, _, reads_blanks, reads_blanks, ⟨s', t', rfl, rfl⟩⟩

theorem paired_blanks_stuck : Paired Stuck Stuck blanks := by
  rintro s t ⟨c, s', t', rfl, rfl, hc⟩
  refine .inl ⟨(), _, _, reads_blanks, reads_blanks, ⟨c, s', t', ?_, ?_, hc⟩⟩
  all_goals exact skip_eq_self (by simpa using not_blank_of_stuck hc)

/-! ## Lexeme by lexeme -/

/-- To read alike, it is enough to read alike at a lexeme. -/
theorem paired_of_lexeme (hnil : Fails p [])
    (h : ∀ c l rest u, Lexeme c l rest → Lexeme c l u → Slack rest u →
      (IsAttributeSign (c :: l) → Tight rest u) →
      SameOutcome Q p (c :: (l ++ rest)) (c :: (l ++ u))) : Paired Tight Q p := by
  intro s t hst
  obtain ⟨rfl, rfl⟩ | ⟨c, l, rest, u, rfl, rfl, hl, hl', hrest, hsign⟩ := hst.exists_lexeme
  · exact .inr ⟨hnil, hnil⟩
  · exact h c l rest u hl hl' hrest hsign

/-! ## Signs -/

section Signs

variable {w w' : String} {c d : Char} {cs : List Char}

theorem fails_tag_of_second (hw : w.toList = [c, d]) (h : ∀ e ∈ cs.head?, e ≠ d) :
    Fails (tag w) (c :: cs) := by
  refine fails_tag fun hp => ?_
  rw [hw, List.cons_prefix_cons] at hp
  obtain ⟨es, rfl⟩ := hp.2
  exact h d rfl rfl

theorem paired_plainSign {R : List Char → List Char → Prop} (hw : w.toList = [c])
    (hc : isPlain c = true) (hR : ∀ rest u, Slack rest u →
      (IsAttributeSign [c] → Tight rest u) → R rest u) : Paired Tight R (tag w) := by
  have hhead : w.toList.head? = some c := by rw [hw]; rfl
  refine paired_of_lexeme (fails_tag_nil (by simp [hw])) fun e l rest u hl _ hrest hsign => ?_
  by_cases he : e = c
  · subst he
    obtain rfl := hl.eq_nil hc
    exact .inl ⟨(), rest, u, reads_tag (by simp [hw]), reads_tag (by simp [hw]),
      hR rest u hrest hsign⟩
  · exact .inr ⟨fails_tag_of_head hhead he, fails_tag_of_head hhead he⟩

theorem paired_sign (hw : w.toList = [c]) (hc : isPlain c = true) : Paired Tight Slack (tag w) :=
  paired_plainSign hw hc fun _ _ h _ => h

/-- Behind the sign of attributes the texts are at a lexeme again. -/
theorem paired_attributeSign : Paired Tight Tight (tag "@") :=
  paired_plainSign (c := '@') rfl (by decide) fun _ _ _ h => h rfl

theorem paired_doubleSign (hw : w.toList = [c, d]) (hcd : [c, d] ∈ doubleSigns) :
    Paired Tight Slack (tag w) := by
  have hhead : w.toList.head? = some c := by rw [hw]; rfl
  refine paired_of_lexeme (fails_tag_nil (by simp [hw])) fun e l rest u hl hl' hrest _ => ?_
  by_cases he : e = c
  · subst he
    obtain rfl | ⟨rfl, hne⟩ | ⟨rfl, e, es, rfl, hdigit⟩ := hl.of_double hcd
    · exact .inl ⟨(), rest, u, reads_tag (by simp [hw]), reads_tag (by simp [hw]), hrest⟩
    · obtain hd | ⟨-, hne'⟩ | ⟨-, e, es, hnil, -⟩ := hl'.of_double hcd
      · cases hd
      · exact .inr ⟨fails_tag_of_second hw hne, fails_tag_of_second hw hne'⟩
      · cases hnil
    · have hne : ∀ cs : List Char, ∀ f ∈ (e :: (es ++ cs)).head?, f ≠ d := by
        rintro cs f ⟨⟩ rfl
        simp [(outside_of_doubleSigns _ hcd e (by simp)).2.1] at hdigit
      exact .inr ⟨fails_tag_of_second hw (hne rest), fails_tag_of_second hw (hne u)⟩
  · exact .inr ⟨fails_tag_of_head hhead he, fails_tag_of_head hhead he⟩

/-- Behind a lexeme in both texts, and neither goes on with the character. -/
def Parted (d : Char) (s t : List Char) : Prop :=
  Slack s t ∧ (∀ e ∈ s.head?, e ≠ d) ∧ ∀ e ∈ t.head?, e ≠ d

theorem parted_le_slack : Parted d ≤ Slack := fun _ _ h => h.1

/-- The first half of a sign, where the whole sign does not stand. -/
theorem paired_halfSign (hw' : w'.toList = [c, d]) (hcd : [c, d] ∈ doubleSigns) (hc : c ≠ '.')
    (hw : w.toList = [c]) : Paired (Refused Tight (tag w')) (Parted d) (tag w) := by
  have hhead : w.toList.head? = some c := by rw [hw]; rfl
  have hblank : Text.isTokenBlank d = false := by
    by_contra hblank
    exact not_double_of_blank (by simpa using hblank) hcd
  rintro s t ⟨hst, ⟨at_, hs⟩, -⟩
  obtain ⟨rfl, rfl⟩ | ⟨e, l, rest, u, rfl, rfl, hl, -, hrest, -⟩ := hst.exists_lexeme
  · exact .inr ⟨fails_tag_nil (by simp [hw]), fails_tag_nil (by simp [hw])⟩
  by_cases he : e = c
  · subst he
    obtain rfl | ⟨rfl, hne⟩ | ⟨hpoint, -⟩ := hl.of_double hcd
    · have hreads : Reads (tag w') (e :: ([d] ++ rest)) () rest := reads_tag (by simp [hw'])
      cases hreads.symm.trans hs
    · have hne' : ∀ f ∈ u.head?, f ≠ d :=
        hrest.trails.forall_head (fun f hf => by rintro rfl; simp [hblank] at hf) hne
      exact .inl ⟨(), rest, u, reads_tag (by simp [hw]), reads_tag (by simp [hw]), hrest, hne, hne'⟩
    · exact absurd hpoint hc
  · exact .inr ⟨fails_tag_of_head hhead he, fails_tag_of_head hhead he⟩

/-- A single point, or the point of a fraction. -/
theorem paired_point : Paired (Refused Tight (tag "..")) (Slack ⊔ Stuck) (tag ".") := by
  rintro s t ⟨hst, ⟨at_, hs⟩, -⟩
  obtain ⟨rfl, rfl⟩ | ⟨e, l, rest, u, rfl, rfl, hl, -, hrest, -⟩ := hst.exists_lexeme
  · exact .inr ⟨fails_tag_nil (by decide), fails_tag_nil (by decide)⟩
  by_cases he : e = '.'
  · subst he
    obtain rfl | ⟨rfl, -⟩ | ⟨-, d, ds, rfl, hd⟩ := hl.of_double (d := '.') (by decide)
    · have hreads : Reads (tag "..") ('.' :: (['.'] ++ rest)) () rest := reads_tag rfl
      cases hreads.symm.trans hs
    · exact .inl ⟨(), rest, u, reads_tag rfl, reads_tag rfl, .inl hrest⟩
    · exact .inl ⟨(), _, _, reads_tag rfl, reads_tag rfl, .inr ⟨d, _, _, rfl, rfl, .inl hd⟩⟩
  · exact .inr ⟨fails_tag_of_head (d := '.') rfl he, fails_tag_of_head (d := '.') rfl he⟩

end Signs

/-! ## Names -/

section Names

variable {c d : Char} {l rest u : List Char}

theorem ne_of_isNameStart (hc : isNameStart c = true) (hd : isNameStart d = false) : c ≠ d := by
  rintro rfl
  simp [hd] at hc

/-- A lexeme that starts like a name is a name, or a qualifier with a star. -/
theorem Lexeme.of_isNameStart (h : Lexeme c l rest) (hstart : isNameStart c = true) :
    (∃ q : QName, c :: l = q.text.toList ∧ q.IsWritten ∧
      (∀ d ∈ rest.head?, isOutside d = true) ∧
      (q.qualifier = none → ∀ d ds, rest = ':' :: d :: ds → isNameStart d = false ∧ d ≠ '*')) ∨
    ∃ n : String, c :: l = n.toList ++ [':', '*'] ∧ IsName n := by
  have hfront := isPlainFront_of_isNameStart hstart
  simp only [isPlainFront, Bool.and_eq_true, bne_iff_ne, Bool.not_eq_true'] at hfront
  obtain ⟨⟨⟨⟨hdollar, hdigit⟩, hpoint⟩, hsingle⟩, hdouble⟩ := hfront
  cases h with
  | name _ hp hq hend hcolon => exact .inl ⟨_, hp, hq, hend, hcolon⟩
  | wildcard _ hp hn => exact .inr ⟨_, hp, hn⟩
  | reference hc _ _ _ _ => exact absurd hc hdollar
  | whole hc _ _ => simp [hdigit] at hc
  | decimal hc _ _ _ => simp [hdigit] at hc
  | fraction hc _ _ _ => exact absurd hc hpoint
  | quoted hc _ _ => exact absurd hc (not_or.2 ⟨hsingle, hdouble⟩)
  | double _ hc => simp [(outside_of_doubleSigns _ hc c List.mem_cons_self).1] at hstart
  | single _ h => simp [h.notStart] at hstart

/-- Both texts start with the same name. Behind it, they are at the end of a lexeme, or the lexeme
goes on with a colon. -/
theorem exists_name_of_tight (h : Tight s t) (hc : c ∈ s.head?) (hstart : isNameStart c = true) :
    ∃ (n : String) (x y : List Char), IsName n ∧ s = n.toList ++ x ∧ t = n.toList ++ y ∧
      (∀ d ∈ x.head?, isOutside d = true) ∧ (∀ d ∈ y.head?, isOutside d = true) ∧
      (Slack x y ∨ ∃ d x' y', x = ':' :: d :: x' ∧ y = ':' :: d :: y' ∧ d ≠ ':') := by
  obtain ⟨rfl, -⟩ | ⟨e, l, rest, u, rfl, rfl, hl, hl', hrest, -⟩ := h.exists_lexeme
  · cases hc
  obtain rfl : e = c := by simpa using hc
  have hcolon : ∀ cs : List Char, ∀ d ∈ (':' :: cs).head?, isOutside d = true := isOutside_colon
  obtain ⟨q, hq, hwritten, hend, -⟩ | ⟨n, hn, hname⟩ := hl.of_isNameStart hstart
  · obtain ⟨qualifier, name⟩ := q
    cases qualifier with
    | none =>
      refine ⟨name, rest, u, hwritten.1, ?_, ?_, hend, ?_, .inl hrest⟩
      · rw [← List.cons_append, hq]
        rfl
      · rw [← List.cons_append, hq]
        rfl
      · exact hrest.trails.forall_head (fun _ => isOutside_of_isTokenBlank) hend
    | some n =>
      obtain ⟨d, ds, hds, hd⟩ := exists_cons_of_isName hwritten.1
      have htext : (QName.mk (some n) name).text.toList = n.toList ++ ':' :: d :: ds := by
        simp [QName.text, hds]
      refine ⟨n, ':' :: d :: (ds ++ rest), ':' :: d :: (ds ++ u), hwritten.2 n rfl, ?_, ?_,
        hcolon _, hcolon _, .inr ⟨d, _, _, rfl, rfl, ne_of_isNameStart hd (by decide)⟩⟩
      · rw [← List.cons_append, hq, htext]
        simp
      · rw [← List.cons_append, hq, htext]
        simp
  · refine ⟨n, ':' :: '*' :: rest, ':' :: '*' :: u, hname, ?_, ?_, hcolon _, hcolon _,
      .inr ⟨'*', _, _, rfl, rfl, by decide⟩⟩
    · rw [← List.cons_append, hn]
      simp
    · rw [← List.cons_append, hn]
      simp

/-- A parser that reads nothing but names reads alike if it does so at names. -/
theorem paired_of_name
    (hfails : ∀ cs : List Char, (∀ c ∈ cs.head?, isNameStart c = false) → Fails p cs)
    (h : ∀ (n : String) (x y : List Char), IsName n → (∀ d ∈ x.head?, isOutside d = true) →
      (∀ d ∈ y.head?, isOutside d = true) →
      (Slack x y ∨ ∃ d x' y', x = ':' :: d :: x' ∧ y = ':' :: d :: y' ∧ d ≠ ':') →
      SameOutcome Q p (n.toList ++ x) (n.toList ++ y)) : Paired Tight Q p := by
  intro s t hst
  by_cases hname : ∃ c ∈ s.head?, isNameStart c = true
  · obtain ⟨c, hc, hstart⟩ := hname
    obtain ⟨n, x, y, hn, rfl, rfl, hx, hy, hxy⟩ := exists_name_of_tight hst hc hstart
    exact h n x y hn hx hy hxy
  · have hnone : ∀ c ∈ s.head?, isNameStart c = false := fun c hc => by
      by_contra hstart
      exact hname ⟨c, hc, by simpa using hstart⟩
    exact .inr ⟨hfails s hnone, hfails t (hst.head_eq ▸ hnone)⟩

theorem fails_tag_of_not_isNameStart {w : String} (hw : IsName w) {cs : List Char}
    (h : ∀ c ∈ cs.head?, isNameStart c = false) : Fails (tag w) cs := by
  obtain ⟨d, ds, hds, hd⟩ := exists_cons_of_isName hw
  exact fails_tag_of_head_ne (by rw [hds]; rfl) fun c hc => (ne_of_isNameStart hd (h c hc)).symm

/-- A word is read off the front of the same name in both texts. -/
theorem paired_word {w : String} (hw : IsName w) : Paired Tight (Slack ⊔ Inside) (tag w) := by
  refine paired_of_name (fun cs => fails_tag_of_not_isNameStart hw) fun n x y hn hx hy hxy => ?_
  have hword {z cs : List Char} (hz : ∀ d ∈ z.head?, isOutside d = true)
      (h : w.toList ++ cs = n.toList ++ z) : ∃ v, n.toList = w.toList ++ v := by
    obtain ⟨v, hv, -⟩ := exists_suffix_of_word hn hz hw h.symm
    exact ⟨v, hv⟩
  by_cases hprefix : ∃ v, n.toList = w.toList ++ v
  · obtain ⟨v, hv⟩ := hprefix
    rw [hv, List.append_assoc, List.append_assoc]
    refine .inl ⟨(), v ++ x, v ++ y, reads_tag rfl, reads_tag rfl, ?_⟩
    cases v with
    | nil =>
      obtain hslack | ⟨d, x', y', rfl, rfl, hd⟩ := hxy
      · exact .inl hslack
      · exact .inr ⟨':', d, _, _, rfl, rfl, .inr ⟨rfl, rfl, rfl, hd⟩⟩
    | cons c v =>
      have hc := not_isOutside_of_mem hn (c := c) (by simp [hv])
      have hchar : isNameChar c = true := by
        by_contra hchar
        rw [isOutside_of_isNameChar (by simpa using hchar)] at hc
        cases hc
      exact .inr ⟨c, c, _, _, rfl, rfl, .inl hchar⟩
  · refine .inr ⟨fails_tag ?_, fails_tag ?_⟩
    · rintro ⟨cs, hcs⟩
      exact hprefix (hword hx hcs)
    · rintro ⟨cs, hcs⟩
      exact hprefix (hword hy hcs)

theorem paired_oneOf {words : List (String × α)} (h : ∀ w ∈ words, IsName w.1) :
    Paired Tight (Slack ⊔ Inside) (oneOf words) := by
  induction words with
  | nil => exact paired_fail
  | cons w words ih =>
    exact ((paired_word (h w (List.mem_cons_self ..))).map fun _ => w.2).orElse
      (ih fun w hw => h w (List.mem_cons_of_mem _ hw)).refused

theorem not_blank_of_isNameChar (h : isNameChar c = true) : Text.isTokenBlank c = false := by
  by_contra hblank
  have houtside := isOutside_of_isTokenBlank (by simpa using hblank)
  simp [isOutside, h] at houtside

/-- Inside a lexeme no bracket opens. -/
theorem fails_openBracket (h : Inside s t) :
    Fails (token (tag "(")) s ∧ Fails (token (tag "(")) t := by
  obtain ⟨c, d, s', t', rfl, rfl, hc⟩ := h
  have hfront : Text.isTokenBlank c = false ∧ c ≠ '(' := by
    rcases hc with hc | ⟨rfl, -⟩
    · exact ⟨not_blank_of_isNameChar hc, by rintro rfl; revert hc; decide⟩
    · decide
  have hfails (cs : List Char) : Fails (token (tag "(")) (c :: cs) := by
    refine Fails.token ?_
    rw [skip_eq_self (by simpa using hfront.1)]
    exact fails_tag_of_head (d := '(') rfl hfront.2
  exact ⟨hfails s', hfails t'⟩

/-- Inside a lexeme no double colon stands. -/
theorem fails_doubleColon (h : Inside s t) :
    Fails (token (tag "::")) s ∧ Fails (token (tag "::")) t := by
  obtain ⟨c, d, s', t', rfl, rfl, hc⟩ := h
  rcases hc with hc | ⟨rfl, hs, ht, hd⟩
  · have hfails (cs : List Char) : Fails (token (tag "::")) (c :: cs) := by
      refine Fails.token ?_
      rw [skip_eq_self (by simpa using not_blank_of_isNameChar hc)]
      exact fails_tag_of_head (d := ':') rfl (by rintro rfl; revert hc; decide)
    exact ⟨hfails s', hfails t'⟩
  · have hfails (cs : List Char) (hcs : cs.head? = some d) : Fails (token (tag "::")) (':' :: cs) :=
      Fails.token (fails_tag_of_second rfl fun e he => by
        obtain rfl : d = e := by simpa [hcs] using he
        exact hd)
    exact ⟨hfails s' hs, hfails t' ht⟩

theorem paired_token {w : String} (h : Paired Tight Slack (tag w)) :
    Paired Slack Tight (token (tag w)) := h.token paired_blanks paired_blanks

theorem paired_openBracket : Paired (Slack ⊔ Inside) Tight (token (tag "(")) :=
  (paired_token (paired_sign rfl (by decide))).sup (paired_of_fails fun _ _ => fails_openBracket)

theorem paired_doubleColon : Paired (Slack ⊔ Inside) Tight (token (tag "::")) :=
  (paired_token (paired_doubleSign rfl (by decide))).sup
    (paired_of_fails fun _ _ => fails_doubleColon)

/-! ## Keywords -/

theorem reads_keyword {w : String} {x : List Char} (hx : ∀ d ∈ x.head?, isOutside d = true) :
    Reads (keyword w) (w.toList ++ x) () x := by
  have hnone : takeWhile1 isNameChar x = .error x := by
    rw [takeWhile1, if_pos]
    cases x with
    | nil => rfl
    | cons c cs =>
      have hc : isNameChar c = false := by
        have h := hx c rfl
        simp only [isOutside, Bool.and_eq_true, Bool.not_eq_true'] at h
        exact h.2
      simp [hc]
  have hend : Reads (notFollowed (takeWhile1 isNameChar)) x () x := by
    rw [Reads, notFollowed, hnone]
  exact (reads_tag rfl).bind hend

theorem fails_keyword {n w : String} {x : List Char} (hn : IsName n) (hw : IsName w) (hne : n ≠ w)
    (hx : ∀ d ∈ x.head?, isOutside d = true) : Fails (keyword w) (n.toList ++ x) := by
  by_cases hprefix : w.toList <+: n.toList ++ x
  · obtain ⟨cs, hcs⟩ := hprefix
    obtain ⟨v, hv, hall, rfl⟩ := exists_suffix_of_word hn hx hw hcs.symm
    cases v with
    | nil =>
      rw [List.append_nil] at hv
      exact absurd (String.toList_inj.1 hv) hne
    | cons c v =>
      have hc : isNameChar c = true := by
        by_contra hchar
        have h := hall c (List.mem_cons_self ..)
        rw [isOutside_of_isNameChar (by simpa using hchar)] at h
        cases h
      have hmore : Fails (notFollowed (takeWhile1 isNameChar)) (c :: (v ++ x)) := by
        refine ⟨c :: (v ++ x), ?_⟩
        rw [notFollowed, takeWhile1, if_neg (by simp [hc])]
      rw [← hcs]
      exact (reads_tag rfl).bind_fails hmore
  · exact (fails_tag hprefix).bind

/-- A keyword is read if it is the first name of both texts; another name may follow a colon. -/
theorem paired_keyword {w : String} (hw : IsName w) :
    Paired Tight (Slack ⊔ Colon) (keyword w) := by
  refine paired_of_name (fun cs h => (fails_tag_of_not_isNameStart hw h).bind)
    fun n x y hn hx hy hxy => ?_
  by_cases hne : n = w
  · subst hne
    refine .inl ⟨(), x, y, reads_keyword hx, reads_keyword hy, ?_⟩
    obtain hslack | ⟨d, x', y', rfl, rfl, -⟩ := hxy
    · exact .inl hslack
    · exact .inr ⟨_, _, rfl, rfl⟩
  · exact .inr ⟨fails_keyword hn hw hne hx, fails_keyword hn hw hne hy⟩

/-! ## Qualified names -/

theorem Slack.outside (h : Slack rest u) (hend : ∀ d ∈ rest.head?, isOutside d = true) :
    ∀ d ∈ u.head?, isOutside d = true :=
  h.trails.forall_head (fun _ => isOutside_of_isTokenBlank) hend

theorem Slack.noName (h : Slack rest u)
    (hrest : ∀ d ds, rest = ':' :: d :: ds → isNameStart d = false) :
    ∀ d ds, u = ':' :: d :: ds → isNameStart d = false :=
  h.trails.forall_colon (fun _ => not_isNameStart_of_isTokenBlank) hrest

theorem fails_qualifiedName {cs : List Char} (h : ∀ c ∈ cs.head?, isNameStart c = false) :
    Fails qualifiedName cs := (fails_nameText h).bind

/-- A qualifier before a star is read as a name of its own. -/
theorem reads_qualifiedName_star {n : String} (hn : IsName n) (cs : List Char) :
    Reads qualifiedName (n.toList ++ ':' :: '*' :: cs) ⟨none, n⟩ (':' :: '*' :: cs) := by
  have hstar : Fails nameText ('*' :: cs) := fails_nameText (by simp; decide)
  have hsecond : Fails (do tag ":"; nameText) (':' :: '*' :: cs) :=
    (reads_tag (s := ":") rfl).bind_fails hstar
  exact (reads_nameText hn (isOutside_colon _)).bind (hsecond.optional.bind reads_pure)

theorem paired_qualifiedName : Paired Tight (Slack ⊔ Colon) qualifiedName := by
  refine paired_of_lexeme (fails_qualifiedName (by simp)) fun c l rest u hl hl' hrest _ => ?_
  by_cases hstart : isNameStart c = true
  · obtain ⟨q, hq, hwritten, hend, hcolon⟩ | ⟨n, hn, hname⟩ := hl.of_isNameStart hstart
    · have hnone (h : q.qualifier = none) := fun d ds hd => (hcolon h d ds hd).1
      rw [← List.cons_append, ← List.cons_append, hq]
      exact .inl ⟨q, rest, u, reads_qualifiedName_of_end hwritten hend hnone,
        reads_qualifiedName_of_end hwritten (Slack.outside hrest hend)
          fun h => Slack.noName hrest (hnone h), .inl hrest⟩
    · rw [← List.cons_append, ← List.cons_append, hn, List.append_assoc, List.append_assoc]
      exact .inl ⟨_, _, _, reads_qualifiedName_star hname rest, reads_qualifiedName_star hname u,
        .inr ⟨_, _, rfl, rfl⟩⟩
  · have hnone (cs : List Char) : ∀ d ∈ (c :: cs).head?, isNameStart d = false := by
      simpa using hstart
    exact .inr ⟨fails_qualifiedName (hnone _), fails_qualifiedName (hnone _)⟩

/-- The test of a qualifier with a star. -/
def starTest : Parser NodeTest := do
  let q ← nameText
  tag ":*"
  pure (.name ⟨some q, "*"⟩)

theorem reads_starTest {n : String} (hn : IsName n) (cs : List Char) :
    Reads starTest (n.toList ++ ':' :: '*' :: cs) (.name ⟨some n, "*"⟩) cs :=
  (reads_nameText hn (isOutside_colon _)).bind ((reads_tag rfl).bind reads_pure)

theorem fails_starTest {n : String} {cs : List Char} (hn : IsName n)
    (hend : ∀ d ∈ cs.head?, isOutside d = true) (hstar : ∀ d ds, cs = ':' :: d :: ds → d ≠ '*') :
    Fails starTest (n.toList ++ cs) := by
  refine (reads_nameText hn hend).bind_fails (Fails.bind (fails_tag ?_))
  rintro ⟨ds, rfl⟩
  exact hstar '*' ds rfl rfl

theorem paired_starTest : Paired Tight Slack starTest := by
  refine paired_of_lexeme (fails_nameText (by simp)).bind fun c l rest u hl hl' hrest _ => ?_
  by_cases hstart : isNameStart c = true
  · obtain ⟨⟨qualifier, name⟩, hq, hwritten, hend, hcolon⟩ | ⟨n, hn, hname⟩ :=
      hl.of_isNameStart hstart
    · rw [← List.cons_append, ← List.cons_append, hq]
      cases qualifier with
      | none =>
        have hstar : ∀ d ds, rest = ':' :: d :: ds → d ≠ '*' :=
          fun d ds hd => (hcolon rfl d ds hd).2
        exact .inr ⟨fails_starTest hwritten.1 hend hstar,
          fails_starTest hwritten.1 (Slack.outside hrest hend)
            (hrest.trails.forall_colon (fun d hd => by rintro rfl; cases hd) hstar)⟩
      | some n =>
        obtain ⟨d, ds, hds, hd⟩ := exists_cons_of_isName hwritten.1
        have htext (x : List Char) : (QName.mk (some n) name).text.toList ++ x =
            n.toList ++ ':' :: d :: (ds ++ x) := by simp [QName.text, hds]
        have hstar (x : List Char) : ∀ e es, ':' :: d :: (ds ++ x) = ':' :: e :: es → e ≠ '*' := by
          intro e es he
          obtain ⟨rfl, -⟩ := List.cons.inj (List.cons.inj he).2
          exact ne_of_isNameStart hd (by decide)
        rw [htext, htext]
        exact .inr ⟨fails_starTest (hwritten.2 n rfl) (isOutside_colon _) (hstar rest),
          fails_starTest (hwritten.2 n rfl) (isOutside_colon _) (hstar u)⟩
    · rw [← List.cons_append, ← List.cons_append, hn, List.append_assoc, List.append_assoc]
      exact .inl ⟨_, rest, u, reads_starTest hname rest, reads_starTest hname u, hrest⟩
  · have hnone (cs : List Char) : ∀ d ∈ (c :: cs).head?, isNameStart d = false := by
      simpa using hstart
    exact .inr ⟨(fails_nameText (hnone _)).bind, (fails_nameText (hnone _)).bind⟩

end Names

/-! ## Variables, numbers and quoted texts -/

section Literals

variable {c : Char} {l rest u : List Char}

theorem paired_variableReference : Paired Tight Slack variableReference := by
  refine paired_of_lexeme (fails_tag_nil (by decide)).bind fun c l rest u hl hl' hrest _ => ?_
  by_cases hc : c = '$'
  · subst hc
    have hfails (cs : List Char) (h : ∀ d ∈ cs.head?, isNameStart d = false) :
        Fails variableReference ('$' :: cs) :=
      (reads_tag rfl).bind_fails (fails_qualifiedName h).bind
    cases hl with
    | @reference q _ hp hq hend hcolon =>
      have hreads (x : List Char) (hend : ∀ d ∈ x.head?, isOutside d = true)
          (hcolon : q.qualifier = none → ∀ d ds, x = ':' :: d :: ds → isNameStart d = false) :
          Reads variableReference ('$' :: (q.text.toList ++ x)) (.variable q) x :=
        (reads_tag rfl).bind ((reads_qualifiedName_of_end hq hend hcolon).bind reads_pure)
      rw [hp]
      exact .inl ⟨_, rest, u, hreads rest hend hcolon,
        hreads u (Slack.outside hrest hend) fun h => Slack.noName hrest (hcolon h), hrest⟩
    | single hp h =>
      subst hp
      exact .inr ⟨hfails rest (h.dollar rfl), hfails u ((h.congr hrest.trails).dollar rfl)⟩
    | name hc _ _ _ _ => exact absurd hc (by decide)
    | wildcard hc _ _ => exact absurd hc (by decide)
    | whole hc _ _ => exact absurd hc (by decide)
    | decimal hc _ _ _ => exact absurd hc (by decide)
    | fraction hc _ _ _ => exact absurd hc (by decide)
    | quoted hc _ _ => exact absurd hc (by decide)
    | double _ hc => simp [doubleSigns] at hc
  · exact .inr ⟨(fails_tag_of_head (d := '$') rfl hc).bind,
      (fails_tag_of_head (d := '$') rfl hc).bind⟩

theorem read?_point {cs : List Char} (h : ∀ d ∈ cs.head?, d.isDigit = false) :
    Number.Literal.read? ('.' :: cs) = none := by
  have htake : cs.takeWhile Char.isDigit = [] := by
    cases cs with
    | nil => rfl
    | cons d ds => simp [h d rfl]
  rw [Number.Literal.read?]
  simp [htake]

theorem fails_numberLiteral_of {cs : List Char} (h : Number.Literal.read? cs = none) :
    Fails numberLiteral cs := ⟨cs, by rw [numberLiteral, h]⟩

theorem read?_other (hdigit : c.isDigit = false) (hpoint : c ≠ '.') (cs : List Char) :
    Number.Literal.read? (c :: cs) = none := by
  have htake : (c :: cs).takeWhile Char.isDigit = [] := by simp [hdigit]
  have hdrop : (c :: cs).dropWhile Char.isDigit = c :: cs := by simp [hdigit]
  rw [Number.Literal.read?, htake, hdrop]
  split
  · next heq => exact absurd (List.cons.inj heq).1 hpoint
  · rfl
  · next heq _ => cases heq
  · next heq _ => cases heq

theorem other_of_isNameStart (h : isNameStart c = true) : c.isDigit = false ∧ c ≠ '.' := by
  have hfront := isPlainFront_of_isNameStart h
  simp only [isPlainFront, Bool.and_eq_true, bne_iff_ne, Bool.not_eq_true'] at hfront
  exact ⟨hfront.1.1.1.2, hfront.1.1.2⟩

/-- Whether the number ends the text, on which its fraction depends, is the same for both texts. -/
theorem paired_numberLiteral : Paired Tight Slack numberLiteral := by
  refine paired_of_lexeme (fails_numberLiteral_of rfl) fun c l rest u hl _ hrest _ => ?_
  have hdigits (h : ∀ d ∈ rest.head?, d.isDigit = false) : ∀ d ∈ u.head?, d.isDigit = false :=
    hrest.trails.forall_head (fun _ => not_isDigit_of_isTokenBlank) h
  have hother (hc : c.isDigit = false ∧ c ≠ '.') :
      SameOutcome Slack numberLiteral (c :: (l ++ rest)) (c :: (l ++ u)) :=
    .inr ⟨fails_numberLiteral_of (read?_other hc.1 hc.2 _),
      fails_numberLiteral_of (read?_other hc.1 hc.2 _)⟩
  cases hl with
  | name hc _ _ _ _ => exact hother (other_of_isNameStart hc)
  | wildcard hc _ _ => exact hother (other_of_isNameStart hc)
  | reference hc _ _ _ _ => exact hother (hc ▸ by decide)
  | whole hc hp hend =>
    have hall : ∀ d ∈ c :: l, d.isDigit = true := by simpa [hc] using hp
    have hend' : ∀ d ∈ u.head?, d.isDigit = false ∧ d ≠ '.' :=
      hrest.trails.forall_head (fun d hd => ⟨not_isDigit_of_isTokenBlank hd, by
        rintro rfl
        cases hd⟩) hend
    exact .inl ⟨_, rest, u, reads_numberLiteral_of (read?_whole hall (by simp) hend),
      reads_numberLiteral_of (read?_whole hall (by simp) hend'), hrest⟩
  | @decimal ds fs hc hp hds hend =>
    have hall : ∀ d ∈ c :: ds, d.isDigit = true := by
      simpa [hc] using fun d hd => hds d (List.mem_append_left _ hd)
    have hfs : ∀ d ∈ fs, d.isDigit = true := fun d hd => hds d (List.mem_append_right _ hd)
    have htext (x : List Char) : c :: (l ++ x) = (c :: ds) ++ '.' :: (fs ++ x) := by simp [hp]
    have hread := read?_decimal hall (by simp) hfs hend
    have hread' := read?_decimal hall (by simp) hfs (hdigits hend)
    simp only [← hrest.nil_iff] at hread'
    rw [htext, htext]
    exact .inl ⟨_, rest, u, reads_numberLiteral_of hread, reads_numberLiteral_of hread', hrest⟩
  | fraction hc hne hp hend =>
    subst hc
    exact .inl ⟨_, rest, u, reads_numberLiteral_of (read?_fraction hp hne hend),
      reads_numberLiteral_of (read?_fraction hp hne (hdigits hend)), hrest⟩
  | quoted hc _ _ => exact hother (by rcases hc with rfl | rfl <;> decide)
  | @double d hp hc =>
    subst hp
    have hc' : c.isDigit = false := (outside_of_doubleSigns _ hc c (by simp)).2.1
    have hd : d.isDigit = false := (outside_of_doubleSigns _ hc d (by simp)).2.1
    have hfails (x : List Char) : Fails numberLiteral (c :: ([d] ++ x)) := by
      by_cases hpoint : c = '.'
      · subst hpoint
        exact fails_numberLiteral_of (read?_point (by simpa using hd))
      · exact fails_numberLiteral_of (read?_other hc' hpoint _)
    exact .inr ⟨hfails rest, hfails u⟩
  | single hp h =>
    subst hp
    by_cases hpoint : c = '.'
    · subst hpoint
      exact .inr ⟨fails_numberLiteral_of (read?_point (h.point rfl)),
        fails_numberLiteral_of (read?_point (hdigits (h.point rfl)))⟩
    · exact hother ⟨h.notDigit, hpoint⟩

theorem fails_quotedBy {quote : String} {c : Char} {cs : List Char} (hquote : quote.toList = [c])
    (hcs : c ∉ cs) : Fails (quotedBy quote c) (c :: cs) := by
  have hall : ∀ d ∈ cs, (d != c) = true := by
    intro d hd
    rw [bne_iff_ne]
    rintro rfl
    exact hcs hd
  have htake : Reads (takeWhile (· != c)) cs cs [] := by
    rw [Reads, takeWhile, List.takeWhile_eq_self_iff.2 hall, List.dropWhile_eq_nil_iff.2 hall]
  exact (reads_tag (by simp [hquote])).bind_fails
    (htake.bind_fails (fails_tag_nil (by simp [hquote])).bind)

theorem paired_quotedBy {quote : String} {c : Char} (hquote : quote.toList = [c])
    (hc : c = '\'' ∨ c = '"') : Paired Tight Slack (quotedBy quote c) := by
  have hhead : quote.toList.head? = some c := by rw [hquote]; rfl
  refine paired_of_lexeme (fails_tag_nil (by simp [hquote])).bind fun d l rest u hl _ hrest _ => ?_
  by_cases hd : d = c
  · subst hd
    cases hl with
    | @quoted s _ hp hs =>
      have htext (x : List Char) : d :: (l ++ x) = d :: (s ++ d :: x) := by simp [hp]
      rw [htext, htext]
      exact .inl ⟨_, rest, u, reads_quotedBy hquote hs rest, reads_quotedBy hquote hs u, hrest⟩
    | single hp h =>
      subst hp
      exact .inr ⟨fails_quotedBy hquote (h.quote hc),
        fails_quotedBy hquote ((h.congr hrest.trails).quote hc)⟩
    | name hstart _ _ _ _ => rcases hc with rfl | rfl <;> exact absurd hstart (by decide)
    | wildcard hstart _ _ => rcases hc with rfl | rfl <;> exact absurd hstart (by decide)
    | reference hdollar _ _ _ _ => rcases hc with rfl | rfl <;> cases hdollar
    | whole hdigit _ _ => rcases hc with rfl | rfl <;> cases hdigit
    | decimal hdigit _ _ _ => rcases hc with rfl | rfl <;> cases hdigit
    | fraction hpoint _ _ _ => rcases hc with rfl | rfl <;> cases hpoint
    | double _ hmem => rcases hc with rfl | rfl <;> simp [doubleSigns] at hmem
  · exact .inr ⟨(fails_tag_of_head hhead hd).bind, (fails_tag_of_head hhead hd).bind⟩

theorem paired_stringLiteral : Paired Tight Slack stringLiteral :=
  (paired_quotedBy rfl (.inl rfl)).orElse (paired_quotedBy rfl (.inr rfl)).refused

end Literals

/-! ## Node tests and the heads of steps -/

theorem paired_closeBracket : Paired Tight Slack (tag ")") := paired_sign rfl (by decide)

theorem paired_nodeTypeTest : Paired Tight Slack nodeTypeTest := by
  have hwords : ∀ w ∈ [("text", NodeType.text), ("node", .node), ("comment", .comment),
      ("processing-instruction", .instruction)], IsName w.1 := by
    simp only [List.forall_mem_cons]
    exact ⟨rfl, rfl, rfl, rfl, by simp⟩
  refine Paired.orElse ?_ (Paired.refused ?_)
  · refine (paired_word (w := "processing-instruction") rfl).bind fun _ => ?_
    refine paired_openBracket.bind fun _ => paired_stringLiteral.bind fun _ => ?_
    exact ((paired_token paired_closeBracket).weaken tight_le_slack).map _
  · exact (paired_oneOf hwords).bind fun _ => paired_openBracket.bind fun _ =>
      paired_closeBracket.map _

theorem paired_nodeTest : Paired Tight (Slack ⊔ Stuck) nodeTest := by
  have hstar : Paired Tight Slack (tag "*") := paired_sign rfl (by decide)
  have hname := paired_qualifiedName.weaken (sup_le_sup_left colon_le_stuck Slack)
  exact ((hstar.map _).weaken le_sup_left).orElse <| Paired.refused <|
    (paired_nodeTypeTest.weaken le_sup_left).orElse <| Paired.refused <|
    (paired_starTest.weaken le_sup_left).orElse <| Paired.refused <| hname.map _

theorem paired_axis : Paired Tight Tight axis := by
  have hwords : ∀ w ∈ axisNames, IsName w.1 := by
    intro w hw
    obtain ⟨a, -, rfl⟩ := List.mem_map.1 hw
    exact isName_axis a
  exact (paired_oneOf hwords).bind fun _ => paired_doubleColon.map _

theorem paired_stepHead : Paired Tight (Slack ⊔ Stuck) stepHead := by
  have hparent : Paired Tight (Slack ⊔ Stuck) (tag "..") :=
    (paired_doubleSign rfl (by decide)).weaken le_sup_left
  have hattribute : Paired Tight (Slack ⊔ Stuck) (do
      tag "@"
      let t ← nodeTest
      pure (Axis.attribute, t)) := paired_attributeSign.bind fun _ => paired_nodeTest.map _
  have hnamed : Paired Tight (Slack ⊔ Stuck) (do
      let a ← optional axis
      let t ← nodeTest
      pure (a.getD .child, t)) :=
    paired_axis.optional_bind (fun _ => paired_nodeTest.map _) (paired_nodeTest.map _).refused
  exact (hparent.map _).orElse <| Paired.orElse
    ((paired_point.map _).strengthen Refused.of_map) <| Paired.refused <| Paired.refused <|
    hattribute.orElse hnamed.refused

end PathQuery.Grammar
