import PathQuery.Proofs.Tokens

/-!
# Lexemes

An expression is written in names, variables, literals and signs, each as long as it can be. Where
one ends and the next begins, blanks may be inserted.

* names: `Lexeme`, `Alone`; `Spaced`: blanks are inserted behind some lexemes; `Loose`: in front of
  the first one, too; `Trails`: what a lexeme needs to know of the text behind it.
* **`exists_lexeme`**: every text starts with a lexeme. **`Lexeme.congr`**: it stays one when blanks
  are inserted behind it.
-/

open PathQuery.Parser

namespace PathQuery.Grammar

/-! ## The front of a text -/

/-- The signs of two characters. -/
def doubleSigns : List (List Char) :=
  [['/', '/'], [':', ':'], ['.', '.'], ['<', '='], ['>', '='], ['!', '=']]

/-- The characters of the signs begin no name, number, reference or quoted text. -/
theorem outside_of_doubleSigns : ∀ sign ∈ doubleSigns, ∀ c ∈ sign,
    isNameStart c = false ∧ c.isDigit = false ∧ c ≠ '$' ∧ c ≠ '\'' ∧ c ≠ '"' := by
  simp only [doubleSigns, List.mem_cons, List.not_mem_nil, or_false, forall_eq_or_imp, forall_eq]
  refine ⟨?_, ?_, ?_, ?_, ?_, ?_⟩ <;> decide

/-- A sign is known by its first character. -/
theorem eq_of_doubleSigns : ∀ sign ∈ doubleSigns, ∀ sign' ∈ doubleSigns,
    sign'.head? = sign.head? → sign' = sign := by
  decide

/-- The character begins no name and no number, and no longer sign with what follows it. A dollar
alone stands in front of no name, a point alone in front of no digit, and a quote alone is not
closed. -/
structure Alone (c : Char) (rest : List Char) : Prop where
  notStart : isNameStart c = false
  notDigit : c.isDigit = false
  dollar : c = '$' → ∀ d ∈ rest.head?, isNameStart d = false
  point : c = '.' → ∀ d ∈ rest.head?, d.isDigit = false
  quote : c = '\'' ∨ c = '"' → c ∉ rest
  double : ∀ d ∈ rest.head?, [c, d] ∉ doubleSigns

/-- In front of `rest`, the characters `c :: p` are a word of the language, as long as the text
allows: a name with its qualifier, a qualifier with a star, a variable, a number, a quoted text, a
sign of two characters or a single character. -/
inductive Lexeme (c : Char) (p rest : List Char) : Prop
  | name {q : QName} (hc : isNameStart c = true) (hp : c :: p = q.text.toList) (hq : q.IsWritten)
      (hend : ∀ d ∈ rest.head?, isOutside d = true)
      (hcolon : q.qualifier = none → ∀ d ds, rest = ':' :: d :: ds →
        isNameStart d = false ∧ d ≠ '*')
  | wildcard {n : String} (hc : isNameStart c = true) (hp : c :: p = n.toList ++ [':', '*'])
      (hn : IsName n)
  | reference {q : QName} (hc : c = '$') (hp : p = q.text.toList) (hq : q.IsWritten)
      (hend : ∀ d ∈ rest.head?, isOutside d = true)
      (hcolon : q.qualifier = none → ∀ d ds, rest = ':' :: d :: ds → isNameStart d = false)
  | whole (hc : c.isDigit = true) (hp : ∀ d ∈ p, d.isDigit = true)
      (hend : ∀ d ∈ rest.head?, d.isDigit = false ∧ d ≠ '.')
  | decimal {ds fs : List Char} (hc : c.isDigit = true) (hp : p = ds ++ '.' :: fs)
      (hds : ∀ d ∈ ds ++ fs, d.isDigit = true) (hend : ∀ d ∈ rest.head?, d.isDigit = false)
  | fraction (hc : c = '.') (hne : p ≠ []) (hp : ∀ d ∈ p, d.isDigit = true)
      (hend : ∀ d ∈ rest.head?, d.isDigit = false)
  | quoted {s : List Char} (hc : c = '\'' ∨ c = '"') (hp : p = s ++ [c]) (hs : c ∉ s)
  | double {d : Char} (hp : p = [d]) (hc : [c, d] ∈ doubleSigns)
  | single (hp : p = []) (h : Alone c rest)

variable {c d : Char} {p rest u s t : List Char}

theorem isNameChar_of_isNameStart (h : isNameStart c = true) : isNameChar c = true := by
  rw [isNameStart, Bool.or_eq_true] at h
  rcases h with h | h <;> simp [isNameChar, Text.isLetterOrNumeral, h]

theorem isOutside_of_isTokenBlank (h : Text.isTokenBlank c = true) : isOutside c = true := by
  simp only [Text.isTokenBlank, Bool.or_eq_true, beq_iff_eq] at h
  rcases h with ((rfl | rfl) | rfl) | rfl <;> decide

theorem isOutside_of_isNameChar (h : isNameChar c = false) : isOutside c = true := by
  rw [isOutside, h, Bool.not_false, Bool.and_true, Bool.not_eq_true']
  by_contra hstart
  rw [isNameChar_of_isNameStart (Bool.of_not_eq_false hstart)] at h
  cases h

theorem head_dropWhile {test : Char → Bool} {cs : List Char} :
    ∀ c ∈ (cs.dropWhile test).head?, test c = false := by
  intro c hc
  have h := List.head?_dropWhile_not test cs
  rw [Option.mem_def] at hc
  simpa [hc] using h

/-- A name stands at the front of a text that begins with a letter or an underscore. -/
theorem exists_name (h : isNameStart c = true) (cs : List Char) :
    ∃ (n : String) (rest : List Char), c :: cs = n.toList ++ rest ∧ IsName n ∧
      ∀ d ∈ rest.head?, isOutside d = true := by
  have hread := nameText_eq (c :: cs)
  rw [if_neg (by simp [h])] at hread
  refine ⟨_, ((c :: cs).dropWhile isNameStart).dropWhile isNameChar, ?_,
    gives_nameText _ _ _ hread, fun d hd => ?_⟩
  · rw [String.toList_ofList, List.append_assoc, List.takeWhile_append_dropWhile,
      List.takeWhile_append_dropWhile]
  · exact isOutside_of_isNameChar (head_dropWhile d hd)

/-- A name with its qualifier, if a colon and another name follow the first name. -/
theorem exists_qualifiedName (h : isNameStart c = true) (cs : List Char) :
    ∃ (q : QName) (rest : List Char), c :: cs = q.text.toList ++ rest ∧ q.IsWritten ∧
      (∀ d ∈ rest.head?, isOutside d = true) ∧
      (q.qualifier = none → ∀ d ds, rest = ':' :: d :: ds → isNameStart d = false) := by
  obtain ⟨n, rest, hsplit, hn, hend⟩ := exists_name h cs
  by_cases hcolon : ∃ d ds, rest = ':' :: d :: ds ∧ isNameStart d = true
  · obtain ⟨d, ds, rfl, hd⟩ := hcolon
    obtain ⟨m, rest, hrest, hm, hend⟩ := exists_name hd ds
    refine ⟨⟨some n, m⟩, rest, ?_, ⟨hm, by simpa using hn⟩, hend, by simp⟩
    simp [hsplit, hrest, QName.text]
  · refine ⟨⟨none, n⟩, rest, hsplit, ⟨hn, by simp⟩, hend, fun _ d ds hd => ?_⟩
    by_contra hstart
    exact hcolon ⟨d, ds, hd, by simpa using hstart⟩

theorem digits_split (cs : List Char) :
    ∃ ds rest, cs = ds ++ rest ∧ (∀ d ∈ ds, d.isDigit = true) ∧
      ∀ d ∈ rest.head?, d.isDigit = false :=
  ⟨cs.takeWhile Char.isDigit, cs.dropWhile Char.isDigit, List.takeWhile_append_dropWhile.symm,
    fun _ hd => List.mem_takeWhile_imp hd, head_dropWhile⟩

/-- **Every text starts with a lexeme.** -/
theorem exists_lexeme (c : Char) (cs : List Char) :
    ∃ p rest, cs = p ++ rest ∧ Lexeme c p rest := by
  by_cases hstart : isNameStart c = true
  · obtain ⟨q, rest, hsplit, hq, hend, hcolon⟩ := exists_qualifiedName hstart cs
    obtain ⟨d, ds, hd, -⟩ := exists_cons_of_isWritten hq
    obtain ⟨rfl, rfl⟩ : c = d ∧ cs = ds ++ rest := by simpa [hd] using hsplit
    by_cases hstar : q.qualifier = none ∧ ∃ es, rest = ':' :: '*' :: es
    · obtain ⟨hnone, es, rfl⟩ := hstar
      obtain ⟨qualifier, n⟩ := q
      obtain rfl : qualifier = none := hnone
      refine ⟨ds ++ [':', '*'], es, by simp, .wildcard hstart ?_ hq.1⟩
      rw [← List.cons_append, ← hd]
      rfl
    · refine ⟨ds, rest, rfl, .name hstart hd.symm hq hend fun hnone e es he => ?_⟩
      refine ⟨hcolon hnone e es he, ?_⟩
      rintro rfl
      exact hstar ⟨hnone, es, he⟩
  by_cases hdigit : c.isDigit = true
  · obtain ⟨ds, rest, rfl, hds, hend⟩ := digits_split cs
    by_cases hpoint : ∃ es, rest = '.' :: es
    · obtain ⟨es, rfl⟩ := hpoint
      obtain ⟨fs, rest, rfl, hfs, hend⟩ := digits_split es
      refine ⟨ds ++ '.' :: fs, rest, by simp, .decimal hdigit rfl (fun d hd => ?_) hend⟩
      exact (List.mem_append.1 hd).elim (hds d) (hfs d)
    · refine ⟨ds, rest, rfl, .whole hdigit hds fun d hd => ⟨hend d hd, ?_⟩⟩
      rintro rfl
      exact hpoint (List.head?_eq_some_iff.1 hd)
  by_cases hdollar : c = '$' ∧ ∃ d ds, cs = d :: ds ∧ isNameStart d = true
  · obtain ⟨hc, d, ds, rfl, hd⟩ := hdollar
    obtain ⟨q, rest, hsplit, hq, hend, hcolon⟩ := exists_qualifiedName hd ds
    exact ⟨_, rest, hsplit, .reference hc rfl hq hend hcolon⟩
  by_cases hpoint : c = '.' ∧ ∃ d ds, cs = d :: ds ∧ d.isDigit = true
  · obtain ⟨hc, d, ds, rfl, hd⟩ := hpoint
    obtain ⟨fs, rest, rfl, hfs, hend⟩ := digits_split ds
    exact ⟨d :: fs, rest, rfl, .fraction hc (by simp) (by simpa [hd] using hfs) hend⟩
  by_cases hquote : (c = '\'' ∨ c = '"') ∧ c ∈ cs
  · obtain ⟨s, rest, rfl, hs⟩ := List.eq_append_cons_of_mem hquote.2
    exact ⟨s ++ [c], rest, by simp, .quoted hquote.1 rfl hs⟩
  by_cases hdouble : ∃ d ds, cs = d :: ds ∧ [c, d] ∈ doubleSigns
  · obtain ⟨d, ds, rfl, hd⟩ := hdouble
    exact ⟨[d], ds, rfl, .double rfl hd⟩
  -- No longer lexeme starts here.
  have hhead {P : Char → Prop} (h : ¬∃ d ds, cs = d :: ds ∧ P d) : ∀ d ∈ cs.head?, ¬P d := by
    intro d hd hP
    obtain ⟨ds, hds⟩ := List.head?_eq_some_iff.1 hd
    exact h ⟨d, ds, hds, hP⟩
  refine ⟨[], cs, rfl, .single rfl ⟨by simpa using hstart, by simpa using hdigit, ?_, ?_, ?_, ?_⟩⟩
  · intro hc d hd
    simpa using hhead (fun h => hdollar ⟨hc, h⟩) d hd
  · intro hc d hd
    simpa using hhead (fun h => hpoint ⟨hc, h⟩) d hd
  · exact fun hc hmem => hquote ⟨hc, hmem⟩
  · exact hhead hdouble

/-! ## The text behind a lexeme -/

/-- `u` goes on as `rest` does, or with blanks instead. -/
structure Trails (rest u : List Char) : Prop where
  head : ∀ c ∈ u.head?, Text.isTokenBlank c = true ∨ c ∈ rest.head?
  second : ∀ c d cs, u = c :: d :: cs → Text.isTokenBlank c = true ∨ Text.isTokenBlank d = true ∨
    ∃ ds, rest = c :: d :: ds
  mem : ∀ c ∈ u, Text.isTokenBlank c = true ∨ c ∈ rest

theorem trails_of_front (h : u <+: rest) : Trails rest u := by
  obtain ⟨v, rfl⟩ := h
  refine ⟨fun c hc => .inr ?_, fun c d cs hu => .inr (.inr ⟨cs ++ v, by simp [hu]⟩),
    fun c hc => .inr (List.mem_append_left v hc)⟩
  obtain ⟨cs, rfl⟩ := List.head?_eq_some_iff.1 hc
  simp

theorem not_double_of_blank (h : Text.isTokenBlank d = true) : [c, d] ∉ doubleSigns := by
  simp only [Text.isTokenBlank, Bool.or_eq_true, beq_iff_eq] at h
  rcases h with ((rfl | rfl) | rfl) | rfl <;> simp [doubleSigns]

theorem not_isDigit_of_isTokenBlank (h : Text.isTokenBlank c = true) : c.isDigit = false := by
  by_contra hdigit
  rw [isTokenBlank_of_isDigit (Bool.of_not_eq_false hdigit)] at h
  cases h

theorem not_isNameStart_of_isTokenBlank (h : Text.isTokenBlank c = true) :
    isNameStart c = false := by
  by_contra hstart
  rw [isTokenBlank_of_isNameStart (Bool.of_not_eq_false hstart)] at h
  cases h

theorem Trails.forall_head {P : Char → Prop} (h : Trails rest u)
    (hblank : ∀ c, Text.isTokenBlank c = true → P c) (hrest : ∀ c ∈ rest.head?, P c) :
    ∀ c ∈ u.head?, P c :=
  fun c hc => (h.head c hc).elim (hblank c) (hrest c)

/-- What stands behind a colon. -/
theorem Trails.forall_colon {P : Char → Prop} (h : Trails rest u)
    (hblank : ∀ c, Text.isTokenBlank c = true → P c)
    (hrest : ∀ c cs, rest = ':' :: c :: cs → P c) : ∀ c cs, u = ':' :: c :: cs → P c := by
  intro c cs hu
  obtain hcolon | hc | ⟨ds, hds⟩ := h.second ':' c cs hu
  · cases hcolon
  · exact hblank c hc
  · exact hrest c ds hds

theorem Alone.congr (h : Alone c rest) (hu : Trails rest u) : Alone c u where
  notStart := h.notStart
  notDigit := h.notDigit
  dollar hc := hu.forall_head (fun _ => not_isNameStart_of_isTokenBlank) (h.dollar hc)
  point hc := hu.forall_head (fun _ => not_isDigit_of_isTokenBlank) (h.point hc)
  quote hc hmem := by
    obtain hblank | hmem := hu.mem c hmem
    · rcases hc with rfl | rfl <;> cases hblank
    · exact h.quote hc hmem
  double := hu.forall_head (fun _ => not_double_of_blank) h.double

/-- **A lexeme stays one when blanks are inserted behind it.** -/
theorem Lexeme.congr (h : Lexeme c p rest) (hu : Trails rest u) : Lexeme c p u := by
  have hblank (d : Char) (hd : Text.isTokenBlank d = true) : isNameStart d = false ∧ d ≠ '*' :=
    ⟨not_isNameStart_of_isTokenBlank hd, by rintro rfl; cases hd⟩
  have hpoint (d : Char) (hd : Text.isTokenBlank d = true) : d.isDigit = false ∧ d ≠ '.' :=
    ⟨not_isDigit_of_isTokenBlank hd, by rintro rfl; cases hd⟩
  cases h with
  | name hc hp hq hend hcolon =>
    exact .name hc hp hq (hu.forall_head (fun _ => isOutside_of_isTokenBlank) hend)
      fun hnone => hu.forall_colon hblank (hcolon hnone)
  | wildcard hc hp hn => exact .wildcard hc hp hn
  | reference hc hp hq hend hcolon =>
    exact .reference hc hp hq (hu.forall_head (fun _ => isOutside_of_isTokenBlank) hend)
      fun hnone => hu.forall_colon (fun d hd => (hblank d hd).1) (hcolon hnone)
  | whole hc hp hend => exact .whole hc hp (hu.forall_head hpoint hend)
  | decimal hc hp hds hend =>
    exact .decimal hc hp hds (hu.forall_head (fun _ => not_isDigit_of_isTokenBlank) hend)
  | fraction hc hne hp hend =>
    exact .fraction hc hne hp (hu.forall_head (fun _ => not_isDigit_of_isTokenBlank) hend)
  | quoted hc hp hs => exact .quoted hc hp hs
  | double hp hc => exact .double hp hc
  | single hp h => exact .single hp (h.congr hu)

/-! ## Blanks between lexemes -/

/-- The second text is the first one with blanks inserted behind some of its lexemes: not behind the
last one, and not behind those that are glued to what follows. -/
inductive Spaced (glued : List Char → Prop) : List Char → List Char → Prop
  | nil : Spaced glued [] []
  | cons {c : Char} {p rest g u : List Char} (hp : Lexeme c p rest)
      (hgap : ∀ d ∈ g, Text.isTokenBlank d = true)
      (hplace : g ≠ [] → rest ≠ [] ∧ ¬glued (c :: p)) (h : Spaced glued rest u) :
      Spaced glued (c :: (p ++ rest)) (c :: (p ++ (g ++ u)))

/-- Blanks are inserted in front of the first lexeme, too. -/
def Loose (glued : List Char → Prop) (s t : List Char) : Prop :=
  ∃ gap u, t = gap ++ u ∧ (∀ d ∈ gap, Text.isTokenBlank d = true) ∧ (gap ≠ [] → s ≠ []) ∧
    Spaced glued s u

variable {glued : List Char → Prop}

theorem Spaced.loose (h : Spaced glued s t) : Loose glued s t := ⟨[], t, rfl, by simp, by simp, h⟩

theorem Spaced.head_eq (h : Spaced glued s t) : s.head? = t.head? := by cases h <;> rfl

theorem Spaced.length_le (h : Spaced glued s t) : s.length ≤ t.length := by
  induction h with
  | nil => exact le_rfl
  | cons _ _ _ _ ih =>
    simp only [List.length_cons, List.length_append]
    omega

theorem Spaced.mem (h : Spaced glued s t) : ∀ c ∈ t, Text.isTokenBlank c = true ∨ c ∈ s := by
  induction h with
  | nil => simp
  | cons _ hgap _ _ ih =>
    intro d hd
    simp only [List.mem_cons, List.mem_append] at hd ⊢
    rcases hd with rfl | hd | hd | hd
    · exact .inr (.inl rfl)
    · exact .inr (.inr (.inl hd))
    · exact .inl (hgap d hd)
    · exact (ih d hd).imp_right fun hd => .inr (.inr hd)

theorem Loose.nil_iff (h : Loose glued s t) : s = [] ↔ t = [] := by
  obtain ⟨gap, u, rfl, -, hplace, hu⟩ := h
  have hnil : s = [] ↔ u = [] := by
    rw [← List.head?_eq_none_iff, hu.head_eq, List.head?_eq_none_iff]
  rw [List.append_eq_nil_iff, ← hnil]
  exact ⟨fun hs => ⟨by_contra fun hgap => hplace hgap hs, hs⟩, fun hs => hs.2⟩

theorem Loose.trails (h : Loose glued s t) : Trails s t := by
  obtain ⟨gap, u, rfl, hgap, -, hu⟩ := h
  refine ⟨fun c hc => ?_, fun c d cs hcs => ?_, fun c hc => ?_⟩
  · cases gap with
    | nil => exact .inr (hu.head_eq ▸ hc)
    | cons g gap =>
      obtain rfl : g = c := by simpa using hc
      exact .inl (hgap g (List.mem_cons_self ..))
  · cases gap with
    | cons g gap =>
      obtain ⟨rfl, -⟩ := List.cons.inj hcs
      exact .inl (hgap g (List.mem_cons_self ..))
    | nil =>
      cases hu with
      | nil => simp at hcs
      | @cons c' p rest gap' u' hp hgap' hplace hu' =>
        obtain ⟨rfl, htail⟩ := List.cons.inj hcs
        cases p with
        | cons e p =>
          obtain ⟨rfl, -⟩ := List.cons.inj htail
          exact .inr (.inr ⟨p ++ rest, rfl⟩)
        | nil =>
          cases gap' with
          | cons g gap' =>
            obtain ⟨rfl, -⟩ := List.cons.inj htail
            exact .inr (.inl (hgap' g (List.mem_cons_self ..)))
          | nil =>
            obtain rfl : u' = d :: cs := htail
            obtain ⟨ds, hds⟩ := List.head?_eq_some_iff.1 hu'.head_eq
            exact .inr (.inr ⟨ds, by rw [hds]; rfl⟩)
  · rcases List.mem_append.1 hc with hc | hc
    · exact .inl (hgap c hc)
    · exact hu.mem c hc

/-- Two texts that are alike but for blanks start with the same lexeme. -/
theorem Spaced.exists_lexeme (h : Spaced glued s t) :
    (s = [] ∧ t = []) ∨ ∃ c p rest u, s = c :: (p ++ rest) ∧ t = c :: (p ++ u) ∧ Lexeme c p rest ∧
      Lexeme c p u ∧ Loose glued rest u ∧ (glued (c :: p) → Spaced glued rest u) := by
  cases h with
  | nil => exact .inl ⟨rfl, rfl⟩
  | @cons c p rest gap u hp hgap hplace hu =>
    have hloose : Loose glued rest (gap ++ u) :=
      ⟨gap, u, rfl, hgap, fun hne => (hplace hne).1, hu⟩
    refine .inr ⟨c, p, rest, gap ++ u, rfl, rfl, hp, hp.congr hloose.trails, hloose, fun hc => ?_⟩
    cases gap with
    | nil => exact hu
    | cons g gap => exact absurd hc (hplace (by simp)).2

theorem Spaced.refl (s : List Char) : Spaced glued s s := by
  induction hn : s.length using Nat.strongRecOn generalizing s with
  | ind n ih =>
    cases s with
    | nil => exact .nil
    | cons c cs =>
      obtain ⟨p, rest, rfl, hp⟩ := Grammar.exists_lexeme c cs
      have hlt : rest.length < n := by
        rw [← hn, List.length_cons, List.length_append]
        omega
      exact .cons (g := []) hp (by simp) (by simp) (ih rest.length hlt rest rfl)

/-! ## Blanks in front -/

/-- A character that is a lexeme by itself, whatever follows. -/
def isPlain (c : Char) : Bool :=
  !isNameStart c && !c.isDigit && !(['$', '.', '\'', '"', '/', ':', '<', '>', '!'].contains c)

theorem isPlain_of_isTokenBlank (h : Text.isTokenBlank c = true) : isPlain c = true := by
  simp only [Text.isTokenBlank, Bool.or_eq_true, beq_iff_eq] at h
  rcases h with ((rfl | rfl) | rfl) | rfl <;> decide

theorem Lexeme.eq_nil (h : Lexeme c p rest) (hc : isPlain c = true) : p = [] := by
  simp only [isPlain, Bool.and_eq_true, Bool.not_eq_true'] at hc
  obtain ⟨⟨hstart, hdigit⟩, hother⟩ := hc
  cases h with
  | name hc _ _ _ _ => simp [hstart] at hc
  | wildcard hc _ _ => simp [hstart] at hc
  | reference hc _ _ _ _ => simp [hc] at hother
  | whole hc _ _ => simp [hdigit] at hc
  | decimal hc _ _ _ => simp [hdigit] at hc
  | fraction hc _ _ _ => simp [hc] at hother
  | quoted hc _ _ => rcases hc with rfl | rfl <;> simp at hother
  | double _ hc =>
    have hsigns : ∀ sign ∈ doubleSigns, ∀ c ∈ sign.head?,
        ['$', '.', '\'', '"', '/', ':', '<', '>', '!'].contains c = true := by
      simp [doubleSigns]
    rw [hsigns _ hc _ rfl] at hother
    cases hother
  | single hp _ => exact hp

/-- Where a sign of two characters might stand, it does, or its first character stands alone, or the
point of a fraction does. -/
theorem Lexeme.of_double (h : Lexeme c p rest) (hcd : [c, d] ∈ doubleSigns) :
    p = [d] ∨ (p = [] ∧ ∀ e ∈ rest.head?, e ≠ d) ∨
      (c = '.' ∧ ∃ e es, p = e :: es ∧ e.isDigit = true) := by
  obtain ⟨hstart, hdigit, hdollar, hsingle, hdouble⟩ :=
    outside_of_doubleSigns _ hcd c List.mem_cons_self
  cases h with
  | name hc _ _ _ _ => simp [hstart] at hc
  | wildcard hc _ _ => simp [hstart] at hc
  | reference hc _ _ _ _ => exact absurd hc hdollar
  | whole hc _ _ => simp [hdigit] at hc
  | decimal hc _ _ _ => simp [hdigit] at hc
  | fraction hc hne hp _ =>
    obtain ⟨e, es, rfl⟩ := List.exists_cons_of_ne_nil hne
    exact .inr (.inr ⟨hc, e, es, rfl, hp e (List.mem_cons_self ..)⟩)
  | quoted hc _ _ => exact absurd hc (not_or.2 ⟨hsingle, hdouble⟩)
  | @double e hp he =>
    have hsame : [c, e] = [c, d] := eq_of_doubleSigns _ hcd _ he rfl
    exact .inl (hp.trans (List.cons.inj hsame).2)
  | single hp h =>
    refine .inr (.inl ⟨hp, fun e he => ?_⟩)
    rintro rfl
    exact h.double e he hcd

theorem skip_cons_of_blank (h : Text.isTokenBlank c = true) (cs : List Char) :
    skip (c :: cs) = skip cs := List.dropWhile_cons_of_pos h

theorem skip_append_of_blank {gap : List Char} (h : ∀ d ∈ gap, Text.isTokenBlank d = true)
    (cs : List Char) : skip (gap ++ cs) = skip cs := List.dropWhile_append_of_pos h

theorem Spaced.skip (h : Spaced glued s t) : Spaced glued (skip s) (skip t) := by
  induction h with
  | nil => exact .nil
  | @cons c p rest gap u hp hgap hplace hu ih =>
    by_cases hc : Text.isTokenBlank c = true
    · obtain rfl := hp.eq_nil (isPlain_of_isTokenBlank hc)
      rw [skip_cons_of_blank hc, skip_cons_of_blank hc, List.nil_append, List.nil_append,
        skip_append_of_blank hgap]
      exact ih
    · have hfront (cs : List Char) : Parser.skip (c :: cs) = c :: cs :=
        skip_eq_self (by simpa using hc)
      rw [hfront, hfront]
      exact .cons hp hgap hplace hu

theorem Loose.skip (h : Loose glued s t) : Spaced glued (skip s) (skip t) := by
  obtain ⟨gap, u, rfl, hgap, -, hu⟩ := h
  rw [skip_append_of_blank hgap]
  exact hu.skip

/-! ## Blanks at the end -/

theorem isBlank_of_isTokenBlank (h : Text.isTokenBlank c = true) : Text.isBlank c = true := by
  simp only [Text.isTokenBlank, Bool.or_eq_true, beq_iff_eq] at h
  rcases h with ((rfl | rfl) | rfl) | rfl <;> decide

theorem trimEnd_append (cs ds : List Char) : Text.trimEnd (cs ++ ds) =
    if ds.all Text.isBlank then Text.trimEnd cs else cs ++ Text.trimEnd ds := by
  rw [Text.trimEnd, List.reverse_append, List.dropWhile_append]
  by_cases h : ds.all Text.isBlank = true
  · rw [if_pos h, if_pos (by simpa using h), Text.trimEnd]
  · rw [if_neg h, if_neg (by simpa using h), List.reverse_append, List.reverse_reverse,
      Text.trimEnd]

theorem trimEnd_front (cs : List Char) : Text.trimEnd cs <+: cs := by
  rw [Text.trimEnd, ← List.reverse_suffix, List.reverse_reverse]
  exact List.dropWhile_suffix _

theorem Spaced.mem_right (h : Spaced glued s t) : ∀ c ∈ s, c ∈ t := by
  induction h with
  | nil => simp
  | cons _ _ _ _ ih =>
    intro d hd
    simp only [List.mem_cons, List.mem_append] at hd ⊢
    exact hd.imp_right fun hd => hd.imp_right fun hd => .inr (ih d hd)

/-- What is left without the blanks at the end is spaced as before. -/
theorem Spaced.trimEnd (h : Spaced glued s t) :
    Spaced glued (Text.trimEnd s) (Text.trimEnd t) := by
  induction h with
  | nil => exact .nil
  | @cons c p rest gap u hp hgap hplace hu ih =>
    rw [← List.cons_append, ← List.cons_append, trimEnd_append, trimEnd_append]
    by_cases hrest : ∀ d ∈ rest, Text.isBlank d = true
    · -- Nothing but blanks follows, in the other text as well.
      have hall : ∀ d ∈ gap ++ u, Text.isBlank d = true := by
        intro d hd
        rcases List.mem_append.1 hd with hd | hd
        · exact isBlank_of_isTokenBlank (hgap d hd)
        · exact (hu.mem d hd).elim isBlank_of_isTokenBlank (hrest d)
      rw [if_pos (List.all_eq_true.2 hrest), if_pos (List.all_eq_true.2 hall)]
      exact .refl _
    · have hsome : ¬∀ d ∈ u, Text.isBlank d = true :=
        fun hall => hrest fun d hd => hall d (hu.mem_right d hd)
      have hsome' : ¬∀ d ∈ gap ++ u, Text.isBlank d = true :=
        fun hall => hsome fun d hd => hall d (List.mem_append_right gap hd)
      rw [if_neg (by rwa [List.all_eq_true]), if_neg (by rwa [List.all_eq_true]), trimEnd_append,
        if_neg (by rwa [List.all_eq_true])]
      refine .cons (hp.congr (trails_of_front (trimEnd_front rest))) hgap (fun hne => ?_) ih
      refine ⟨fun hnil => hrest ?_, (hplace hne).2⟩
      simpa [Text.trimEnd] using hnil

end PathQuery.Grammar
