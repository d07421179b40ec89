import Mathlib.Data.List.Infix
import Mathlib.Order.Bounds.Defs
import PathQuery.Proofs.Walks
import PathQuery.Query.Eval

/-!
# First occurrences

Three core functions look for one text in another. They cut it at the first occurrence, and what
they cut off stands on both sides of it.

* names: `Text.StandsAt`, `CoreFunction.called`, `Environment.Answers`.
* `Text.splitFirst_eq_some_iff`, `Text.splitFirst_eq_none_iff`: the search among characters.
* `Text.StandsAt.exists_append`: bytes of a text are found only where characters begin, so that a
  search among bytes finds the same.
* **`Environment.evaluate_splitFirst`**: what calls of the three functions give.
-/

namespace PathQuery

namespace Text

/-! ## Characters -/

section Characters

variable {needle text left right : List Char}

theorem dropInfix?_go_eq (needle text seen : List Char) :
    List.dropInfix?.go needle text seen =
      (splitFirst needle text).map fun (left, right) => (seen.reverse ++ left, right) := by
  induction text generalizing seen with
  | nil =>
    rw [List.dropInfix?.go, splitFirst]
    cases needle.isEmpty <;> simp
  | cons c cs ih =>
    rw [List.dropInfix?.go, splitFirst, ih]
    by_cases h : needle <+: c :: cs
    · obtain ⟨rest, hrest⟩ := h
      have hdrop : (needle ++ rest).dropPrefix? needle = some rest :=
        List.dropPrefix?_eq_some_iff.2 ⟨needle, rfl, beq_self_eq_true needle⟩
      rw [← hrest, hdrop, if_pos (by simp)]
      simp
    · have hdrop : (c :: cs).dropPrefix? needle = none := by
        refine Option.eq_none_iff_forall_ne_some.2 fun rest hrest => h ?_
        obtain ⟨front, hfront, heq⟩ := List.dropPrefix?_eq_some_iff.1 hrest
        exact ⟨rest, by rw [hfront, eq_of_beq heq]⟩
      rw [hdrop, if_neg (by rwa [List.isPrefixOf_iff_prefix])]
      cases splitFirst needle cs <;> simp

/-- The text is cut where the needle can first be dropped from it. -/
theorem splitFirst_eq (needle text : List Char) :
    splitFirst needle text = text.dropInfix? needle := by
  rw [List.dropInfix?, dropInfix?_go_eq]
  cases splitFirst needle text <;> simp

/-- **The text is cut around the first occurrence.** -/
theorem splitFirst_eq_some_iff :
    splitFirst needle text = some (left, right) ↔
      text = left ++ needle ++ right ∧
        ∀ left' right', text = left' ++ needle ++ right' → left.length ≤ left'.length := by
  simp only [splitFirst_eq, List.dropInfix?_eq_some_iff, beq_iff_eq]
  constructor
  · rintro ⟨⟨_, htext, rfl⟩, hfirst⟩
    exact ⟨htext, fun left' right' h => hfirst left' _ right' h rfl⟩
  · rintro ⟨htext, hfirst⟩
    refine ⟨⟨needle, htext, rfl⟩, ?_⟩
    rintro left' _ right' h rfl
    exact hfirst left' right' h

/-- Of two occurrences that overlap, the first counts. -/
example : splitFirst "ana".toList "banana".toList = some ("b".toList, "na".toList) := by decide

theorem splitFirst_eq_none_iff : splitFirst needle text = none ↔ ¬ needle <:+: text := by
  induction text with
  | nil => simp [splitFirst]
  | cons c cs ih =>
    rw [splitFirst, List.infix_cons_iff]
    by_cases h : needle <+: c :: cs
    · simp [h]
    · simp [h, ih]

end Characters

/-! ## Bytes -/

/-- The bytes of `t` stand in those of `s` from a place on. -/
def StandsAt (t s : String) (place : Nat) : Prop :=
  place + t.utf8ByteSize ≤ s.utf8ByteSize ∧
    s.toByteArray.extract place (place + t.utf8ByteSize) = t.toByteArray

theorem standsAt_append (left t right : String) :
    StandsAt t (left ++ t ++ right) left.utf8ByteSize := by
  refine ⟨by simp, ?_⟩
  rw [String.toByteArray_append, String.toByteArray_append, ByteArray.append_assoc]
  show (left.toByteArray ++ (t.toByteArray ++ right.toByteArray)).extract
    (left.toByteArray.size + 0) (left.toByteArray.size + t.toByteArray.size) = t.toByteArray
  rw [ByteArray.extract_append_size_add, ByteArray.extract_append_eq_left rfl]

/-- A place where bytes of a text are found is a boundary of characters, and so is its other end:
no character begins with a byte from inside of another. -/
theorem StandsAt.exists_append {t s : String} {place : Nat} (h : StandsAt t s place)
    (ht : t ≠ "") : ∃ left right, s = left ++ t ++ right ∧ left.utf8ByteSize = place := by
  obtain ⟨hle, hbytes⟩ := h
  let start : String.Pos.Raw := ⟨place⟩
  let stop : String.Pos.Raw := ⟨place + t.utf8ByteSize⟩
  have hutf : (s.toByteArray.extract start.byteIdx stop.byteIdx).IsValidUTF8 := by
    show (s.toByteArray.extract place (place + t.utf8ByteSize)).IsValidUTF8
    rw [hbytes]
    exact t.isValidUTF8
  have hboundaries : start.IsValid s ∧ stop.IsValid s := by
    rcases (String.Pos.Raw.isValidUTF8_extract_iff start stop
      (by simp [String.Pos.Raw.le_iff, start, stop])
      (by simpa [String.Pos.Raw.le_iff, stop] using hle)).1 hutf with heq | hvalid
    · exact absurd (by simpa [start, stop, String.Pos.Raw.ext_iff] using heq) ht
    · exact hvalid
  refine ⟨⟨s.toByteArray.extract 0 place, hboundaries.1.isValidUTF8_extract_zero⟩,
    ⟨s.toByteArray.extract (place + t.utf8ByteSize) s.utf8ByteSize,
      hboundaries.2.isValidUTF8_extract_utf8ByteSize⟩, ?_, ?_⟩
  · rw [← String.toByteArray_inj, String.toByteArray_append, String.toByteArray_append, ← hbytes,
      ← ByteArray.extract_eq_extract_append_extract _ (by omega) (by omega),
      ← ByteArray.extract_eq_extract_append_extract _ (by omega) (by omega)]
    simp [← String.size_toByteArray]
  · show (s.toByteArray.extract 0 place).size = place
    simp
    omega

/-! ## Texts -/

section Texts

variable {t s before after : String}

theorem occursIn_iff :
    occursIn t.toList s.toList = true ↔ ∃ left right, s = left ++ t ++ right := by
  rw [occursIn, Option.isSome_iff_ne_none, ne_eq, splitFirst_eq_none_iff, not_not]
  constructor
  · rintro ⟨left, right, h⟩
    exact ⟨.ofList left, .ofList right, String.toList_inj.1 (by simp [h])⟩
  · rintro ⟨left, right, rfl⟩
    exact ⟨left.toList, right.toList, by simp⟩

/-- What is cut off stands before and after the first occurrence, by characters and by bytes. -/
theorem split_of_splitFirst
    (h : splitFirst t.toList s.toList = some (before.toList, after.toList)) :
    s = before ++ t ++ after ∧
      (∀ left right, s = left ++ t ++ right → before.length ≤ left.length) ∧
        IsLeast {place | StandsAt t s place} before.utf8ByteSize := by
  obtain ⟨htext, hfirst⟩ := splitFirst_eq_some_iff.1 h
  have hcut : s = before ++ t ++ after := String.toList_inj.1 (by simp [htext])
  have hlength (left right : String) (hs : s = left ++ t ++ right) :
      before.toList.length ≤ left.toList.length :=
    hfirst left.toList right.toList (by simp [hs])
  refine ⟨hcut, hlength, ⟨hcut ▸ standsAt_append before t after, fun place hplace => ?_⟩⟩
  rcases eq_or_ne t "" with rfl | ht
  · have hempty : before.length ≤ 0 := hlength "" s (by simp)
    simp [String.length_eq_zero_iff.1 (Nat.le_zero.1 hempty)]
  · obtain ⟨left, right, hs, rfl⟩ := hplace.exists_append ht
    have hbefore : before.toList <+: s.toList := ⟨t.toList ++ after.toList, by simp [hcut]⟩
    have hleft : left.toList <+: s.toList := ⟨t.toList ++ right.toList, by simp [hs]⟩
    obtain ⟨rest, hrest⟩ :=
      List.prefix_of_prefix_length_le hbefore hleft (hlength left right hs)
    obtain rfl : left = before ++ .ofList rest := String.toList_inj.1 (by simp [← hrest])
    simp

end Texts

end Text

/-! ## Calls -/

namespace CoreFunction

theorem ofName?_text (f : CoreFunction) : ofName? f.text = some f := by
  cases f <;> decide

/-- A call of a core function. -/
def called (f : CoreFunction) (args : List Expr) : Expr := .call (.bare f.text) args

end CoreFunction

namespace Environment

variable (env : Environment) (r : Registry) (store : Store)

/-- An expression has one answer at every node, and leaves the store as it is. -/
def Answers (e : Expr) (a : Answer) : Prop :=
  ∀ focus, ∃ outcome, (env.compute r e focus).result store = (.ok outcome, store) ∧
    outcome.all = .ok a

variable {env r store} {e : Expr} {es : List Expr} {a : Answer} {as : List Answer}

theorem answers_literal (t : String) : env.Answers r store (.literal t) (.text t) :=
  fun focus => ⟨.answer (.text t), by rw [compute]; rfl, rfl⟩

theorem result_evaluateAll (h : List.Forall₂ (env.Answers r store) es as) (focus : Focus) :
    (env.evaluateAll r es focus).result store = (.ok as, store) := by
  induction h generalizing focus with
  | nil => rw [evaluateAll, Action.result_pure]
  | cons ha _ ih =>
    obtain ⟨outcome, hcompute, hall⟩ := ha (focus.part 0)
    rw [evaluateAll, Action.result_bind_ok hcompute, hall]
    exact Action.result_bind_ok (ih (focus.part 1))

theorem all_ofAnswer (a : Answer) : (Outcome.ofAnswer a).all = .ok a := by
  cases a with
  | nodes items =>
    show (Search.ofList items).all.map Answer.nodes = _
    rw [Search.all_eq_ok_iff.2 (Search.nodes_ofList items)]
    rfl
  | _ => rfl

/-- A core function is found by its name before any other. -/
theorem answers_called {f : CoreFunction} (h : List.Forall₂ (env.Answers r store) es as)
    (hf : ∀ focus, f.apply store r focus as = .ok a) : env.Answers r store (f.called es) a := by
  intro focus
  have hcall : (env.call r (.bare f.text) as focus).result store = (.ok a, store) := by
    rw [call, QName.bare, Option.isNone_none, if_pos rfl, CoreFunction.ofName?_text]
    exact (Action.result_read ..).trans (by rw [hf])
  refine ⟨.ofAnswer a, ?_, all_ofAnswer a⟩
  rw [CoreFunction.called, compute, Action.result_bind_ok (result_evaluateAll h focus),
    Action.result_bind_ok hcall, Action.result_pure]

theorem result_evaluate (h : env.Answers r store e a) (focus : Focus) :
    (env.evaluate r e focus).result store = (.ok a, store) := by
  obtain ⟨outcome, hcompute, hall⟩ := h { focus with occasion := store.now.part 0 }
  have hbegin : (env.begin r e focus).result store = (.ok outcome, store) :=
    (Action.result_bind_ok (Action.result_get store)).trans hcompute
  rw [evaluate, Action.result_bind_ok hbegin, Action.result_read, hall]

/-- **Texts are cut at the first occurrence.** If one text contains another, the parts before and
after it join up with it to the whole, and it stands nowhere earlier than behind the first part, be
it by characters or by bytes; if not, both parts are empty. -/
theorem evaluate_splitFirst (env : Environment) (r : Registry) (store : Store) (focus : Focus)
    (s t : String) :
    let search (f : CoreFunction) := f.called [.literal s, .literal t]
    let value (e : Expr) := (env.evaluate r e focus).result store
    ∃ found before after,
      value (search .contains) = (.ok (.boolean found), store) ∧
      value (search .substringBefore) = (.ok (.text before), store) ∧
      value (search .substringAfter) = (.ok (.text after), store) ∧
      (found = true ↔ ∃ left right, s = left ++ t ++ right) ∧
      if found then
        value (CoreFunction.concat.called
            [search .substringBefore, .literal t, search .substringAfter]) =
          (.ok (.text s), store) ∧
        (∀ left right, s = left ++ t ++ right → before.length ≤ left.length) ∧
        IsLeast {place | Text.StandsAt t s place} before.utf8ByteSize
      else before = "" ∧ after = "" := by
  intro search value
  have hargs : List.Forall₂ (env.Answers r store) [.literal s, .literal t] [.text s, .text t] :=
    .cons (answers_literal s) (.cons (answers_literal t) .nil)
  have hsearch {f : CoreFunction} {a : Answer}
      (hf : ∀ focus, f.apply store r focus [.text s, .text t] = .ok a) :
      env.Answers r store (search f) a := answers_called hargs hf
  let before := String.ofList (Text.before t.toList s.toList)
  let after := String.ofList (Text.after t.toList s.toList)
  have hbefore : env.Answers r store (search .substringBefore) (.text before) :=
    hsearch fun _ => rfl
  have hafter : env.Answers r store (search .substringAfter) (.text after) :=
    hsearch fun _ => rfl
  refine ⟨Text.occursIn t.toList s.toList, before, after,
    result_evaluate (hsearch fun _ => rfl) focus, result_evaluate hbefore focus,
    result_evaluate hafter focus, Text.occursIn_iff, ?_⟩
  rcases hsplit : Text.splitFirst t.toList s.toList with _ | ⟨left, right⟩
  · simp [before, after, Text.occursIn, Text.before, Text.after, hsplit]
  · have hcut : Text.splitFirst t.toList s.toList = some (before.toList, after.toList) := by
      simp [before, after, Text.before, Text.after, hsplit]
    obtain ⟨hwhole, hcharacters, hbytes⟩ := Text.split_of_splitFirst hcut
    rw [if_pos (by simp [Text.occursIn, hsplit])]
    refine ⟨result_evaluate (answers_called
      (.cons hbefore (.cons (answers_literal t) (.cons hafter .nil))) fun _ => ?_) focus,
      hcharacters, hbytes⟩
    show Except.ok (Answer.text (String.join [before, t, after])) = _
    simp [hwhole, String.append_assoc]

end Environment

end PathQuery
