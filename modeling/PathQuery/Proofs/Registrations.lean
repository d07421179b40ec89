import Mathlib.Data.Finset.Dedup
import Mathlib.Data.Finset.Card
import PathQuery.Proofs.Tables
import PathQuery.Query.Environment

/-!
# Registrations

A function library is built by registering functions and by taking in other libraries. It keeps one
function for each signature, and that is the one which was registered last, in whatever order the
entries of a library are visited when it is taken in.

* names: `Registration`, `latest?`, `called?`; `FunctionLibrary.Built`, `FunctionLibrary.Keeps`,
  `Environment.BuiltBy`.
* `lookup_extend`: what is found after another library was taken in. **`Built.keeps`**: a library
  keeps the latest registrations.
* **`find?_built`**: what a call finds in a library and along the frames of an environment.
-/

namespace PathQuery

/-- A function with the signature that it is registered under. -/
abbrev Registration : Type := Signature × Function

/-- The function that was registered last under a signature. -/
def latest? (log : List Registration) (key : Signature) : Option Function :=
  (log.filter fun e => e.1 = key).getLast?.map Prod.snd

/-- The function for a call: the last for exactly the given number of arguments, else the last for
any number. -/
def called? (log : List Registration) (name : QName) (args : Nat) : Option Function :=
  latest? log ⟨name, some args⟩ <|> latest? log ⟨name, none⟩

theorem latest?_append (log log' : List Registration) (key : Signature) :
    latest? (log ++ log') key = (latest? log' key <|> latest? log key) := by
  rw [latest?, List.filter_append, List.getLast?_append]
  cases h : (log'.filter fun e => e.1 = key).getLast? <;> simp [latest?, h]

theorem latest?_singleton (key key' : Signature) (f : Function) :
    latest? [(key, f)] key' = if key' = key then some f else none := by
  by_cases h : key' = key
  · simp [latest?, h]
  · simp [latest?, h, Ne.symm h]

theorem latest?_eq_none_iff {log : List Registration} {key : Signature} :
    latest? log key = none ↔ key ∉ log.map Prod.fst := by
  rw [latest?, Option.map_eq_none_iff, List.getLast?_eq_none_iff, List.filter_eq_nil_iff]
  simp only [decide_eq_true_eq, List.mem_map, not_exists, not_and]

/-- Where no signature comes twice, the only registration is the last. -/
theorem latest?_eq_lookup {log : List Registration} (h : (log.map Prod.fst).Nodup)
    (key : Signature) : latest? log key = log.lookup key := by
  induction log with
  | nil => rfl
  | cons e log ih =>
    obtain ⟨k, f⟩ := e
    obtain ⟨hk, hlog⟩ := List.nodup_cons.1 h
    rw [← List.singleton_append, latest?_append, latest?_singleton, ih hlog,
      FunctionLibrary.lookup_append]
    by_cases hkey : key = k
    · subst hkey
      rw [← ih hlog, latest?_eq_none_iff.2 hk]
      simp
    · simp [hkey, List.lookup_cons, beq_eq_false_iff_ne.2 hkey]

namespace FunctionLibrary

variable {log log' : List Registration} {l other : FunctionLibrary} {key key' : Signature}
variable {f : Function}

/-! ## One call -/

theorem lookup_register (l : FunctionLibrary) (key key' : Signature) (f : Function) :
    (l.register key f).lookup key' = (latest? [(key, f)] key' <|> l.lookup key') := by
  rw [latest?_singleton]
  by_cases h : key' = key
  · subst h
    simp
  · simp [h, lookup_register_of_ne h]

/-- What is found after another library was taken in was found there last, or else before. -/
theorem lookup_extend (l other : FunctionLibrary) (key : Signature) :
    (l.extend other).lookup key = (latest? other.entries key <|> l.lookup key) := by
  obtain ⟨entries⟩ := other
  induction entries generalizing l with
  | nil => rfl
  | cons e entries ih =>
    have hextend : l.extend ⟨e :: entries⟩ = (l.register e.1 e.2).extend ⟨entries⟩ := rfl
    have hlatest : latest? (e :: entries) key = (latest? entries key <|> latest? [e] key) :=
      latest?_append [e] entries key
    rw [hextend, ih, lookup_register, hlatest]
    cases latest? entries key <;> rfl

theorem nodup_register (h : (l.entries.map Prod.fst).Nodup) (key : Signature) (f : Function) :
    ((l.register key f).entries.map Prod.fst).Nodup := by
  rw [register, List.map_append, List.nodup_append]
  refine ⟨h.sublist (List.filter_sublist.map Prod.fst), by simp, ?_⟩
  simp only [List.mem_map, List.mem_filter]
  rintro _ ⟨e, ⟨-, he⟩, rfl⟩ _ ⟨e', he', rfl⟩
  obtain rfl := List.mem_singleton.1 he'
  simpa using he

theorem nodup_extend (h : (l.entries.map Prod.fst).Nodup) (other : FunctionLibrary) :
    ((l.extend other).entries.map Prod.fst).Nodup := by
  obtain ⟨entries⟩ := other
  induction entries generalizing l with
  | nil => exact h
  | cons e entries ih => exact ih (nodup_register h e.1 e.2)

/-! ## All calls -/

/-- The library has been built by registrations in the order of the log. The registrations of a
library that is taken in count from then on, whatever order its entries are visited in. -/
inductive Built : List Registration → FunctionLibrary → Prop
  | empty : Built [] {}
  | register {log : List Registration} {l : FunctionLibrary} (h : Built log l) (key : Signature)
    (f : Function) : Built (log ++ [(key, f)]) (l.register key f)
  | extend {log log' : List Registration} {l other : FunctionLibrary}
    {visited : List Registration} (h : Built log l) (hother : Built log' other)
    (hvisited : visited.Perm other.entries) : Built (log ++ log') (l.extend ⟨visited⟩)

/-- The library has one function for each signature of the log, the latest. -/
structure Keeps (log : List Registration) (l : FunctionLibrary) : Prop where
  nodup : (l.entries.map Prod.fst).Nodup
  lookup : ∀ key, l.lookup key = latest? log key

/-- The order in which entries are visited is no matter, since no signature comes twice. -/
theorem Keeps.latest?_perm (h : Keeps log l) {visited : List Registration}
    (hvisited : visited.Perm l.entries) (key : Signature) :
    latest? visited key = latest? log key := by
  have hnodup : (visited.map Prod.fst).Nodup := (hvisited.map Prod.fst).nodup_iff.2 h.nodup
  rw [latest?_eq_lookup hnodup, ← h.lookup]
  apply Option.ext
  intro f
  rw [FunctionLibrary.lookup, Table.lookup_eq_some_iff hnodup, Table.lookup_eq_some_iff h.nodup,
    hvisited.mem_iff]

/-- **A library keeps the latest registrations.** -/
theorem Built.keeps (h : Built log l) : Keeps log l := by
  induction h with
  | empty => exact ⟨.nil, fun _ => rfl⟩
  | register _ key f ih =>
    refine ⟨nodup_register ih.nodup key f, fun key' => ?_⟩
    rw [lookup_register, ih.lookup, latest?_append]
  | extend _ _ hvisited ih ihother =>
    refine ⟨nodup_extend ih.nodup _, fun key => ?_⟩
    rw [lookup_extend, ih.lookup, ihother.latest?_perm hvisited, latest?_append]

theorem Keeps.find? (h : Keeps log l) (name : QName) (args : Nat) :
    l.find? name args = called? log name args := by
  rw [FunctionLibrary.find?, h.lookup, h.lookup, called?]

/-- There are as many entries as different signatures. -/
theorem Keeps.size (h : Keeps log l) : l.size = (log.map Prod.fst).toFinset.card := by
  have hkeys : (l.entries.map Prod.fst).toFinset = (log.map Prod.fst).toFinset := by
    ext key
    have hlookup := h.lookup key
    rw [FunctionLibrary.lookup, ← latest?_eq_lookup h.nodup] at hlookup
    rw [List.mem_toFinset, List.mem_toFinset, ← not_iff_not, ← latest?_eq_none_iff, hlookup,
      latest?_eq_none_iff]
  rw [← hkeys, List.toFinset_card_of_nodup h.nodup, List.length_map]
  rfl

end FunctionLibrary

/-! ## Along the frames -/

/-- The libraries of an environment's frames have been built by the logs. A frame without a library
has the empty log. -/
def Environment.BuiltBy (env : Environment) (logs : List (List Registration)) : Prop :=
  List.Forall₂ (fun frame log => FunctionLibrary.Built log (frame.functions.getD {})) env.frames
    logs

theorem Environment.function?_of_builtBy {env : Environment} {logs : List (List Registration)}
    (h : env.BuiltBy logs) (name : QName) (args : Nat) :
    env.function? name args = logs.findSome? fun log => called? log name args := by
  rw [Environment.function?]
  rw [BuiltBy] at h
  generalize env.frames = frames at h ⊢
  induction h with
  | nil => rfl
  | @cons frame log frames logs hframe _ ih =>
    have hfound : (frame.functions.bind fun library => library.find? name args) =
        called? log name args := by
      rw [← hframe.keeps.find?]
      cases frame.functions <;> rfl
    rw [List.findSome?_cons, List.findSome?_cons, hfound, ih]

namespace FunctionLibrary

/-- **Which function a call finds**: the last registration for exactly the given number of
arguments, else the last for any number. There are as many functions as different signatures. Along
the frames of an environment the nearest library with a function for the call has it. -/
theorem find?_built {log : List Registration} {l : FunctionLibrary} (h : Built log l)
    {env : Environment} {logs : List (List Registration)} (henv : env.BuiltBy logs) (name : QName)
    (args : Nat) :
    l.find? name args = (latest? log ⟨name, some args⟩ <|> latest? log ⟨name, none⟩) ∧
    l.size = (log.map Prod.fst).toFinset.card ∧
    ∀ f, env.function? name args = some f ↔ ∃ inner nearest outer,
      logs = inner ++ nearest :: outer ∧ (∀ log ∈ inner, called? log name args = none) ∧
      called? nearest name args = some f := by
  refine ⟨h.keeps.find? name args, h.keeps.size, fun f => ?_⟩
  rw [Environment.function?_of_builtBy henv, List.findSome?_eq_some_iff]
  constructor
  · rintro ⟨inner, nearest, outer, hlogs, hnearest, hinner⟩
    exact ⟨inner, nearest, outer, hlogs, hinner, hnearest⟩
  · rintro ⟨inner, nearest, outer, hlogs, hinner, hnearest⟩
    exact ⟨inner, nearest, outer, hlogs, hnearest, hinner⟩

/-- A function that always gives the same. -/
def constant (a : Answer) : Function := fun _ _ => pure a

/-- A library in which `f` for any number of arguments is replaced by one that is taken in. -/
def replaced (one two three : Function) : FunctionLibrary :=
  ((({} : FunctionLibrary).register ⟨.bare "f", none⟩ one).register ⟨.bare "f", some 2⟩ two).extend
    ⟨[(⟨.bare "f", none⟩, three)]⟩

theorem built_replaced (one two three : Function) :
    Built [(⟨.bare "f", none⟩, one), (⟨.bare "f", some 2⟩, two), (⟨.bare "f", none⟩, three)]
      (replaced one two three) :=
  .extend (.register (.register .empty _ one) _ two) (.register .empty _ three) (.refl _)

/-- A context without a library of its own finds both functions in the library around it. -/
theorem find?_built_replaced :
    let one := constant (.text "one")
    let two := constant (.text "two")
    let three := constant (.text "three")
    let l := replaced one two three
    let env : Environment :=
      { root := default, locale := default, lenient := false, own := { scope := 1 },
        outer := [{ scope := 0, functions := some l }] }
    l.find? (.bare "f") 2 = some two ∧ l.find? (.bare "f") 5 = some three ∧ l.size = 2 ∧
      env.function? (.bare "f") 5 = some three := by
  intro one two three l env
  have hl := built_replaced one two three
  have henv : env.BuiltBy [[], _] := .cons .empty (.cons hl .nil)
  obtain ⟨hexact, hsize, -⟩ := find?_built hl henv (.bare "f") 2
  obtain ⟨hany, -, hframes⟩ := find?_built hl henv (.bare "f") 5
  refine ⟨hexact.trans ?_, hany.trans ?_, hsize.trans ?_, ?_⟩
  · rfl
  · rfl
  · rfl
  · exact (hframes three).2 ⟨[[]], _, [], rfl, by simp [called?, latest?], rfl⟩

end FunctionLibrary

end PathQuery
