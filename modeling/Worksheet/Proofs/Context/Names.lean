import Worksheet.Proofs.Context.Representation

/-!
# What a name stands for

Which of several things with one name an expression sees is told by the order of a scope; whether a
call of a name is the call of a function is told by tests of its own. The two agree:

* **`Context.meaning?`** — the precedence, said without the scope.
* **`lookup_scope`** — a scope gives a name this meaning.
* **`Sound.exists_function?_iff`** — a name calls a function exactly if it stands for one, given that
  nothing is bound to the name of the current stack.
-/

namespace Worksheet

open Text

/-- A scope gives the first value of the name. -/
theorem Scope.lookup_eq (s : Scope) (n : String) :
    s.lookup n = match (s.find? fun v => v.1 == n).map Prod.snd with
      | some d => .ok d
      | none => .error (.unknownName n) := by
  unfold Scope.lookup
  cases s.find? fun v => v.1 == n <;> rfl

namespace Context

/-- What a name stands for, with the item that it is bound to: the values of the current stack, the
last answer or zero if there is none, the values of the stack with the name, the bound value, or a
constant. -/
def meaning? (c : Context) (bound : Option Item) (n : String) : Option Datum :=
  if n = currentStackName then some (.array (c.currentValues.map Value.toDatum))
  else if n ∈ answerNames then some ((c.history.getLast?.map Item.value).getD (.int 0)).toDatum
  else if c.hasStack n then some (sequenceOf (c.stackItems n))
  else
    match bound with
    | some v => some v.value.toDatum
    | none => (Library.constants.find? fun v => v.1 == n).map Prod.snd

/-! ## The parts of a scope -/

theorem find?_names (names : List String) (d : Datum) (n : String) :
    (names.map fun m => (m, d)).find? (fun v => v.1 == n)
      = if n ∈ names then some (n, d) else none := by
  induction names with
  | nil => rfl
  | cons m names ih =>
    rw [List.map_cons, List.find?_cons]
    by_cases hm : m = n
    · subst hm
      simp
    · simp [beq_false_of_ne hm, Ne.symm hm, ih]

theorem find?_namedStacks (c : Context) (n : String) :
    (c.namedStacks.map fun b => (b.name, sequenceOf (c.itemsOf b))).find? (fun v => v.1 == n)
      = if c.hasStack n then some (n, sequenceOf (c.stackItems n)) else none := by
  rw [List.find?_map]
  cases hfind : c.namedStacks.find? ((fun v => v.1 == n) ∘
      fun b => (b.name, sequenceOf (c.itemsOf b))) with
  | none =>
    have hstack : c.hasStack n = false := by
      rw [List.find?_eq_none] at hfind
      simpa [hasStack] using hfind
    simp [hstack]
  | some b =>
    have hname : b.name = n := by simpa using List.find?_some hfind
    have hmem := List.mem_of_find?_eq_some hfind
    have hstack : c.hasStack n = true := List.any_eq_true.mpr ⟨b, hmem, by simp [hname]⟩
    -- among all stacks no other one of the name is found, as only the nameless ones were left out
    have hitems : c.stackItems n = c.itemsOf b := by
      have hne : (n != "") = true := by
        have hnamed := (List.mem_filter.mp hmem).2
        rwa [hname] at hnamed
      have hall : c.stackBuckets.find? (fun b => b.name == n) = some b := by
        rw [namedStacks, List.find?_filter] at hfind
        rw [← hfind]
        congr 1
        funext b'
        by_cases hb' : b'.name = n
        · simpa [hb'] using hne
        · simp [hb']
      rw [stackItems, hall]
    simp [hstack, hitems, hname]

theorem find?_bindings (c : Context) (n : String) :
    (c.bindings.filterMap fun v => v.name.map fun m => (m, v.value.toDatum)).find?
        (fun v => v.1 == n)
      = (c.find? n).map fun v => (n, v.value.toDatum) := by
  unfold find?
  induction c.bindings with
  | nil => rfl
  | cons v vs ih =>
    cases hv : v.name with
    | none =>
      rw [List.filterMap_cons_none (by simp [hv]), ih, List.find?_cons]
      simp [hv]
    | some m =>
      rw [List.filterMap_cons_some (b := (m, v.value.toDatum)) (by simp [hv]), List.find?_cons,
        List.find?_cons, ih]
      by_cases hm : m = n
      · simp [hv, hm]
      · simp [hv, beq_false_of_ne hm]

/-- **A scope gives names their meaning.** -/
theorem lookup_scope (c : Context) (n : String) :
    c.scope.lookup n = match c.meaning? (c.find? n) n with
      | some d => .ok d
      | none => .error (.unknownName n) := by
  have hmeaning : (c.scope.find? fun v => v.1 == n).map Prod.snd = c.meaning? (c.find? n) n := by
    rw [scope, List.find?_append, List.find?_append, List.find?_append, List.find?_append,
      find?_names, find?_namedStacks, find?_bindings]
    unfold meaning?
    by_cases hcurrent : n = currentStackName
    · simp [hcurrent]
    · have hsingle : [(currentStackName, Datum.array (c.currentValues.map Value.toDatum))].find?
          (fun v => v.1 == n) = none := by simp [Ne.symm hcurrent]
      rw [hsingle, if_neg hcurrent, Option.none_or]
      by_cases hanswer : n ∈ answerNames
      · simp [hanswer, lastAnswer]
      · rw [if_neg hanswer, if_neg hanswer, Option.none_or]
        cases c.hasStack n with
        | true => rfl
        | false => cases c.find? n <;> rfl
  rw [Scope.lookup_eq, hmeaning]

/-! ## Functions -/

theorem toDatum_eq_function_iff {v : Value} {f : Closure} :
    v.toDatum = .function f ↔ ∃ g, v = .function g ∧ g.closure = f := by
  cases v <;> simp [Value.toDatum]

theorem constants_ne_function (n : String) (f : Closure) :
    (Library.constants.find? fun v => v.1 == n).map Prod.snd ≠ some (.function f) := by
  intro h
  obtain ⟨v, hv, hf⟩ := Option.map_eq_some_iff.mp h
  have hmem := List.mem_of_find?_eq_some hv
  simp only [Library.constants, List.mem_cons, List.not_mem_nil, or_false] at hmem
  rcases hmem with rfl | rfl | rfl | rfl | rfl <;> cases hf

/-- No answer is a function. -/
theorem Sound.lastAnswer_ne_function {c : Context} (h : c.Sound) (f : Closure) :
    ((c.history.getLast?.map Item.value).getD (.int 0)).toDatum ≠ .function f := by
  rw [Ne, toDatum_eq_function_iff]
  rintro ⟨g, hg, -⟩
  cases hlast : c.history.getLast? with
  | none =>
    rw [hlast] at hg
    cases hg
  | some v =>
    rw [hlast] at hg
    have hdata := h.history_data v (List.mem_of_getLast? hlast)
    have hv : v.value = .function g := hg
    rw [hv] at hdata
    cases hdata

/-- **A name calls a function exactly if it stands for one**, and calls the function that it stands
for. -/
theorem Sound.exists_function?_iff {c : Context} (h : c.Sound)
    (hcurrent : c.find? currentStackName = none) (n : String) (f : Closure) :
    (∃ g, c.function? n = some g ∧ g.closure = f)
      ↔ c.meaning? (c.find? n) n = some (.function f) := by
  unfold function? meaning?
  by_cases hn : n = currentStackName
  · subst hn
    rw [hcurrent]
    simp
  · rw [if_neg hn]
    by_cases hanswer : n ∈ answerNames
    · rw [if_pos hanswer, if_pos (by simp [hanswer])]
      simp [h.lastAnswer_ne_function f]
    · rw [if_neg hanswer]
      cases hstack : c.hasStack n with
      | true => simp [sequenceOf]
      | false =>
        have hseen : (false || answerNames.contains n) = false := by simpa using hanswer
        rw [hseen]
        cases hfind : c.find? n with
        | none => simp [constants_ne_function n f]
        | some v =>
          cases hv : v.value <;> simp [hv, Value.toDatum]

end Context

end Worksheet
