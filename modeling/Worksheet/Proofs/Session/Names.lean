import Worksheet.Proofs.Context.Names
import Worksheet.Proofs.Declaration.Calls
import Worksheet.Proofs.Session.Stored

/-!
# Names in a worksheet

After any run of lines a name stands for what the precedence of `Context.meaning?` says, with the
latest item that a line has stored under it, and a call of the name is a call of a function value
exactly if that is what the name stands for (`names_agree`). Both rest on facts about whole runs: no
function is ever an answer, and no line can bind the name of the current stack.
-/

namespace Worksheet

open Text

namespace Session

/-- An identifier begins with a letter, which the name of the current stack does not. -/
theorem Recorded.find?_currentStackName {c : Context} {items : List Item} (h : Recorded c items) :
    c.find? Context.currentStackName = none := by
  rw [h.latest]
  cases hitem : latest? items Context.currentStackName with
  | none => rfl
  | some v =>
    obtain ⟨hmem, hname⟩ := List.mem_filter.mp (List.mem_of_getLast? hitem)
    have hidentifier := h.identifier v hmem _ (beq_iff_eq.mp hname)
    exact absurd hidentifier (by decide)

theorem Recorded.lookup_scope {c : Context} {items : List Item} (h : Recorded c items) (n : String) :
    c.scope.lookup n = match c.meaning? (latest? items n) n with
      | some d => .ok d
      | none => .error (.unknownName n) := by
  have hlookup := c.lookup_scope n
  rw [h.latest] at hlookup
  exact hlookup

theorem Recorded.exists_function?_iff {c : Context} {items : List Item} (h : Recorded c items)
    (n : String) (f : Closure) :
    (∃ g, c.function? n = some g ∧ g.closure = f) ↔ c.scope.lookup n = .ok (.function f) := by
  rw [h.sound.exists_function?_iff h.find?_currentStackName, Context.lookup_scope]
  cases c.meaning? (c.find? n) n <;> simp

theorem Recorded.isSome_function?_iff {c : Context} {items : List Item} (h : Recorded c items)
    (n : String) :
    (c.function? n).isSome = true ↔ ∃ f, (Expr.variable n).value c.scope = .ok (.function f) := by
  have hvalue : (Expr.variable n).value c.scope = c.scope.lookup n := by
    rw [Expr.value, Expr.eval]
  rw [hvalue, Option.isSome_iff_exists]
  constructor
  · rintro ⟨g, hg⟩
    exact ⟨g.closure, (h.exists_function?_iff n g.closure).mp ⟨g, hg, rfl⟩⟩
  · rintro ⟨f, hf⟩
    obtain ⟨g, hg, -⟩ := (h.exists_function?_iff n f).mpr hf
    exact ⟨g, hg⟩

/-- **What a name stands for and what a call of it is agree.** After any lines, the scope gives every
name the meaning that the precedence says, with the latest item stored under it. A name counts as a
function exactly if its value in the scope is one. A call of it in an expression becomes a call of
that function exactly if the name evaluates to a function, and stays as it is otherwise. -/
theorem names_agree (defaults : Settings) (now : DateTime) (lines : List (List Char)) :
    let s := ((start defaults now).runLines lines).2
    let items := (start defaults now).itemsOfLines lines
    let isFunction := fun n => (s.context.function? n).isSome
    (∀ n, s.context.scope.lookup n = match s.context.meaning? (latest? items n) n with
      | some d => .ok d
      | none => .error (.unknownName n)) ∧
    (∀ n f, (∃ g, s.context.function? n = some g ∧ g.closure = f)
      ↔ s.context.scope.lookup n = .ok (.function f)) ∧
    ∀ pre name blanks post, IsCall pre name blanks →
      let text := bindCalls isFunction (pre ++ (name ++ (blanks ++ '(' :: post)))
      (text = bindCalls isFunction pre ++ (name ++ ".call(".toList ++ bindCalls isFunction post)
        ↔ ∃ f, (Expr.variable (String.ofList name)).value s.context.scope = .ok (.function f)) ∧
      (text = bindCalls isFunction pre ++ (name ++ (blanks ++ ['(']) ++ bindCalls isFunction post)
        ↔ ¬∃ f, (Expr.variable (String.ofList name)).value s.context.scope = .ok (.function f)) := by
  intro s items isFunction
  have h : Recorded s.context items := recorded_runLines defaults now lines
  refine ⟨h.lookup_scope, h.exists_function?_iff, ?_⟩
  intro pre name blanks post hcall text
  have htext : text = bindCalls isFunction pre ++
      (callText isFunction name blanks ++ bindCalls isFunction post) :=
    bindCalls_call isFunction hcall post
  have hne := hcall.callText_ne
  rw [htext, List.append_cancel_left_eq, List.append_cancel_left_eq, List.append_cancel_right_eq,
    List.append_cancel_right_eq, ← h.isSome_function?_iff (String.ofList name)]
  unfold callText
  cases hfunction : isFunction (String.ofList name) with
  | true =>
    rw [if_pos rfl]
    exact ⟨iff_of_true rfl hfunction, iff_of_false hne (not_not_intro hfunction)⟩
  | false =>
    have hsome : ¬(s.context.function? (String.ofList name)).isSome = true :=
      ne_true_of_eq_false hfunction
    rw [if_neg Bool.false_ne_true]
    exact ⟨iff_of_false hne.symm hsome, iff_of_true rfl hsome⟩

theorem names_agree_successor :
    let s := ((start {} (.midnight ⟨2024, 1, 31, by decide⟩)).runLines ["f(x) = x + 1".toList]).2
    let isFunction := fun n => (s.context.function? n).isSome
    IsCall "2 * ".toList ['f'] [' '] ∧
    (bindCalls isFunction "2 * f (3)".toList
        = bindCalls isFunction "2 * ".toList ++ ("f.call(".toList ++ bindCalls isFunction "3)".toList)
      ↔ ∃ f, (Expr.variable "f").value s.context.scope = .ok (.function f)) := by
  intro s isFunction
  have hlast : "2 * ".toList.getLast? = some ' ' := by decide
  have hcall : IsCall "2 * ".toList ['f'] [' '] :=
    { outside := by decide
      edge := by
        rw [hlast]
        rintro c ⟨⟩
        decide
      start := ⟨'f', [], rfl, by decide⟩
      chars := List.forall_mem_singleton.mpr (by decide)
      blank := List.forall_mem_singleton.mpr (by decide) }
  exact ⟨hcall, ((names_agree {} (.midnight ⟨2024, 1, 31, by decide⟩) ["f(x) = x + 1".toList]).2.2
    "2 * ".toList ['f'] [' '] "3)".toList hcall).1⟩

end Session

end Worksheet
