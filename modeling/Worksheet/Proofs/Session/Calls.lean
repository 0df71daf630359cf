import Worksheet.Proofs.Notation.Names
import Worksheet.Proofs.Session.Plain
import Worksheet.Proofs.Table.Stacks

/-!
# Lines that apply a function to a name

A line `f(x)` with names `f` and `x` is an expression without a remark that declares nothing, and its
value is what the function makes of what the name stands for, just as for a total of a table.

* **`plainLine_directCall`** — the line is nothing but an expression.
* **`valueOf_directCall_iff`** — its value; **`run_directCall`** — its result.
-/

namespace Worksheet

open Text Expression Notation

section Reading

variable {f x : String}

theorem mem_directCall (hf : isIdentifier f.toList = true) (hx : isIdentifier x.toList = true) {c : Char}
    (hc : c ∈ directCall f x) : isNameChar c = true ∨ c ∈ ['(', ')'] := by
  simp only [directCall, List.mem_append, List.mem_cons, List.not_mem_nil, or_false] at hc
  rcases hc with hc | rfl | hc | rfl
  · exact Or.inl (isNameChar_of_mem_identifier hf c hc)
  · exact Or.inr (by decide)
  · exact Or.inl (isNameChar_of_mem_identifier hx c hc)
  · exact Or.inr (by decide)

/-- Of the signs that a worksheet looks for there is none. -/
theorem not_mem_directCall (hf : isIdentifier f.toList = true) (hx : isIdentifier x.toList = true) {c : Char}
    (hc : isNameChar c = false ∧ c ∉ ['(', ')']) : c ∉ directCall f x := by
  intro hmem
  rcases mem_directCall hf hx hmem with hname | hparen
  · rw [hc.1] at hname
    cases hname
  · exact hc.2 hparen

/-- The line is nothing but an expression. -/
theorem plainLine_directCall (hf : isIdentifier f.toList = true) (hx : isIdentifier x.toList = true) :
    PlainLine (directCall f x) where
  nonempty := by simp [directCall]
  trimmed := by
    refine trim_eq_self fun c hc => ?_
    rcases mem_directCall hf hx hc with hname | hparen
    · exact isBlank_of_isNameChar hname
    · have hparens : ∀ c ∈ ['(', ')'], isBlank c = false := by decide
      exact hparens c hparen
  signs c hc hsign := by
    have hsigns : ∀ m ∈ lineSigns, isNameChar m = false ∧ m ∉ ['(', ')'] := by decide
    exact not_mem_directCall hf hx (hsigns c hsign) hc

end Reading

namespace Session

section Values

variable {s : Session} {f x : String}

theorem expression?_directCall (hf : IsName ⟨s.now, s.settings.naturalUnits⟩ f)
    (hx : IsName ⟨s.now, s.settings.naturalUnits⟩ x) (b : Binding) :
    s.expression? ⟨b, String.ofList (directCall f x)⟩ = some
      (if (s.context.function? f).isSome then
        .select (.variable f) [.method "call" [.variable x]]
      else .call f [.variable x]) := by
  rw [expression?_ofList, expand_directCall hf hx,
    bindCalls_directCall _ hf.identifier hx.identifier]
  split
  · exact parse?_methodCall hf.isVariable hx.isVariable
  · exact parse?_directCall hf.isVariable hx.isVariable

/-- A function that is applied to a name is applied to what the name stands for. -/
theorem value_directCall {e : Expr} {b : Binding} {d : Datum}
    (hf : IsName ⟨s.now, s.settings.naturalUnits⟩ f)
    (hx : IsName ⟨s.now, s.settings.naturalUnits⟩ x)
    (hfunction : ∀ g, s.context.function? f = some g →
      s.context.scope.lookup f = .ok (.function g.closure))
    (hd : s.context.scope.lookup x = .ok d)
    (he : s.expression? ⟨b, String.ofList (directCall f x)⟩ = some e) :
    e.value s.context.scope = TableReport.applied s.context f d := by
  rw [expression?_directCall hf hx, Option.some.injEq] at he
  subst he
  unfold TableReport.applied
  cases hname : s.context.function? f with
  | none => exact value_call _ hd
  | some g => exact value_method (hfunction g hname) hd

theorem valueOf_eq_ok_iff {d : Declaration} {e : Expr} {v : Value} (he : s.expression? d = some e)
    (hv : v.isCallable = false) :
    s.valueOf d = .ok (v, s.context) ↔ ∃ r, e.value s.context.scope = .ok r ∧ Value.ofDatum r = v := by
  unfold valueOf
  rw [he]
  dsimp only
  cases e.value s.context.scope with
  | error cause => simp
  | ok r =>
    dsimp only
    split
    · next f hcallable =>
      constructor
      · intro h
        obtain ⟨rfl, -⟩ := Prod.mk.inj (Except.ok.inj h)
        cases hv
      · rintro ⟨r', hr', hvalue⟩
        cases hr'
        rw [hcallable] at hvalue
        rw [← hvalue] at hv
        cases hv
    · simp

/-- **The value of a function that is applied to a name.** -/
theorem valueOf_directCall_iff {v : Value} {d : Datum}
    (hf : IsName ⟨s.now, s.settings.naturalUnits⟩ f)
    (hx : IsName ⟨s.now, s.settings.naturalUnits⟩ x)
    (hfunction : ∀ g, s.context.function? f = some g →
      s.context.scope.lookup f = .ok (.function g.closure))
    (hd : s.context.scope.lookup x = .ok d) (hv : v.isCallable = false) :
    s.valueOf ⟨.anonymous, String.ofList (directCall f x)⟩ = .ok (v, s.context)
      ↔ ∃ r, TableReport.applied s.context f d = .ok r ∧ Value.ofDatum r = v := by
  have hexpr := expression?_directCall hf hx .anonymous
  rw [valueOf_eq_ok_iff hexpr hv, value_directCall hf hx hfunction hd hexpr]

/-- **The result of a line that applies a function to a name.** It is shown as the current stack
says. -/
theorem run_directCall (hf : isIdentifier f.toList = true) (hx : isIdentifier x.toList = true) {v : Value}
    (hvalue : s.valueOf ⟨.anonymous, String.ofList (directCall f x)⟩ = .ok (v, s.context)) :
    (s.run (directCall f x)).1
      = (s.noteOf (directCall f x) (s.context.resolveTemplate "") v).map outcomeOf := by
  have hplain := plainLine_directCall hf hx
  rw [run_eq_expressionEnding hplain, expressionEnding, if_neg hplain.nonempty, hplain.read]
  dsimp only
  rw [hvalue]
  dsimp only
  have htemplate : (itemOf s.context ⟨.anonymous, String.ofList (directCall f x)⟩ v []).template
      = s.context.resolveTemplate "" := rfl
  rw [htemplate]
  cases s.noteOf (directCall f x) (s.context.resolveTemplate "") v <;> rfl

end Values

end Session

end Worksheet
