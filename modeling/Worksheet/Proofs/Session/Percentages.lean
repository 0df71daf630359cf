import Worksheet.Proofs.Library.Operators
import Worksheet.Proofs.Notation.Percentages
import Worksheet.Proofs.Session.Plain

/-!
# Lines with percentages

A line with a formula and a percentage behind it is the same as one with the formula's last summand in
parentheses, times the factor. For a formula without plus and minus signs outside parentheses this is the
whole formula.

* **`Session.expression?_of_expand`** — the expression that a formula is in a session.
* **`Session.run_percentLine`** — the two lines have the same result and leave the same session behind.
* **`Session.percentage_of_last_summand`** — the last summand is not the whole formula.
-/

namespace Worksheet

open Text Expression Notation

section Lines

variable (a : Formula .sum) (op : Sign) (front : Blanks) (n : Number)

theorem plainLine_percentLine : PlainLine (percentLine a op front n) where
  nonempty := by simp [percentLine_eq]
  trimmed := trim_percentLine a op front n
  signs c hc hsign := by
    have hall : ∀ m ∈ lineSigns, (isBlank m = false ∧ m ∉ ')' :: openingSigns ∧ isDigit m = false ∧
        m ∉ ".e+-".toList) ∧ isNameChar m = false ∧ m ≠ '%' := by decide
    obtain ⟨hchar, hname, hpercent⟩ := hall c hsign
    exact not_mem_percentLine a op front n hchar hname hpercent hc

/-- A formula has none of the signs that a worksheet looks for. -/
theorem plainLine_formula {k : Stratum} {a : Formula k} (htrim : trim a.text = a.text) : PlainLine a.text where
  nonempty := by
    obtain ⟨c, r, hcons, -⟩ := a.text_eq_cons
    rw [hcons]
    exact List.cons_ne_nil c r
  trimmed := htrim
  signs c hc hsign := by
    have hall : ∀ m ∈ lineSigns, (isBlank m = false ∧ m ∉ ')' :: openingSigns ∧ isDigit m = false ∧
        m ∉ ".e+-".toList) ∧ isNameChar m = false := by decide
    obtain ⟨hchar, hname⟩ := hall c hsign
    exact not_mem_text _ hchar hname hc

/-- At the root of the expression there is an operator. -/
theorem isData_raised (names : Naming) (scope : Scope) : IsData (((a.raised op n).expr names).value scope) := by
  match a with
  | .within .sum p => exact Expr.isData_operator (by decide) _ _ scope
  | .join .add left _ p => exact Expr.isData_operator (by decide) _ _ scope
  | .join .sub left _ p => exact Expr.isData_operator (by decide) _ _ scope

end Lines

namespace Session

section Formulas

variable (s : Session)

/-- What the names in formulas stand for. -/
def names : Naming :=
  naming (fun n => (s.context.function? n).isSome) (nameCall? ⟨s.now, s.settings.naturalUnits⟩)

/-- May a formula nest as deep as it does? -/
def Admits {k : Stratum} (a : Formula k) : Prop := Depth.start.Admits (a.levels s.names)

/-- A text that expands to what a formula expands to is the expression that the formula is. -/
theorem expression?_of_expand {k : Stratum} {a : Formula k} {body : List Char}
    (h : expand ⟨s.now, s.settings.naturalUnits⟩ body
      = a.textWith (writtenAs (nameCall? ⟨s.now, s.settings.naturalUnits⟩))) (b : Binding) :
    (s.Admits a → s.expression? ⟨b, String.ofList body⟩ = some (a.expr s.names)) ∧
      (¬s.Admits a → s.expression? ⟨b, String.ofList body⟩ = none) := by
  have hparse : s.expression? ⟨b, String.ofList body⟩
      = if Depth.start.Admits (a.levels s.names) then some (a.expr s.names) else none := by
    rw [expression?_ofList, h]
    exact parse?_formula _ _ a
  rw [hparse]
  exact ⟨fun hadmits => if_pos hadmits, fun hdeep => if_neg hdeep⟩

/-- **A percentage behind a formula** raises or lowers the last summand of the formula: the line is the
same as one with the summand in parentheses, times one plus or minus so many hundredths. A line that
nests too deep is no expression. -/
theorem run_percentLine (a : Formula .sum) (op : Sign) (front : Blanks) {n : Number} (hn : n.Unsigned) :
    (s.Admits (a.raised op n) → s.Admits (a.scaled op n) →
      s.run (percentLine a op front n) = s.run (a.lead ++ factorLine a.last op n)) ∧
    (¬s.Admits (a.raised op n) → s.run (percentLine a op front n) = (.error (.evaluation .malformed), s)) ∧
    (¬s.Admits (a.scaled op n) →
      s.run (a.lead ++ factorLine a.last op n) = (.error (.evaluation .malformed), s)) := by
  obtain ⟨hraised, hdeep⟩ := s.expression?_of_expand (expand_percentLine a op front _ hn) .anonymous
  obtain ⟨hscaled, hdeep'⟩ := s.expression?_of_expand (expand_scaled a op n _) .anonymous
  have hline := plainLine_percentLine a op front n
  have hline' := plainLine_formula (trim_scaled a op n)
  rw [← text_scaled]
  refine ⟨fun hadmits hadmits' => ?_, fun h => run_malformed hline (hdeep h), fun h => run_malformed hline' (hdeep' h)⟩
  have hexpr := hscaled hadmits'
  rw [a.expr_scaled] at hexpr
  exact run_congr hline hline' (hraised hadmits) hexpr (isData_raised a op n _ _)

end Formulas

/-- A product is a formula whose last summand is the whole of it. -/
theorem run_percentLine_product :
    let s := start {} (DateTime.midnight ⟨2024, 1, 31, by decide⟩)
    s.run "6 * 5 + 100%".toList = s.run "(6 * 5 ) * (1 + 100/100)".toList := by
  intro s
  let digit (c : Char) (hc : IsDigits [c]) : Formula .power := .within .power (.number (.ofDigits [c] hc) .one)
  let a : Formula .sum := .within .sum (.join .mul (.within .product (digit '6' ⟨by decide, by decide⟩)) .one
    (digit '5' ⟨by decide, by decide⟩))
  let n : Number := .ofDigits "100".toList ⟨by decide, by decide⟩
  have hn : n.Unsigned := by
    rintro e ⟨⟩
  have hadmits : s.Admits (a.raised .add n) := by
    unfold Admits
    decide
  have hadmits' : s.Admits (a.scaled .add n) := by
    unfold Admits
    decide
  exact (s.run_percentLine a .add .one hn).1 hadmits hadmits'

/-- **A percentage does not raise the whole of a sum.** -/
theorem percentage_of_last_summand :
    let s := start {} (DateTime.midnight ⟨2024, 1, 31, by decide⟩)
    let summand (t : List Char) (ht : IsDigits t) : Formula .product :=
      .within .product (.within .power (.number (.ofDigits t ht) .one))
    let a : Formula .sum := .join .add (.within .sum (summand "100".toList ⟨by decide, by decide⟩)) .one
      (summand "50".toList ⟨by decide, by decide⟩)
    let n : Number := .ofDigits "100".toList ⟨by decide, by decide⟩
    (s.valueOf ⟨.anonymous, String.ofList (percentLine a .add .one n)⟩).map Prod.fst = .ok (.int 200) ∧
    (s.valueOf ⟨.anonymous, String.ofList (factorLine a .add n)⟩).map Prod.fst = .ok (.int 300) := by
  intro s summand a n
  have hint : ∀ (r : Except EvalError (Value × Context)) i,
      (r.toOption.map fun p => p.1.same (.int i)) = some true → r.map Prod.fst = .ok (.int i) := by
    intro r i h
    cases r with
    | error e => cases h
    | ok p =>
      show Except.ok p.1 = _
      rw [eq_of_same_int (Option.some.inj h)]
  exact ⟨hint _ _ (by decide +kernel), hint _ _ (by decide +kernel)⟩

end Session

end Worksheet
