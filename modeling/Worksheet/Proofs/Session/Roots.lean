import Worksheet.Proofs.Library.Operators
import Worksheet.Proofs.Notation.Radicals
import Worksheet.Proofs.Session.Percentages

/-!
# Lines with roots

A line with roots is the same as one in which a power in parentheses stands in place of each of them,
wherever a power may stand: as a summand, as a factor, as an exponent, in parentheses, but not in front of
an exponent.

* **`Session.run_trim`** — blanks at the ends of a line do not matter.
* **`Session.run_roots`** — the two lines have the same result and leave the same session behind.
* **`Session.negative_root`** — a minus sign in front of a root does not stand in front of its power.
-/

namespace Worksheet

open Text Expression Notation

section Lines

variable {k : Stratum} (a : RootFormula k)

theorem plainLine_roots (htrim : trim a.text = a.text) : PlainLine a.text where
  nonempty := by
    intro hnil
    have hstage := operatorStage_roots a
    obtain ⟨c, r, hcons, -⟩ := a.bare.text_eq_cons
    rw [hnil, operatorStage_eq_self (by simp), hcons] at hstage
    cases hstage
  trimmed := htrim
  signs c hc hsign := by
    have hall : ∀ m ∈ lineSigns, (isBlank m = false ∧ m ∉ ')' :: openingSigns ∧ isDigit m = false ∧
        m ∉ ".e+-".toList) ∧ isNameChar m = false ∧ isRootSign m = false := by decide
    obtain ⟨hchar, hname, hroot⟩ := hall c hsign
    exact not_mem_text_roots a hchar hname hroot hc

/-- Either there are no roots in the formula, or there is an operator at the root of the expression. -/
theorem isData_roots (names : Naming) (scope : Scope) :
    a.textWithPowers = a.text ∨ IsData ((a.closed.expr names).value scope) := by
  have hoperator : ∀ {k l r : Stratum} (op : Join k l r) x y, IsData ((Expr.call op.symbol [x, y]).value scope) := by
    intro k l r op x y
    cases op <;> exact Expr.isData_operator (by decide) _ _ scope
  induction a with
  | number n blanks | name w blanks => exact .inl rfl
  | group front inside blanks ih =>
    refine ih.imp_left fun hsame => ?_
    show '(' :: (front.chars ++ (inside.textWithPowers ++ ')' :: blanks.chars)) = _
    rw [hsame]
    rfl
  | root r x blanks => exact .inr (hoperator .pow _ _)
  | within _ part ih => exact ih
  | join op left front right => exact .inr (hoperator op _ _)

end Lines

namespace Session

variable (s : Session)

/-- Blanks at the ends of a line do not matter. -/
theorem run_trim (line : List Char) : s.run (trim line) = s.run line := by
  rw [run_eq_ending, run_eq_ending, LineKind.ofLine, LineKind.ofLine, trim_trim]

/-- **A root is one operand**: the line is the same as one in which a power in parentheses stands in place
of each root. A line that nests too deep is no expression. -/
theorem run_roots {k : Stratum} (a : RootFormula k) {line line' : List Char} (hline : trim line = a.text)
    (hline' : trim line' = a.textWithPowers) :
    (s.Admits a.bare → s.Admits a.closed → s.run line = s.run line') ∧
    (¬s.Admits a.bare → s.run line = (.error (.evaluation .malformed), s)) ∧
    (¬s.Admits a.closed → s.run line' = (.error (.evaluation .malformed), s)) := by
  have htrim : trim a.text = a.text := by rw [← hline, trim_trim]
  have htrim' : trim a.textWithPowers = a.textWithPowers := by rw [← hline', trim_trim]
  have hplain := plainLine_roots a htrim
  have hplain' : PlainLine a.textWithPowers := by
    rw [← a.text_closed] at htrim' ⊢
    exact plainLine_formula htrim'
  obtain ⟨hbare, hdeep⟩ := s.expression?_of_expand (expand_roots a _ htrim) .anonymous
  obtain ⟨hclosed, hdeep'⟩ := s.expression?_of_expand (expand_powers a _ htrim') .anonymous
  rw [← s.run_trim line, ← s.run_trim line', hline, hline']
  refine ⟨fun hadmits hadmits' => ?_, fun h => run_malformed hplain (hdeep h), fun h => run_malformed hplain' (hdeep' h)⟩
  rcases isData_roots a s.names s.context.scope with hsame | hdata
  · rw [hsame]
  · have hexpr := hbare hadmits
    rw [← a.expr_closed] at hexpr
    exact run_congr hplain hplain' hexpr (hclosed hadmits') hdata

/-- A root is the exponent of a power, and the radicand is a sum in parentheses. -/
theorem run_roots_exponent :
    let s := start {} (DateTime.midnight ⟨2024, 1, 31, by decide⟩)
    s.run " 5 * 2 ** √(x + 9) ".toList = s.run "5 * 2 ** (((x + 9))**(1/2))".toList := by
  intro s
  let digit (c : Char) (hc : IsDigits [c]) (blanks : Blanks) : Formula .power :=
    .within .power (.number (.ofDigits [c] hc) blanks)
  let x : Name := ⟨"x", isVariable_of_identifier (by decide) (by decide)⟩
  let radicand : Radicand := .group .none (.join .add
    (.within .sum (.within .product (.within .power (.name x .one)))) .one
    (.within .product (digit '9' ⟨by decide, by decide⟩ .none)))
  let factor (c : Char) (hc : IsDigits [c]) : RootFormula .operand := .number (.ofDigits [c] hc) .one
  let a : RootFormula .sum := .within .sum (.join .mul
    (.within .product (.within .power (factor '5' ⟨by decide, by decide⟩))) .one
    (.join .pow (factor '2' ⟨by decide, by decide⟩) .one (.root .square radicand .none)))
  have hadmits : s.Admits a.bare := by
    unfold Admits
    decide
  have hadmits' : s.Admits a.closed := by
    unfold Admits
    decide
  have hline : trim " 5 * 2 ** √(x + 9) ".toList = a.text := by decide
  have hline' : trim "5 * 2 ** (((x + 9))**(1/2))".toList = a.textWithPowers := by decide
  exact (s.run_roots a hline hline').1 hadmits hadmits'

/-- The signature that no function has. -/
def missing? {α : Type} : Evaluated α → Option String
  | .error (.unknownFunction signature) => some signature
  | _ => none

theorem eq_error_of_missing? {α : Type} {r : Evaluated α} {signature : String} (h : missing? r = some signature) :
    r = .error (.unknownFunction signature) := by
  unfold missing? at h
  split at h
  · rw [Option.some.inj h]
  · cases h

/-- **A minus sign in front of a root** belongs to the radicand: of a truth value there is no opposite, and
no power either. -/
theorem negative_root :
    let s := start {} (DateTime.midnight ⟨2024, 1, 31, by decide⟩)
    (s.valueOf ⟨.anonymous, "-√(1 == 1)"⟩).map Prod.fst = .error (.unknownFunction "- (bool)") ∧
    (s.valueOf ⟨.anonymous, "-(((1 == 1))**(1/2))"⟩).map Prod.fst = .error (.unknownFunction "** (bool, f64)") := by
  intro s
  exact ⟨eq_error_of_missing? (by decide +kernel), eq_error_of_missing? (by decide +kernel)⟩

end Session

end Worksheet
