import Worksheet.Proofs.Library.Quantities
import Worksheet.Proofs.Notation.UnitPowers
import Worksheet.Proofs.Number.Neutral
import Worksheet.Proofs.Session.Percentages
import Worksheet.Proofs.Session.References

/-!
# Lines with powers of quantities

Where units are looked for, a quantity with an exponent behind its unit is the power of the whole quantity, not
the multiple of a power of the unit. The two have one dimension, so that nothing but the magnitude tells them
apart.

* **`powerOfQuantity`**, **`multipleOfPower`** — the two formulas, with their expressions and values.
* **`Session.run_quantityPower`** — what such a line comes to, and when it is the other one.
* **`Session.quantityPower_ne`** — two square metres are four.
-/

namespace Worksheet

open Text Expression Notation

section Formulas

variable (x : Number) (w : Name) (n : Nat)

/-- An exponent as an operand. -/
def exponentFormula : Formula .operand := .number (.ofDigits (showNat n) (isDigits_showNat n)) .none

/-- `(2 * m)**3`. -/
def powerOfQuantity : Formula .sum :=
  .within .sum (.within .product (.join .pow
    (.group .none (.within .sum (.join .mul (.within .product (.within .power (.number x .one))) .one
      (.within .power (.name w .none)))) .none)
    .none (.within .power (exponentFormula n))))

/-- `2 * m**3`. -/
def multipleOfPower : Formula .sum :=
  .within .sum (.join .mul (.within .product (.within .power (.number x .one))) .one
    (.join .pow (.name w .none) .none (.within .power (exponentFormula n))))

/-- The symbol of a unit as a name. -/
def unitName {u : MeasureUnit} (hu : u ∈ MeasureUnit.table) : Name where
  word := u.symbol
  isVariable := by
    have hall : ∀ s ∈ MeasureUnit.table.map MeasureUnit.symbol, isIdentifier s.toList = true ∧ isVariableName s = true := by
      decide
    obtain ⟨hidentifier, hvariable⟩ := hall _ (List.mem_map_of_mem hu)
    exact isVariable_of_identifier hidentifier hvariable

end Formulas

section Written

variable {o : Options} (hnatural : o.naturalUnits = true) {u : MeasureUnit} (hu : u ∈ MeasureUnit.table)
  (x : Number) (n : Nat)

include hnatural

/-- The symbol stands for a call of the function `unit`. -/
theorem nameCall?_unitName : ∃ c : NameCall, nameCall? o (unitName hu) = some c ∧ c.function = "unit" ∧
    c.text = unitCall u.symbol.toList ∧ c.exprs = [.text u.symbol] := by
  have hclock : clockCall? o.now (unitName hu) = none := by
    have hwords : ∀ v ∈ clockWords, (unitName hu).chars.map fold ≠ v := fun v hv heq =>
      (symbol_spec hu).2.2.1 v hv (heq ▸ List.infix_refl _)
    unfold clockCall?
    rw [if_neg (hwords _ (by decide)), if_neg (hwords _ (by decide))]
  have hunit : IsUnit o (unitName hu) := ⟨hnatural, u, hu, rfl⟩
  have hquotable := quotable_name (unitName hu)
  refine ⟨.quoted "unit" (by decide) (unitName hu).chars hquotable.1 hquotable.2, ?_, rfl, ?_, ?_⟩
  · unfold nameCall?
    rw [hclock]
    exact if_pos hunit
  · simp [NameCall.text, NameCall.quoted, unitCall, Name.chars, unitName]
  · simp [NameCall.quoted, Name.chars, unitName]

theorem writtenAs_unitName : writtenAs (nameCall? o) (unitName hu) = unitCall u.symbol.toList := by
  obtain ⟨c, hcall, -, htext, -⟩ := nameCall?_unitName hnatural hu
  rw [writtenAs, hcall]
  exact htext

theorem text_powerOfQuantity : (powerOfQuantity x (unitName hu) n).textWith (writtenAs (nameCall? o))
    = groupedPower x u.symbol.toList n := by
  simp [powerOfQuantity, exponentFormula, Formula.textWith, writtenAs_unitName hnatural hu, groupedPower,
    unitProduct, starred, Blanks.none, Blanks.one, Join.symbol, Number.ofDigits, Numeral.text, fractionText,
    exponentText]

theorem text_multipleOfPower : (multipleOfPower x (unitName hu) n).textWith (writtenAs (nameCall? o))
    = unitPower x u.symbol.toList n := by
  simp [multipleOfPower, exponentFormula, Formula.textWith, writtenAs_unitName hnatural hu, unitPower,
    unitProduct, starred, Blanks.none, Blanks.one, Join.symbol, Number.ofDigits, Numeral.text, fractionText,
    exponentText]

end Written

/-! ## Plain lines -/

section Lines

variable {u : MeasureUnit} (hu : u ∈ MeasureUnit.table) (x : Number) (n : Nat)

/-- A line of the characters that stand in powers of quantities. -/
theorem plainLine_of_power {s : List Char} (hne : s ≠ []) (htrim : trim s = s)
    (hs : ∀ c ∈ s, isPowerChar c = true ∨ c ∈ "⁰¹²³⁴⁵⁶⁷⁸⁹".toList) : PlainLine s where
  nonempty := hne
  trimmed := htrim
  signs c hc hsign := by
    have hall : ∀ m ∈ lineSigns, isPowerChar m = false ∧ m ∉ "⁰¹²³⁴⁵⁶⁷⁸⁹".toList := by decide
    rcases hs c hc with h | h
    · rw [(hall c hsign).1] at h
      cases h
    · exact (hall c hsign).2 h

include hu

theorem plainLine_unitProduct {front close : List Char} (hfront : ∀ c ∈ front, c = '(') (hclose : ∀ c ∈ close, c = ')') :
    PlainLine (unitProduct x u.symbol.toList n front close) := by
  obtain ⟨hfirst, hlast⟩ := ends_unitProduct x n u.symbol.toList close hfront
  exact plainLine_of_power (by simp [unitProduct, starred]) (trim_eq_self_of_ends hfirst hlast)
    fun c hc => .inl (isPowerChar_unitProduct x n hu hfront hclose c hc)

theorem plainLine_quantityPower (blanks : Blanks) (mark : ExponentMark) :
    PlainLine (quantityPower x u.symbol.toList n blanks mark) :=
  plainLine_of_power (by simp [quantityPower, x.text_ne_nil]) (trim_quantityPower x n _ blanks mark)
    (mem_quantityPower x n hu blanks mark)

end Lines

/-! ## Values -/

/-- The real that a number is as a factor. -/
def Expression.Number.magnitude (x : Number) : Float := x.token.magnitude

theorem token_exponent {n : Nat} (hn : n ≤ 127) :
    ∃ w : Int64, w.toInt = n ∧ (Number.ofDigits (showNat n) (isDigits_showNat n)).token = .int w := by
  obtain ⟨w, hw⟩ := exists_word (n := n) ⟨by omega, by omega⟩
  refine ⟨w, hw, ?_⟩
  exact decimalToken_whole (hw.trans (congrArg Nat.cast (readDigits_showNat n).symm))

namespace Session

variable (s : Session) {u : MeasureUnit} (hu : u ∈ MeasureUnit.table) (x : Number) (n : Nat)

section

variable (hnatural : s.settings.naturalUnits = true)

include hnatural

theorem levels_unitName : s.names.levels (unitName hu) = 2 := by
  obtain ⟨c, hcall, -⟩ := nameCall?_unitName (o := ⟨s.now, s.settings.naturalUnits⟩) hnatural hu
  unfold names naming
  dsimp only
  rw [hcall]

/-- The formulas do not nest too deep. -/
theorem admits_unitPowers :
    s.Admits (powerOfQuantity x (unitName hu) n) ∧ s.Admits (multipleOfPower x (unitName hu) n) := by
  have hlevels := s.levels_unitName hu hnatural
  constructor <;>
  · simp only [Admits, powerOfQuantity, multipleOfPower, exponentFormula, Formula.levels, Formula.first,
      Formula.behind, Formula.spine, hlevels]
    decide

/-- Without a function of that name declared, a unit is a call of the function of the library. -/
theorem expr_unitName (hfunction : s.context.function? "unit" = none) :
    s.names.expr (unitName hu) = .call "unit" [.text u.symbol] := by
  obtain ⟨c, hcall, hname, -, hargs⟩ := nameCall?_unitName (o := ⟨s.now, s.settings.naturalUnits⟩) hnatural hu
  unfold names naming
  dsimp only
  rw [hcall]
  dsimp only
  have hnot : ¬ (s.context.function? c.function).isSome = true := by simp [hname, hfunction]
  rw [if_neg hnot, hname, hargs]

end

section

variable {s n} (hnatural : s.settings.naturalUnits = true) (hfunction : s.context.function? "unit" = none)
  (hpos : 1 ≤ n) (hbound : n ≤ 127)

include hnatural hfunction hpos hbound

theorem value_powerOfQuantity : ((powerOfQuantity x (unitName hu) n).expr s.names).value s.context.scope
    = .ok (.quantity (.derived (wholePower (u.factor * x.magnitude) n) (u.dimension.pow (Int8.ofInt n)))) := by
  obtain ⟨w, hw, htoken⟩ := token_exponent hbound
  have hexpr : (powerOfQuantity x (unitName hu) n).expr s.names
      = .call "**" [.call "*" [literal x.token, .call "unit" [.text u.symbol]], .int w] := by
    have hformula : (powerOfQuantity x (unitName hu) n).expr s.names = .call "**"
        [.call "*" [literal x.token, s.names.expr (unitName hu)],
          literal (Number.ofDigits (showNat n) (isDigits_showNat n)).token] := rfl
    rw [hformula, htoken, s.expr_unitName hu hnatural hfunction]
    rfl
  have hmeasures := MeasureUnit.measures_of_mem u hu
  have hmultiple := value_multiple x.isNumber_token (value_unit hu s.context.scope) hmeasures
  rw [hexpr, value_power (by nofun) hmultiple hmeasures hw hpos hbound]
  rfl

theorem value_multipleOfPower : ((multipleOfPower x (unitName hu) n).expr s.names).value s.context.scope
    = .ok (.quantity (.derived (wholePower u.factor n * x.magnitude) (u.dimension.pow (Int8.ofInt n)))) := by
  obtain ⟨w, hw, htoken⟩ := token_exponent hbound
  have hexpr : (multipleOfPower x (unitName hu) n).expr s.names
      = .call "*" [literal x.token, .call "**" [.call "unit" [.text u.symbol], .int w]] := by
    have hformula : (multipleOfPower x (unitName hu) n).expr s.names = .call "*" [literal x.token,
        .call "**" [s.names.expr (unitName hu),
          literal (Number.ofDigits (showNat n) (isDigits_showNat n)).token]] := rfl
    rw [hformula, htoken, s.expr_unitName hu hnatural hfunction]
    rfl
  have hmeasures := MeasureUnit.measures_of_mem u hu
  have hexponent : (Int8.ofInt n).toInt = n := Int8.toInt_ofInt_of_le (by omega) (by omega)
  have hpower := value_power (by nofun) (value_unit hu s.context.scope) hmeasures hw hpos hbound
  have hpowered : (u.dimension.pow (Int8.ofInt n)).Measures := hmeasures.pow (by omega)
  rw [hexpr, value_multiple x.isNumber_token hpower hpowered]
  rfl

end

theorem valueOf_of_quantity {s : Session} {d : Declaration} {e : Expr} {q : Quantity} (he : s.expression? d = some e)
    (hvalue : e.value s.context.scope = .ok (.quantity q)) : s.valueOf d = .ok (.quantity q, s.context) := by
  unfold valueOf
  rw [he]
  dsimp only
  rw [hvalue]
  rfl

section

variable {s n} (hnatural : s.settings.naturalUnits = true)

include hnatural

/-- The lines are the expressions of the two formulas. -/
theorem expression?_powers (blanks : Blanks) (mark : ExponentMark) :
    s.expression? ⟨.anonymous, String.ofList (quantityPower x u.symbol.toList n blanks mark)⟩
        = some ((powerOfQuantity x (unitName hu) n).expr s.names) ∧
      s.expression? ⟨.anonymous, String.ofList (groupedPower x u.symbol.toList n)⟩
        = some ((powerOfQuantity x (unitName hu) n).expr s.names) ∧
      s.expression? ⟨.anonymous, String.ofList (unitPower x u.symbol.toList n)⟩
        = some ((multipleOfPower x (unitName hu) n).expr s.names) := by
  obtain ⟨hpower, hmultiple⟩ := s.admits_unitPowers hu x n hnatural
  have hpower' := text_powerOfQuantity (o := ⟨s.now, s.settings.naturalUnits⟩) hnatural hu x n
  have hmultiple' := text_multipleOfPower (o := ⟨s.now, s.settings.naturalUnits⟩) hnatural hu x n
  refine ⟨(s.expression?_of_expand ?_ .anonymous).1 hpower, (s.expression?_of_expand ?_ .anonymous).1 hpower,
    (s.expression?_of_expand ?_ .anonymous).1 hmultiple⟩
  · exact (expand_quantityPower x n hnatural hu blanks mark).trans hpower'.symm
  · exact (expand_unitProduct x n hnatural hu (by decide) (by decide)).trans hpower'.symm
  · exact (expand_unitProduct x n hnatural hu (by decide) (by decide)).trans hmultiple'.symm

variable (hfunction : s.context.function? "unit" = none) (hpos : 1 ≤ n) (hbound : n ≤ 127)

include hu hfunction hpos hbound

theorem valueOf_quantityPower (blanks : Blanks) (mark : ExponentMark) :
    s.valueOf ⟨.anonymous, String.ofList (quantityPower x u.symbol.toList n blanks mark)⟩
      = .ok (.quantity (.derived (wholePower (u.factor * x.magnitude) n) (u.dimension.pow (Int8.ofInt n))),
        s.context) :=
  valueOf_of_quantity (expression?_powers hu x hnatural blanks mark).1
    (value_powerOfQuantity hu x hnatural hfunction hpos hbound)

theorem valueOf_unitPower :
    s.valueOf ⟨.anonymous, String.ofList (unitPower x u.symbol.toList n)⟩
      = .ok (.quantity (.derived (wholePower u.factor n * x.magnitude) (u.dimension.pow (Int8.ofInt n))),
        s.context) :=
  valueOf_of_quantity (expression?_powers hu x hnatural .none .stars).2.2
    (value_multipleOfPower hu x hnatural hfunction hpos hbound)

end

/-- **A quantity with an exponent behind its unit** is the power of the quantity: the line is the same as one with
the quantity in parentheses. So its magnitude is the power of the whole magnitude, while that of the multiple of a
power of the unit is the multiple. The lines have one value exactly if the two are one real, and they do if the
exponent or the number is one. -/
theorem run_quantityPower (s : Session) (hnatural : s.settings.naturalUnits = true) (x : Number) (blanks : Blanks)
    {u : MeasureUnit} (hu : u ∈ MeasureUnit.table) {n : Nat} (hpos : 1 ≤ n) (hbound : n ≤ 127) (mark : ExponentMark) :
    let line := quantityPower x u.symbol.toList n blanks mark
    let multiple := unitPower x u.symbol.toList n
    let dimension := u.dimension.pow (Int8.ofInt n)
    s.run line = s.run (groupedPower x u.symbol.toList n) ∧
    (s.context.function? "unit" = none →
      s.valueOf ⟨.anonymous, String.ofList line⟩
        = .ok (.quantity (.derived (wholePower (u.factor * x.magnitude) n) dimension), s.context) ∧
      s.valueOf ⟨.anonymous, String.ofList multiple⟩
        = .ok (.quantity (.derived (wholePower u.factor n * x.magnitude) dimension), s.context) ∧
      (s.valueOf ⟨.anonymous, String.ofList line⟩ = s.valueOf ⟨.anonymous, String.ofList multiple⟩ ↔
        wholePower (u.factor * x.magnitude) n = wholePower u.factor n * x.magnitude) ∧
      (n = 1 ∨ x.magnitude = 1.0 → s.run line = s.run multiple)) := by
  intro line multiple dimension
  have hline : PlainLine line := plainLine_quantityPower hu x n blanks mark
  have hmultiple : PlainLine multiple := plainLine_unitProduct hu x n (by decide) (by decide)
  obtain ⟨hexpr, hgrouped, -⟩ := expression?_powers hu x hnatural blanks mark (n := n)
  refine ⟨run_congr hline (plainLine_unitProduct hu x n (by decide) (by decide)) hexpr hgrouped
    (Expr.isData_operator (by decide) _ _ _), fun hfunction => ?_⟩
  have hpower := valueOf_quantityPower hu x hnatural hfunction hpos hbound blanks mark
  have hunit := valueOf_unitPower hu x hnatural hfunction hpos hbound
  have hsame : s.valueOf ⟨.anonymous, String.ofList line⟩ = s.valueOf ⟨.anonymous, String.ofList multiple⟩ ↔
      wholePower (u.factor * x.magnitude) n = wholePower u.factor n * x.magnitude := by
    rw [hpower, hunit]
    constructor
    · intro heq
      injection heq with heq
      injection heq with hquantity
      injection hquantity with hquantity
      exact congrArg Quantity.si hquantity
    · intro heq
      rw [heq]
  refine ⟨hpower, hunit, hsame, fun hone => ?_⟩
  have hreal : wholePower (u.factor * x.magnitude) n = wholePower u.factor n * x.magnitude := by
    rcases hone with rfl | hone
    · exact (Real.wholePower_one _).trans (congrArg (· * x.magnitude) (Real.wholePower_one u.factor).symm)
    · rw [hone, Real.mul_one_eq, Real.mul_one_eq]
  refine run_congr_of_valueOf hline hmultiple (hsame.mpr hreal) fun v c hvalue => ?_
  rw [hunit] at hvalue
  cases hvalue
  rfl

/-- In superscript the exponent is one of the whole quantity as well. -/
theorem run_quantityPower_superscript :
    let s := start { naturalUnits := true } (DateTime.midnight ⟨2024, 1, 31, by decide⟩)
    s.run "2 m²".toList = s.run "(2 * unit(\"m\"))**2".toList ∧
      s.run "2 km¹".toList = s.run "2 * unit(\"km\")**1".toList := by
  intro s
  let x : Number := .ofDigits ['2'] ⟨by decide, by decide⟩
  have hnatural : s.settings.naturalUnits = true := rfl
  have hfunction : s.context.function? "unit" = none := rfl
  have hmetre : ⟨"m", 1.0, MeasureUnit.length⟩ ∈ MeasureUnit.table := .tail _ (.head _)
  have hkilometre : ⟨"km", 1000.0, MeasureUnit.length⟩ ∈ MeasureUnit.table := .head _
  exact ⟨(s.run_quantityPower hnatural x .one hmetre (by decide) (by decide) .superscript (n := 2)).1,
    ((s.run_quantityPower hnatural x .one hkilometre (by decide) (by decide) .superscript (n := 1)).2 hfunction).2.2.2
      (.inl rfl)⟩

/-- **Two square metres are four**: the number is squared, too. -/
theorem quantityPower_ne :
    let s := start { naturalUnits := true } (DateTime.midnight ⟨2024, 1, 31, by decide⟩)
    let area : Dimension := #v[2, 0, 0, 0, 0, 0, 0]
    s.valueOf ⟨.anonymous, String.ofList "2 m**2".toList⟩ = .ok (.quantity ⟨4.0, area, none⟩, s.context) ∧
    s.valueOf ⟨.anonymous, String.ofList "2 * unit(\"m\")**2".toList⟩
      = .ok (.quantity ⟨2.0, area, none⟩, s.context) ∧
    s.valueOf ⟨.anonymous, String.ofList "2 m**2".toList⟩
      ≠ s.valueOf ⟨.anonymous, String.ofList "2 * unit(\"m\")**2".toList⟩ := by
  intro s area
  let x : Number := .ofDigits ['2'] ⟨by decide, by decide⟩
  have hnatural : s.settings.naturalUnits = true := rfl
  have hfunction : s.context.function? "unit" = none := rfl
  have hmetre : ⟨"m", 1.0, MeasureUnit.length⟩ ∈ MeasureUnit.table := .tail _ (.head _)
  have hdimension : MeasureUnit.length.pow (Int8.ofInt (2 : Nat)) = area := by
    simp only [MeasureUnit.length, Dimension.pow, Vector.map_mk, List.map_toArray, List.map_cons, List.map_nil]
    decide
  have hcoherent : MeasureUnit.coherent? area = none := rfl
  have hunnamed : ∀ y, Quantity.derived y area = ⟨y, area, none⟩ := by
    intro y
    rw [Quantity.derived, hcoherent]
    rfl
  have htoken : x.token = .int 2 := decimalToken_whole (by decide)
  have hmagnitude : x.magnitude = Real.ofWord 2 := congrArg Token.magnitude htoken
  have hfour : wholePower (1.0 * x.magnitude) 2 = 4.0 := by
    rw [Real.wholePower_two, hmagnitude]
    rfl
  have htwo : wholePower 1.0 2 * x.magnitude = 2.0 := by
    rw [Real.wholePower_two, hmagnitude]
    rfl
  have hpower := valueOf_quantityPower hmetre x hnatural hfunction (n := 2) (by decide) (by decide) .one .stars
  have hunit := valueOf_unitPower hmetre x hnatural hfunction (n := 2) (by decide) (by decide)
  dsimp only at hpower hunit
  rw [hdimension] at hpower hunit
  have hline : s.valueOf ⟨.anonymous, String.ofList "2 m**2".toList⟩ = .ok (.quantity ⟨4.0, area, none⟩, s.context) :=
    by
    rw [← hfour, ← hunnamed]
    exact hpower
  have hmultiple : s.valueOf ⟨.anonymous, String.ofList "2 * unit(\"m\")**2".toList⟩
      = .ok (.quantity ⟨2.0, area, none⟩, s.context) := by
    rw [← htwo, ← hunnamed]
    exact hunit
  refine ⟨hline, hmultiple, fun heq => ?_⟩
  rw [hline, hmultiple] at heq
  injection heq with heq
  injection heq with hquantity
  injection hquantity with hquantity
  have hreal : (4.0 : Float) ≠ 2.0 := by decide
  exact hreal (congrArg Quantity.si hquantity)

end Session

end Worksheet
