import Worksheet.Proofs.Notation.Percentages
import Worksheet.Proofs.Notation.Roots

/-!
# Formulas with roots

The notation writes a power for a root, without parentheses around it. Where a formula may have a power,
this makes no difference: the root is one operand.

* **`RootFormula`** — formulas with roots in the places of powers.
* **`RootFormula.bare`** — the formula with the powers that the notation writes for the roots;
  `expand_roots` says that the text with the roots expands to what this formula expands to.
* **`RootFormula.closed`** — the formula with powers in parentheses; `expr_closed` says that this is the same
  expression.
* **`substitute_roots_formula`** — what the rule for roots does, operand by operand.
-/

namespace Worksheet

open Text Expression Notation

/-! ## Roots in formulas -/

namespace Expression

/-- A sign for a root. -/
inductive Radical where
  | square
  | cube
  | fourth

/-- The sign. -/
def Radical.sign : Radical → Char
  | square => '√'
  | cube => '∛'
  | fourth => '∜'

/-- The degree of the root. -/
def Radical.degree : Radical → Char
  | square => '2'
  | cube => '3'
  | fourth => '4'

/-- What a root is taken of: a number without a sign in its exponent, a name, or a formula in parentheses. -/
inductive Radicand where
  | number (n : Number) (unsigned : n.Unsigned)
  | name (w : Name)
  | group (front : Blanks) (inside : Formula .sum)

/-- An operand as a formula of its own. -/
def Formula.ofOperand (a : Formula .operand) : Formula .sum :=
  .within .sum (.within .product (.within .power a))

/-- A formula in parentheses. -/
def Formula.enclosed (a : Formula .sum) (blanks : Blanks) : Formula .operand := .group .none a blanks

namespace Radicand

/-- The radicand as it is written. -/
def formula : Radicand → Formula .operand
  | number n _ => .number n .none
  | name w => .name w .none
  | group front inside => .group front inside .none

/-- The radicand in one pair of parentheses. -/
def grouped : Radicand → Formula .operand
  | number n _ => (Formula.ofOperand (.number n .none)).enclosed .none
  | name w => (Formula.ofOperand (.name w .none)).enclosed .none
  | group front inside => .group front inside .none

/-- What stands in these parentheses. -/
def inside : Radicand → List Char
  | number n _ => n.text
  | name w => w.chars
  | group front a => front.chars ++ a.text

end Radicand

namespace Radical

theorem isDigits_degree (r : Radical) : IsDigits [r.degree] := by
  cases r <;> exact ⟨by decide, by decide⟩

theorem isDigits_one : IsDigits ['1'] := ⟨by decide, by decide⟩

/-- One divided by the degree, in parentheses. -/
def exponent (r : Radical) (blanks : Blanks) : Formula .operand :=
  .group .none
    (.within .sum (.join .div (.within .product (.within .power (.number (.ofDigits ['1'] isDigits_one) .none)))
      .none (.within .power (.number (.ofDigits [r.degree] r.isDigits_degree) .none))))
    blanks

/-- The power that the notation writes for a root. -/
def bare (r : Radical) (x : Radicand) (blanks : Blanks) : Formula .power :=
  .join .pow x.grouped .none (.within .power (r.exponent blanks))

/-- The radicand in parentheses to the power, and all of it in parentheses. -/
def closed (r : Radical) (x : Radicand) (blanks : Blanks) : Formula .power :=
  .within .power (Formula.enclosed
    (.within .sum (.within .product (.join .pow ((Formula.ofOperand x.formula).enclosed .none) .none
      (.within .power (r.exponent .none)))))
    blanks)

end Radical

/-- A formula with roots in the places of powers. -/
inductive RootFormula : Stratum → Type where
  | number (n : Number) (blanks : Blanks) : RootFormula .operand
  | name (w : Name) (blanks : Blanks) : RootFormula .operand
  | group (front : Blanks) (inside : RootFormula .sum) (blanks : Blanks) : RootFormula .operand
  | root (r : Radical) (x : Radicand) (blanks : Blanks) : RootFormula .power
  | within {k l : Stratum} (h : Within k l) (part : RootFormula k) : RootFormula l
  | join {k l r : Stratum} (op : Join k l r) (left : RootFormula l) (front : Blanks) (right : RootFormula r) :
      RootFormula k

namespace RootFormula

variable {k : Stratum}

/-- The text, with the roots written in some way. -/
def textWith (write : Radical → Radicand → List Char) {k : Stratum} : RootFormula k → List Char
  | number n blanks => n.text ++ blanks.chars
  | name w blanks => w.chars ++ blanks.chars
  | group front inside blanks => '(' :: (front.chars ++ (inside.textWith write ++ ')' :: blanks.chars))
  | root r x blanks => write r x ++ blanks.chars
  | within _ part => part.textWith write
  | join op left front right =>
    left.textWith write ++ (op.symbol.toList ++ (front.chars ++ right.textWith write))

/-- The formula with other formulas in place of the roots. -/
def replace (power : Radical → Radicand → Blanks → Formula .power) {k : Stratum} : RootFormula k → Formula k
  | number n blanks => .number n blanks
  | name w blanks => .name w blanks
  | group front inside blanks => .group front (inside.replace power) blanks
  | root r x blanks => power r x blanks
  | within h part => .within h (part.replace power)
  | join op left front right => .join op (left.replace power) front (right.replace power)

/-- The formula with the powers that the notation writes for the roots. -/
def bare (a : RootFormula k) : Formula k := a.replace Radical.bare

/-- The formula with the powers in parentheses. -/
def closed (a : RootFormula k) : Formula k := a.replace Radical.closed

/-- A root sign in front of the radicand. -/
def rootText (r : Radical) (x : Radicand) : List Char := r.sign :: x.formula.text

/-- The radicand in parentheses, to the power of one divided by the degree. -/
def powerText (r : Radical) (x : Radicand) : List Char :=
  "((".toList ++ (x.formula.text ++ (")**(1/".toList ++ [r.degree, ')', ')']))

/-- What the notation writes for a root. -/
def bareText (r : Radical) (x : Radicand) : List Char :=
  x.grouped.text ++ ("**(1/".toList ++ [r.degree, ')'])

/-- The formula as it is written. -/
def text (a : RootFormula k) : List Char := a.textWith rootText

/-- The formula as it is written with powers in parentheses in place of the roots. -/
def textWithPowers (a : RootFormula k) : List Char := a.textWith powerText

theorem text_replace {power : Radical → Radicand → Blanks → Formula .power} {write : Radical → Radicand → List Char}
    (h : ∀ r x blanks, (power r x blanks).text = write r x ++ blanks.chars) (a : RootFormula k) :
    (a.replace power).text = a.textWith write := by
  induction a with
  | number n blanks | name w blanks => rfl
  | group front inside blanks ih =>
    show '(' :: (front.chars ++ ((inside.replace power).text ++ ')' :: blanks.chars)) = _
    rw [ih]
    rfl
  | root r x blanks => exact h r x blanks
  | within _ part ih => exact ih
  | join op left front right ihl ihr =>
    show (left.replace power).text ++ (op.symbol.toList ++ (front.chars ++ (right.replace power).text)) = _
    rw [ihl, ihr]
    rfl

theorem text_bare (a : RootFormula k) : a.bare.text = a.textWith bareText := by
  refine text_replace (fun r x blanks => ?_) a
  simp [Radical.bare, bareText, Radical.exponent, Formula.text, Formula.textWith, Join.symbol, Blanks.none,
    Number.ofDigits, Numeral.text, fractionText, exponentText]

theorem text_closed (a : RootFormula k) : a.closed.text = a.textWithPowers := by
  refine text_replace (fun r x blanks => ?_) a
  simp [Radical.closed, powerText, Radical.exponent, Formula.ofOperand, Formula.enclosed, Formula.text,
    Formula.textWith, Join.symbol, Blanks.none, Number.ofDigits, Numeral.text, fractionText, exponentText]

/-- **Parentheses around the powers** make no other expression. -/
theorem expr_closed (names : Naming) (a : RootFormula k) : a.closed.expr names = a.bare.expr names := by
  have hroot : ∀ r x blanks, (Radical.closed r x blanks).expr names = (Radical.bare r x blanks).expr names := by
    intro r x blanks
    cases x <;> rfl
  unfold closed bare
  induction a with
  | number n blanks | name w blanks => rfl
  | group front inside blanks ih | within _ inside ih => exact ih
  | root r x blanks => exact hroot r x blanks
  | join op left front right ihl ihr =>
    show Expr.call op.symbol [(left.replace _).expr names, (right.replace _).expr names] = _
    rw [ihl, ihr]
    rfl

end RootFormula

end Expression

/-! ## The rule for roots -/

namespace Notation

/-- A text without parentheses opens and closes none. -/
theorem openBehind?_other_append {u : List Char} (hu : ∀ c ∈ u, c ≠ '(' ∧ c ≠ ')') (depth : ℕ) (rest : List Char) :
    openBehind? depth (u ++ rest) = openBehind? depth rest := by
  induction u with
  | nil => rfl
  | cons c u ih =>
    obtain ⟨hopen, hclose⟩ := hu c List.mem_cons_self
    rw [List.cons_append, openBehind?_other hopen hclose, ih fun d hd => hu d (List.mem_cons_of_mem c hd)]

theorem openBehind?_blanks (b : Blanks) (depth : ℕ) (rest : List Char) :
    openBehind? depth (b.chars ++ rest) = openBehind? depth rest := by
  refine openBehind?_other_append (fun c hc => ⟨?_, ?_⟩) depth rest
  all_goals
    rintro rfl
    exact absurd (b.blank _ hc) (by decide)

/-- The parentheses of a formula match. -/
theorem openBehind?_formula {k : Stratum} (a : Formula k) (depth : ℕ) (rest : List Char) :
    openBehind? depth (a.text ++ rest) = openBehind? depth rest := by
  induction a generalizing depth rest with
  | number n blanks =>
    have hnumber : ∀ c ∈ n.text, c ≠ '(' ∧ c ≠ ')' := by
      intro c hc
      constructor
      all_goals
        rintro rfl
        exact absurd (n.mem_text hc) (by decide)
    show openBehind? depth ((n.text ++ blanks.chars) ++ rest) = _
    rw [List.append_assoc, openBehind?_other_append hnumber, openBehind?_blanks]
  | name w blanks =>
    have hname : ∀ c ∈ w.chars, c ≠ '(' ∧ c ≠ ')' := by
      intro c hc
      constructor
      all_goals
        rintro rfl
        exact absurd (isNameChar_of_mem_name w hc) (by decide)
    show openBehind? depth ((w.chars ++ blanks.chars) ++ rest) = _
    rw [List.append_assoc, openBehind?_other_append hname, openBehind?_blanks]
  | group front inside blanks ih =>
    show openBehind? depth ('(' :: ((front.chars ++ (inside.text ++ ')' :: blanks.chars)) ++ rest)) = _
    simp only [List.append_assoc, List.cons_append]
    rw [openBehind?_open, openBehind?_blanks, ih, openBehind?, openBehind?_blanks]
  | within _ part ih => exact ih depth rest
  | join op left front right ihl ihr =>
    have hsymbol : ∀ c ∈ op.symbol.toList, c ≠ '(' ∧ c ≠ ')' := by cases op <;> decide
    show openBehind? depth ((left.text ++ (op.symbol.toList ++ (front.chars ++ right.text))) ++ rest) = _
    simp only [List.append_assoc]
    rw [ihl, openBehind?_other_append hsymbol, openBehind?_blanks, ihr]

theorem rootDegree?_sign (r : Radical) : rootDegree? r.sign = some r.degree := by
  cases r <;> rfl

theorem roots_of_operand {c degree : Char} {s operand rest : List Char} (before : List Char)
    (hdegree : rootDegree? c = some degree) (hoperand : rootOperand? s = some (operand, rest)) :
    roots before (c :: s) = some (['('] ++ operand ++ ")**(1/".toList ++ [degree, ')'], rest) := by
  unfold roots
  dsimp only
  rw [hdegree, hoperand]

theorem bareText_eq (r : Radical) (x : Radicand) :
    RootFormula.bareText r x = ['('] ++ x.inside ++ ")**(1/".toList ++ [r.degree, ')'] := by
  cases x <;>
    simp [RootFormula.bareText, Radicand.grouped, Radicand.inside, Formula.enclosed, Formula.ofOperand, Formula.text,
      Formula.textWith, Blanks.none]

/-- A run of operand characters is read to its end. -/
theorem rootOperand?_run {s rest : List Char} (hs : IsRun isOperandChar s)
    (hstop : ∀ c ∈ rest.head?, isOperandChar c = false) : rootOperand? (s ++ rest) = some (s, rest) := by
  obtain ⟨hne, hall⟩ := hs
  obtain ⟨c, t, rfl⟩ := List.exists_cons_of_ne_nil hne
  unfold rootOperand?
  split
  · next heq =>
    have hparen := hall c List.mem_cons_self
    rw [(List.cons.inj heq).1] at hparen
    exact absurd hparen (by decide)
  · rw [takeWhile_run hall hstop, dropWhile_run hall hstop]
    rfl

theorem rootOperand?_radicand (x : Radicand) {rest : List Char} (hrest : Border rest) :
    rootOperand? (x.formula.text ++ rest) = some (x.inside, rest) := by
  have hstop : ∀ c ∈ rest.head?, isOperandChar c = false := by
    intro c hc
    obtain ⟨hword, -, hpoint, -⟩ := hrest.head c hc
    rw [isOperandChar, Bool.or_eq_false_iff]
    exact ⟨isNameChar_of_not_isWordChar hword, beq_false_of_ne hpoint⟩
  cases x with
  | number n hn =>
    have hread := rootOperand?_run ⟨n.text_ne_nil, isOperandChar_of_mem_text hn⟩ hstop
    simpa [Radicand.formula, Radicand.inside, Formula.text, Formula.textWith, Blanks.none] using hread
  | name w =>
    have hchars : ∀ c ∈ w.chars, isOperandChar c = true := fun c hc =>
      isOperandChar_of_isNameChar (isNameChar_of_mem_name w hc)
    have hread := rootOperand?_run ⟨name_ne_nil w, hchars⟩ hstop
    simpa [Radicand.formula, Radicand.inside, Formula.text, Formula.textWith, Blanks.none] using hread
  | group front a =>
    have hbalanced : Balanced (front.chars ++ a.text) := by
      rw [Balanced, ClosesAt, openBehind?_blanks, ← List.append_nil a.text, openBehind?_formula]
      rfl
    have hclose : closeParen? 0 ((front.chars ++ a.text) ++ ')' :: rest) = some (front.chars ++ a.text, rest) :=
      closeParen?_eq_some_iff.mpr ⟨rfl, hbalanced⟩
    have hwritten : (Radicand.group front a).formula.text ++ rest = '(' :: ((front.chars ++ a.text) ++ ')' :: rest) := by
      simp [Radicand.formula, Formula.text, Formula.textWith, Blanks.none]
    rw [hwritten]
    exact hclose

/-- The rule covers a root sign and the radicand behind it. -/
theorem roots_rootText (r : Radical) (x : Radicand) (before : List Char) {rest : List Char} (hrest : Border rest) :
    roots before (RootFormula.rootText r x ++ rest) = some (RootFormula.bareText r x, rest) := by
  rw [bareText_eq]
  exact roots_of_operand before (rootDegree?_sign r) (rootOperand?_radicand x hrest)

/-- The rule does not look in front of a place. -/
theorem substituteFrom_roots (before s : List Char) : substituteFrom roots before s = roots.substitute s := by
  have hblind : ∀ before before' s, (fun _ : List Char => ()) before = (fun _ => ()) before' →
      roots before s = roots before' s := fun _ _ _ _ => rfl
  have hscan : Pattern.scanFrom roots before 0 s = Pattern.scanFrom roots [] 0 s :=
    Pattern.scanFrom_congr (fun _ _ _ _ => rfl) hblind rfl 0 s
  rw [substituteFrom, hscan]
  rfl

/-- Characters that are no root signs stay as they are. -/
theorem substitute_roots_free {u : List Char} (hu : Free isRootSign u) (rest : List Char) :
    roots.substitute (u ++ rest) = u ++ roots.substitute rest := by
  induction u with
  | nil => rfl
  | cons c u ih =>
    obtain ⟨hc, hu⟩ := free_cons_iff.mp hu
    have hnone : roots [] (c :: (u ++ rest)) = none := by
      rw [isRootSign, Option.isSome_eq_false_iff, Option.isNone_iff_eq_none] at hc
      unfold roots
      dsimp only
      rw [hc]
    calc roots.substitute (c :: (u ++ rest)) = c :: substituteFrom roots [c] (u ++ rest) := substituteFrom_of_none hnone
      _ = c :: (u ++ roots.substitute rest) := by rw [substituteFrom_roots, ih hu]

theorem substitute_roots_root (r : Radical) (x : Radicand) {rest : List Char} (hrest : Border rest) :
    roots.substitute (RootFormula.rootText r x ++ rest) = RootFormula.bareText r x ++ roots.substitute rest := by
  have hfit := substituteFrom_of_fit (List.cons_ne_nil _ _) (roots_rootText r x [] hrest)
  rwa [substituteFrom_roots, substituteFrom_roots] at hfit

theorem free_blanks_roots (b : Blanks) : Free isRootSign b.chars := by
  intro c hc
  rw [Bool.eq_false_iff]
  intro hroot
  have hblank := (rootSign_spec hroot).2.2.2
  rw [b.blank c hc] at hblank
  cases hblank

theorem free_number_roots (n : Number) : Free isRootSign n.text := by
  have hmarks : ∀ c ∈ ".e+-".toList, isRootSign c = false := by decide
  intro c hc
  rcases n.mem_text hc with hdigit | hmark
  · exact isRootSign_of_isOperandChar (isOperandChar_of_isNameChar (isNameChar_of_isDigit hdigit))
  · exact hmarks c hmark

theorem free_name_roots (w : Name) : Free isRootSign w.chars := fun _ hc =>
  isRootSign_of_isOperandChar (isOperandChar_of_isNameChar (isNameChar_of_mem_name w hc))

/-- **Every root becomes its power**, and nothing else changes. -/
theorem substitute_roots_formula {k : Stratum} (a : RootFormula k) {rest : List Char} (hrest : Border rest) :
    roots.substitute (a.text ++ rest) = a.textWith RootFormula.bareText ++ roots.substitute rest := by
  unfold RootFormula.text
  induction a generalizing rest with
  | number n blanks =>
    simp only [RootFormula.textWith, List.append_assoc]
    rw [substitute_roots_free (free_number_roots n), substitute_roots_free (free_blanks_roots blanks)]
  | name w blanks =>
    simp only [RootFormula.textWith, List.append_assoc]
    rw [substitute_roots_free (free_name_roots w), substitute_roots_free (free_blanks_roots blanks)]
  | group front inside blanks ih =>
    have hopen : Free isRootSign ('(' :: front.chars) := (free_blanks_roots front).cons (by decide)
    have hclose : Free isRootSign (')' :: blanks.chars) := (free_blanks_roots blanks).cons (by decide)
    have hborder : Border ((')' :: blanks.chars) ++ rest) := border_cons (by decide) _
    calc roots.substitute ('(' :: (front.chars ++ (inside.textWith RootFormula.rootText ++ ')' :: blanks.chars)) ++ rest)
        = roots.substitute (('(' :: front.chars) ++ (inside.textWith RootFormula.rootText ++ ((')' :: blanks.chars) ++ rest))) := by
          simp
      _ = ('(' :: front.chars) ++ (inside.textWith RootFormula.bareText ++ ((')' :: blanks.chars) ++ roots.substitute rest)) := by
          rw [substitute_roots_free hopen, ih hborder, substitute_roots_free hclose]
      _ = _ := by simp [RootFormula.textWith]
  | root r x blanks =>
    simp only [RootFormula.textWith, List.append_assoc]
    rw [substitute_roots_root r x (hrest.append_blanks blanks.blank), substitute_roots_free (free_blanks_roots blanks)]
  | within _ part ih => exact ih hrest
  | join op left front right ihl ihr =>
    have hsymbol : (∃ c r, op.symbol.toList = c :: r ∧ c ∈ borderSigns) ∧ Free isRootSign op.symbol.toList := by
      cases op <;> exact ⟨⟨_, _, rfl, by decide⟩, by decide⟩
    obtain ⟨⟨c, r, hcons, hc⟩, hfree⟩ := hsymbol
    have hborder : Border (op.symbol.toList ++ (front.chars ++ (right.textWith RootFormula.rootText ++ rest))) := by
      rw [hcons]
      exact border_cons hc _
    simp only [RootFormula.textWith, List.append_assoc]
    rw [ihl hborder, substitute_roots_free hfree, substitute_roots_free (free_blanks_roots front), ihr hrest]

/-! ## Expanding formulas with roots -/

/-- A sign that the rules in front of the one for roots look for. -/
def isEarlyMark (c : Char) : Bool := isSignMark c && !isRootSign c

theorem factorial_needs_early : Needs isEarlyMark factorial := by
  rintro before after ⟨out, rest⟩ h
  obtain ⟨operand, -, rfl, -⟩ := covered_factorial h
  exact ⟨'!', by simp, by decide⟩

theorem signs_need_early : Needs isEarlyMark signs := by
  have hone : ∀ c ∈ "÷×⋅·⁻".toList, isEarlyMark c = true := by decide
  rintro before after ⟨out, rest⟩ h
  rcases covered_signs h with ⟨c, hc, rfl, -⟩ | ⟨marks, digits, hmarks, -, ⟨rfl, -⟩ | ⟨rfl, -⟩⟩
  · exact ⟨c, List.mem_cons_self, hone c (List.mem_append_left ['⁻'] hc)⟩
  · exact ⟨'⁻', List.mem_cons_self, by decide⟩
  · obtain ⟨c, r, rfl⟩ := List.exists_cons_of_ne_nil hmarks.nonempty
    have hall : ∀ c ∈ "⁰¹²³⁴⁵⁶⁷⁸⁹".toList, isEarlyMark c = true := by decide
    exact ⟨c, List.mem_cons_self, hall c (mem_of_isSuperscript (hmarks.all c List.mem_cons_self))⟩

/-- Roots aside, a text needs a sign to be changed by the rules for operators. -/
theorem operatorStage_of_roots {s t : List Char} (hquote : '"' ∉ s) (hs : Free isEarlyMark s)
    (ht : roots.substitute s = t) (hfree : Free isOperatorMark t) : operatorStage s = t := by
  have hearly : ∀ p, Needs isEarlyMark p → substituteAll [p] s = s := fun p hp =>
    substituteAll_eq_self (List.forall_mem_singleton.mpr hp) hs
  have hlate : ∀ p, Needs isOperatorMark p → substituteAll [p] t = t := fun p hp =>
    substituteAll_eq_self (List.forall_mem_singleton.mpr hp) hfree
  have hroots : substituteAll [roots] s = t := by
    unfold substituteAll
    rw [mapPlain_of_not_mem _ hquote]
    exact ht
  unfold operatorStage
  rw [hearly factorial factorial_needs_early, hearly signs signs_need_early, hroots,
    hlate percentOf (percentages_need (by simp)), hlate percentStep (percentages_need (by simp))]

section Expanding

variable {k : Stratum} (a : RootFormula k)

/-- What stands in a formula with roots are root signs and what stands in formulas. -/
theorem mem_text_roots {c : Char} (hc : c ∈ a.text) : isRootSign c = true ∨ c ∈ a.bare.text := by
  have hroot : ∀ r x, c ∈ RootFormula.rootText r x → isRootSign c = true ∨ c ∈ RootFormula.bareText r x := by
    intro r x hc
    rcases List.mem_cons.mp hc with rfl | hc
    · exact .inl (by rw [isRootSign, rootDegree?_sign]; rfl)
    · refine .inr (List.mem_append_left _ ?_)
      cases x with
      | number n _ | name w =>
        show c ∈ '(' :: (_ ++ [')'])
        exact List.mem_cons_of_mem _ (List.mem_append_left _ hc)
      | group front inside => exact hc
  rw [a.text_bare]
  unfold RootFormula.text at hc
  induction a with
  | number n blanks | name w blanks => exact .inr hc
  | group front inside blanks ih =>
    simp only [RootFormula.textWith, List.mem_cons, List.mem_append] at hc ⊢
    tauto
  | root r x blanks =>
    have hx := hroot r x
    simp only [RootFormula.textWith, List.mem_append] at hc ⊢
    tauto
  | within _ part ih => exact ih hc
  | join op left front right ihl ihr =>
    simp only [RootFormula.textWith, List.mem_append] at hc ⊢
    tauto

theorem not_mem_text_roots {m : Char}
    (hm : isBlank m = false ∧ m ∉ ')' :: openingSigns ∧ isDigit m = false ∧ m ∉ ".e+-".toList)
    (hname : isNameChar m = false) (hroot : isRootSign m = false) : m ∉ a.text := by
  intro hmem
  rcases mem_text_roots a hmem with h | h
  · rw [hroot] at h
    cases h
  · exact not_mem_text a.bare hm hname h

theorem operatorStage_roots : operatorStage a.text = a.bare.text := by
  have hmarks : ∀ m ∈ operatorMarks, (isBlank m = false ∧ m ∉ ')' :: openingSigns ∧ isDigit m = false ∧
      m ∉ ".e+-".toList) ∧ isNameChar m = false := by decide
  refine operatorStage_of_roots (not_mem_text_roots a (by decide) (by decide) (by decide)) (fun c hc => ?_) ?_
    fun c hc => ?_
  · rw [Bool.eq_false_iff]
    intro hmark
    obtain ⟨hsign, hroot⟩ := Bool.and_eq_true_iff.mp hmark
    rw [Bool.not_eq_true'] at hroot
    obtain ⟨hchar, hname⟩ := hmarks c (List.contains_iff_mem.mp (isOperatorMark_of_isSignMark hsign))
    exact not_mem_text_roots a hchar hname hroot hc
  · have hformula := substitute_roots_formula a border_nil
    rwa [List.append_nil, ← a.text_bare, show roots.substitute [] = [] from rfl, List.append_nil] at hformula
  · rw [Bool.eq_false_iff]
    intro hmark
    obtain ⟨hchar, hname⟩ := hmarks c (List.contains_iff_mem.mp hmark)
    exact not_mem_text a.bare hchar hname hc

/-- **A formula with roots** expands to what the formula with bare powers expands to. -/
theorem expand_roots (o : Options) (htrim : trim a.text = a.text) :
    expand o a.text = a.bare.textWith (writtenAs (nameCall? o)) := by
  have hhead : a.text.head? ≠ some functionMark := fun h =>
    not_mem_text_roots a (m := functionMark) (by decide) (by decide) (by decide) (List.mem_of_mem_head? h)
  have hcolon : ':' ∉ a.bare.text := not_mem_text _ (by decide) (by decide)
  rw [expand_eq_expandStages o htrim hhead, expandStages, operatorStage_roots, substituteAll_ratio hcolon,
    decimals_eq_self hcolon, lateStages_text]

theorem expand_powers (o : Options) (htrim : trim a.textWithPowers = a.textWithPowers) :
    expand o a.textWithPowers = a.closed.textWith (writtenAs (nameCall? o)) := by
  rw [← a.text_closed] at htrim ⊢
  exact expand_text _ o htrim

end Expanding

end Notation

end Worksheet
