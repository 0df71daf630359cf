import Worksheet.Proofs.Notation.Exponents
import Worksheet.Proofs.Notation.Formula
import Worksheet.Proofs.Notation.Kept

/-!
# Quantities with an exponent

A number and a unit symbol become one operand in parentheses, and an exponent that stands behind the symbol
stays behind the parentheses. So it is an exponent of the number as well as of the unit.

* **`ExponentMark`** — the two ways to write an exponent; `operatorStage_exponent` makes one of them.
* **`lateStages_quantity`** — a quantity in front of a text without letters is expanded by itself.
* **`lateStages_unitProduct`** — a unit that is written as a call stays as it is.
* **`expand_unitProduct`**, **`expand_quantityPower`** — the expansions of the lines.
-/

namespace Worksheet.Notation

open Text Expression

/-! ## Lines -/

/-- How an exponent is written behind an operand. -/
inductive ExponentMark where
  /-- Behind two stars. -/
  | stars
  /-- In superscript. -/
  | superscript

/-- An exponent behind two stars. -/
def starred (n : Nat) : List Char := "**".toList ++ showNat n

/-- An exponent as it is written. -/
def ExponentMark.text (n : Nat) : ExponentMark → List Char
  | stars => starred n
  | superscript => Display.superscript n

section Lines

variable (x : Number) (symbol : List Char) (n : Nat)

/-- A quantity with an exponent behind its unit: `2 m**3`. -/
def quantityPower (blanks : Blanks) (mark : ExponentMark) : List Char :=
  x.text ++ (blanks.chars ++ symbol) ++ mark.text n

/-- A number times a unit with an exponent behind it, and parentheses in between. -/
def unitProduct (front close : List Char) : List Char :=
  front ++ (x.text ++ " * ".toList ++ unitCall symbol) ++ (close ++ starred n)

/-- The power of a quantity: `(2 * unit("m"))**3`. -/
def groupedPower : List Char := unitProduct x symbol n ['('] [')']

/-- A multiple of the power of a unit: `2 * unit("m")**3`. -/
def unitPower : List Char := unitProduct x symbol n [] []

end Lines

/-! ## Characters -/

/-- A character of a line with an exponent behind stars. -/
def isPowerChar (c : Char) : Bool := isNameChar c || isBlank c || ".+-*()\"".toList.contains c

theorem isPowerChar_of_isNameChar {c : Char} (h : isNameChar c = true) : isPowerChar c = true := by
  rw [isPowerChar, h]
  rfl

theorem isPowerChar_of_isBlank {c : Char} (h : isBlank c = true) : isPowerChar c = true := by
  rw [isPowerChar, h, Bool.or_true, Bool.true_or]

theorem isPowerChar_of_isOperatorMark (c : Char) (hc : isOperatorMark c = true) : isPowerChar c = false := by
  have hmarks : ∀ m ∈ operatorMarks, isPowerChar m = false := by decide
  exact hmarks c (List.contains_iff_mem.mp hc)

theorem isPowerChar_number (x : Number) : ∀ c ∈ x.text, isPowerChar c = true := by
  intro c hc
  rcases x.mem_text hc with hdigit | hsign
  · exact isPowerChar_of_isNameChar (isNameChar_of_isDigit hdigit)
  · have hall : ∀ c ∈ ".e+-".toList, isPowerChar c = true := by decide
    exact hall c hsign

theorem isPowerChar_starred (n : Nat) : ∀ c ∈ starred n, isPowerChar c = true := by
  intro c hc
  rcases List.mem_append.mp hc with hc | hc
  · have hall : ∀ c ∈ "**".toList, isPowerChar c = true := by decide
    exact hall c hc
  · exact isPowerChar_of_isNameChar (isNameChar_of_isDigit (isDigit_of_mem_showNat hc))

theorem isPowerChar_unitCall {u : MeasureUnit} (hu : u ∈ MeasureUnit.table) :
    ∀ c ∈ unitCall u.symbol.toList, isPowerChar c = true := by
  have hsymbol : ∀ c ∈ u.symbol.toList, isPowerChar c = true := fun c hc =>
    isPowerChar_of_isNameChar (isNameChar_of_mem_symbol hu hc)
  have hquoted : ∀ c ∈ inQuotes u.symbol.toList, isPowerChar c = true :=
    List.forall_mem_append.mpr ⟨List.forall_mem_append.mpr ⟨by decide, hsymbol⟩, by decide⟩
  exact List.forall_mem_append.mpr ⟨List.forall_mem_append.mpr ⟨by decide, hquoted⟩, by decide⟩

/-! ## Exponents -/

section Exponents

variable {n : Nat}

theorem starred_no_letters : ∀ c ∈ starred n, isSmall (fold c) = false ∧ c ≠ '"' := by
  intro c hc
  rcases List.mem_append.mp hc with hc | hc
  · have hall : ∀ c ∈ "**".toList, isSmall (fold c) = false ∧ c ≠ '"' := by decide
    exact hall c hc
  · have hdecimal := isDecimal_of_isDigit (isDigit_of_mem_showNat hc)
    refine ⟨isSmall_fold_of_isDecimal hdecimal, ?_⟩
    rintro rfl
    cases hdecimal

theorem border_starred (n : Nat) : Border (starred n) := border_cons (by decide) _

theorem last_starred (n : Nat) : ∀ c ∈ (starred n).getLast?, isBlank c = false := by
  intro c hc
  rw [starred, List.getLast?_append_of_ne_nil _ (showNat_ne_nil n)] at hc
  exact isBlank_of_isDecimal (isDecimal_of_isDigit (isDigit_of_mem_showNat (List.mem_of_getLast? hc)))

theorem superscript_ne_nil (n : Nat) : Display.superscript n ≠ [] := by
  unfold Display.superscript
  simp [showNat_ne_nil]

/-- A superscript becomes an exponent behind stars. -/
theorem substitute_signs_superscript {s : List Char} (hs : ∀ c ∈ s, isOperatorMark c = false) (n : Nat) :
    signs.substitute (s ++ Display.superscript n) = s ++ starred n := by
  have hexponent : exponentOperand (n : Int) = showNat n := by
    unfold exponentOperand
    rw [if_neg (by omega), Int.natAbs_natCast]
  rw [substitute_signs_append hs, Pattern.substitute_of_whole (superscript_ne_nil n) (signs_superscript [] n), hexponent]
  rfl

theorem mem_superscript {c : Char} (hc : c ∈ Display.superscript n) : c ∈ "⁰¹²³⁴⁵⁶⁷⁸⁹".toList := by
  have hnonneg : ¬(n : Int) < 0 := by omega
  rw [Display.superscript, if_neg hnonneg] at hc
  obtain ⟨d, hd, rfl⟩ := List.mem_map.mp hc
  refine mem_of_isSuperscript ?_
  rw [isSuperscript, superscriptDigit?_superscriptDigit (isDigit_of_mem_showNat hd)]
  rfl

/-- Either way the exponent stands behind stars when the rules for operators have been applied. -/
theorem operatorStage_exponent {s : List Char} (hs : ∀ c ∈ s, isOperatorMark c = false ∧ c ≠ '"')
    (mark : ExponentMark) : operatorStage (s ++ mark.text n) = s ++ starred n := by
  have hfree : ∀ c ∈ s ++ starred n, isOperatorMark c = false := by
    intro c hc
    rcases List.mem_append.mp hc with hc | hc
    · exact (hs c hc).1
    · exact free_of_kind isPowerChar_of_isOperatorMark (isPowerChar_starred n) c hc
  cases mark with
  | stars => exact operatorStage_eq_self hfree
  | superscript =>
    -- no factorial stands in front of the exponent, and behind the rule for signs there are no marks
    have hearly : ∀ c ∈ s ++ Display.superscript n, c ≠ '!' ∧ c ≠ '"' := by
      intro c hc
      rcases List.mem_append.mp hc with hc | hc
      · refine ⟨?_, (hs c hc).2⟩
        rintro rfl
        exact absurd (hs _ hc).1 (by decide)
      · have hall : ∀ c ∈ "⁰¹²³⁴⁵⁶⁷⁸⁹".toList, c ≠ '!' ∧ c ≠ '"' := by decide
        exact hall c (mem_superscript hc)
    have hquote : '"' ∉ s ++ Display.superscript n := fun hmem => (hearly _ hmem).2 rfl
    have hfactorial : substituteAll [factorial] (s ++ Display.superscript n) = s ++ Display.superscript n := by
      have hneeds : Needs (· == '!') factorial := by
        refine needs_of_mem fun before after m h => ?_
        obtain ⟨operand, -, rfl, -⟩ := covered_factorial h
        simp
      exact substituteAll_eq_self (List.forall_mem_singleton.mpr hneeds)
        fun c hc => beq_false_of_ne (hearly c hc).1
    have hsigns : substituteAll [signs] (s ++ Display.superscript n) = s ++ starred n := by
      unfold substituteAll
      rw [mapPlain_of_not_mem _ hquote]
      exact substitute_signs_superscript (fun c hc => (hs c hc).1) n
    have hlate : ∀ p, Needs isOperatorMark p → substituteAll [p] (s ++ starred n) = s ++ starred n :=
      fun p hp => substituteAll_eq_self (List.forall_mem_singleton.mpr hp) hfree
    show operatorStage (s ++ Display.superscript n) = _
    unfold operatorStage
    rw [hfactorial, hsigns, hlate roots (roots_needs.mono fun _ => isOperatorMark_of_isSignMark),
      hlate percentOf (percentages_need (by simp)), hlate percentStep (percentages_need (by simp))]

end Exponents

/-! ## The rules behind the one for decimals -/

/-- The patterns of the rules for the clock and for durations. -/
def timePatterns (now : DateTime) : List (Pattern (List Char)) :=
  [clockWord "today".toList (dateCall now), clockWord "now".toList (dateTimeCall now)] ++ spanTable.map span

/-- A pattern that finds nothing in numbers, nor in what looks like none of the notation. -/
structure Late (o : Options) (p : Pattern (List Char)) : Prop where
  bordered : Bordered p
  needs : Needs isWordLetter p
  stops : ∀ x : Number, StopsBehind p x.text
  untouched : ∀ {s}, Untouched o s → p.substitute s = s

section Late

variable {o : Options} {p : Pattern (List Char)}

theorem late_timePattern (hp : p ∈ timePatterns o.now) : Late o p ∧ ∀ a, StopsBehind p a := by
  have hclock : ∀ {word} (hword : IsKeyword word) (hmem : word ∈ clockWords) (out : List Char),
      Late o (clockWord word out) ∧ ∀ a, StopsBehind (clockWord word out) a := by
    refine fun {word} hword hmem out => ⟨⟨bordered_clockWord hword out, needs_clockWord hmem out,
      fun x => stopsBehind_clockWord hword out _, fun h => ?_⟩, stopsBehind_clockWord hword out⟩
    exact clockWord_substitute_eq_self out hword fun v hv heq => h.clock v hv (by rwa [heq])
  rcases List.mem_append.mp hp with hp | hp
  · simp only [List.mem_cons, List.not_mem_nil, or_false] at hp
    rcases hp with rfl | rfl
    · exact hclock isKeyword_words.1 (by decide) _
    · exact hclock isKeyword_words.2.1 (by decide) _
  · obtain ⟨w, hw, rfl⟩ := List.mem_map.mp hp
    exact ⟨⟨bordered_span w, needs_span hw, fun x => stopsBehind_span hw _, fun h => h.span hw⟩, stopsBehind_span hw⟩

theorem late_quantity : Late o quantity :=
  ⟨bordered_quantity, needs_quantity, stopsBehind_quantity_number, fun h => h.quantity⟩

theorem late_bareUnit (hnatural : o.naturalUnits = true) : Late o bareUnit :=
  ⟨bordered_bareUnit, needs_bareUnit, fun _ => stopsBehind_bareUnit _,
    fun h => bareUnit_substitute_eq_self (h.unit hnatural)⟩

/-- A number in front of the name of a function is left alone. -/
theorem Late.substitute_front (hp : Late o p) (x : Number) {u : List Char}
    (hu : ∀ c ∈ u, isBlank c = true ∨ c ∈ leadingSigns) :
    p.substitute (u ++ (x.text ++ " * unit(".toList)) = u ++ (x.text ++ " * unit(".toList) := by
  have hblank : ∀ c ∈ [' '], isBlank c = true := by decide
  have hborder : Border " * unit(".toList := Border.append_blanks hblank (border_cons (by decide) " unit(".toList)
  have hmarks : ∀ c ∈ " * ".toList, isBlank c = true ∨ c ∈ leadingSigns := by decide
  have hname : "unit" ∈ constructorNames := by decide
  have hcall : Untouched o "unit(".toList := (untouched_call hname (List.forall_mem_nil _)).1
  have hsplit : " * unit(".toList = " * ".toList ++ "unit(".toList := by decide
  rw [hp.bordered.substitute_marks hu, hp.bordered.substitute_append (hp.stops x) hborder,
    hp.needs.substitute_number, hsplit, hp.bordered.substitute_marks hmarks, hp.untouched hcall]

/-- A text that no pattern behind the rule for decimals changes. -/
theorem lateStages_eq_self {s : List Char} (hquote : '"' ∉ s) (hat : '@' ∉ s) (hnatural : o.naturalUnits = true)
    (h : ∀ {p}, Late o p → p.substitute s = s) : lateStages o s = s := by
  have htime : ∀ ps ⊆ timePatterns o.now, substituteAll ps s = s := by
    intro ps hsub
    unfold substituteAll
    rw [mapPlain_of_not_mem _ hquote]
    exact foldl_substitute_eq_self fun p hp => h (late_timePattern (hsub hp)).1
  have hclock : clockStage o.now s = s := htime _ (List.subset_append_left _ _)
  have hspan : spanStage s = s := htime _ (List.subset_append_right _ _)
  have hunits : unitsWithin false o s = s := by
    unfold unitsWithin
    rw [hnatural, mapPlain_of_not_mem _ hquote, h late_quantity, mapPlain_of_not_mem _ hquote,
      h (late_bareUnit hnatural)]
    rfl
  rw [lateStages, hclock, hspan, hunits, stackStage_eq_self hat]

end Late

/-! ## Quantities in front of an exponent -/

/-- Patterns that do not look across a border change the two sides of it by themselves. -/
theorem substituteAll_append {ps : List (Pattern (List Char))}
    (hps : ∀ p ∈ ps, Bordered p ∧ ∀ a, StopsBehind p a) {a rest : List Char} (ha : '"' ∉ a)
    (hquote : '"' ∉ rest) (hrest : Border rest) (hself : ∀ p ∈ ps, p.substitute rest = rest) :
    substituteAll ps (a ++ rest) = substituteAll ps a ++ rest := by
  unfold substituteAll
  rw [mapPlain_of_not_mem _ (List.not_mem_append ha hquote), mapPlain_of_not_mem _ ha]
  clear ha
  induction ps generalizing a with
  | nil => rfl
  | cons p ps ih =>
    obtain ⟨hbordered, hstops⟩ := hps p List.mem_cons_self
    have hone := hbordered.substitute_append (hstops a) hrest
    rw [hself p List.mem_cons_self] at hone
    rw [List.foldl_cons, List.foldl_cons, hone]
    exact ih (fun q hq => hps q (List.mem_cons_of_mem p hq)) (fun q hq => hself q (List.mem_cons_of_mem p hq))

section Quantity

variable {o : Options} {x : Number} {blanks rest : List Char} {u : MeasureUnit}

theorem quote_not_mem_quantity (hblanks : ∀ c ∈ blanks, isBlank c = true) (hu : u ∈ MeasureUnit.table) :
    '"' ∉ x.text ++ (blanks ++ u.symbol.toList) := fun hmem =>
  not_mem_marks_of_quantity hblanks hu _ hmem (by decide)

/-- Neither a word of the clock nor a span of time stands in a quantity or behind it. -/
theorem timeStages_append (hblanks : ∀ c ∈ blanks, isBlank c = true)
    (hu : u ∈ MeasureUnit.table) (hrest : Border rest) (huntouched : Untouched o rest) :
    clockStage o.now (x.text ++ (blanks ++ u.symbol.toList) ++ rest)
        = x.text ++ (blanks ++ u.symbol.toList) ++ rest ∧
      spanStage (x.text ++ (blanks ++ u.symbol.toList) ++ rest)
        = x.text ++ (blanks ++ u.symbol.toList) ++ rest := by
  have htime : ∀ ps ⊆ timePatterns o.now, substituteAll ps (x.text ++ (blanks ++ u.symbol.toList) ++ rest)
      = substituteAll ps (x.text ++ (blanks ++ u.symbol.toList)) ++ rest := fun ps hsub =>
    substituteAll_append
      (fun p hp => ⟨(late_timePattern (hsub hp)).1.bordered, (late_timePattern (hsub hp)).2⟩)
      (quote_not_mem_quantity hblanks hu) huntouched.quote hrest
      fun p hp => (late_timePattern (hsub hp)).1.untouched huntouched
  obtain ⟨hclock, hspan⟩ := timeStages_quantity (n := x.toNumeral) o.now hblanks hu
  constructor
  · rw [clockStage, htime _ (List.subset_append_left _ _)]
    exact congrArg (· ++ rest) hclock
  · rw [spanStage, htime _ (List.subset_append_right _ _)]
    exact congrArg (· ++ rest) hspan

theorem quantity_append (hblanks : ∀ c ∈ blanks, isBlank c = true) (hu : u ∈ MeasureUnit.table)
    (hrest : Border rest) (huntouched : Untouched o rest) :
    quantity.substitute (x.text ++ (blanks ++ u.symbol.toList) ++ rest)
      = quantityCall x.text u.symbol.toList ++ rest := by
  have hlast : ∀ c ∈ (x.text ++ (blanks ++ u.symbol.toList)).getLast?, c ∉ ['e', 'E'] := by
    intro c hc
    rw [← List.append_assoc, List.getLast?_append_of_ne_nil _ (isLetter_of_mem_symbol u hu).1] at hc
    obtain ⟨hsmall, hcapital⟩ := (symbol_spec hu).2.2.2 c (List.mem_of_getLast? hc)
    simp [hsmall, hcapital]
  rw [bordered_quantity.substitute_append (stopsBehind_quantity hlast) hrest, quantity_whole hblanks hu,
    huntouched.quantity]

/-- The rule for units writes the quantity as a product, whose unit is a literal then. -/
theorem unitsWithin_append (hnatural : o.naturalUnits = true) (hblanks : ∀ c ∈ blanks, isBlank c = true)
    (hu : u ∈ MeasureUnit.table) (hrest : Border rest)
    (hletters : ∀ c ∈ rest, isSmall (fold c) = false ∧ c ≠ '"') :
    unitsWithin false o (x.text ++ (blanks ++ u.symbol.toList) ++ rest)
      = quantityCall x.text u.symbol.toList ++ rest := by
  have huntouched : Untouched o rest := untouched_of_no_letters hletters
  have hquote : '"' ∉ x.text ++ (blanks ++ u.symbol.toList) ++ rest :=
    List.not_mem_append (quote_not_mem_quantity hblanks hu) huntouched.quote
  have hnumber : '"' ∉ x.text := fun hmem => not_mem_marks_of_numeral _ hmem (by decide)
  have hfront : '"' ∉ '(' :: (x.text ++ " * unit(".toList) := by simp [hnumber]
  have hback : Untouched o (')' :: ')' :: rest) := by
    refine untouched_of_no_letters ?_
    simp only [List.forall_mem_cons]
    exact ⟨by decide, by decide, hletters⟩
  have hcall : quantityCall x.text u.symbol.toList ++ rest
      = '(' :: (x.text ++ " * unit(".toList) ++ (inQuotes u.symbol.toList ++ ')' :: ')' :: rest) := by
    simp [quantityCall]
  unfold unitsWithin
  rw [hnatural, mapPlain_of_not_mem _ hquote, quantity_append hblanks hu hrest huntouched, hcall]
  simp only [Bool.not_true, Bool.or_false, Bool.false_eq_true, if_false]
  rw [mapPlain_append_literal _ hfront (isLiteral_symbol hu), bareUnit_quantityCall,
    mapPlain_of_not_mem _ hback.quote, bareUnit_substitute_eq_self (hback.unit hnatural)]

/-- **A quantity is expanded by itself** if no letter follows behind a border. -/
theorem lateStages_quantity (hnatural : o.naturalUnits = true) (hblanks : ∀ c ∈ blanks, isBlank c = true)
    (hu : u ∈ MeasureUnit.table) (hrest : Border rest) (hletters : ∀ c ∈ rest, isSmall (fold c) = false ∧ c ≠ '"')
    (hat : '@' ∉ rest) :
    lateStages o (x.text ++ (blanks ++ u.symbol.toList) ++ rest) = quantityCall x.text u.symbol.toList ++ rest := by
  obtain ⟨hclock, hspan⟩ :=
    timeStages_append (x := x) hblanks hu hrest (untouched_of_no_letters (o := o) hletters)
  rw [lateStages, hclock, hspan, unitsWithin_append hnatural hblanks hu hrest hletters, stackStage_eq_self]
  exact List.not_mem_append (at_not_mem_quantityCall hu) hat

/-- **A unit that is written as a call** in a product with a number stays as it is, if no letter follows. -/
theorem lateStages_unitProduct (hnatural : o.naturalUnits = true) (hu : u ∈ MeasureUnit.table) {front : List Char}
    (hfront : ∀ c ∈ front, isBlank c = true ∨ c ∈ leadingSigns)
    (hletters : ∀ c ∈ rest, isSmall (fold c) = false ∧ c ≠ '"') (hat : '@' ∉ rest) :
    lateStages o (front ++ (x.text ++ " * unit(".toList) ++ (inQuotes u.symbol.toList ++ rest))
      = front ++ (x.text ++ " * unit(".toList) ++ (inQuotes u.symbol.toList ++ rest) := by
  have hfree : ∀ m ∈ ['"', '@'], m ∉ front ++ (x.text ++ " * unit(".toList) := by
    intro m hm
    have hall : ∀ m ∈ ['"', '@'], isBlank m = false ∧ m ∉ leadingSigns ∧ m ∈ marks ∧ m ∉ " * unit(".toList := by decide
    obtain ⟨hblank, hsign, hmark, hcall⟩ := hall m hm
    refine List.not_mem_append (fun hmem => ?_) (List.not_mem_append (fun hmem => ?_) hcall)
    · rcases hfront m hmem with h | h
      · rw [hblank] at h
        cases h
      · exact hsign h
    · exact not_mem_marks_of_numeral m hmem hmark
  have hself : lateStages o (front ++ (x.text ++ " * unit(".toList)) = front ++ (x.text ++ " * unit(".toList) :=
    lateStages_eq_self (hfree _ (by decide)) (hfree _ (by decide)) hnatural fun hp => hp.substitute_front x hfront
  have hrest : Untouched o rest := untouched_of_no_letters hletters
  rw [(local_lateStages o).literal (closed_of_not_mem (hfree _ (by decide))) (isLiteral_symbol hu), hself,
    hrest.lateStages hat]

end Quantity

/-! ## The three lines -/

section Expansions

variable {o : Options} {u : MeasureUnit} (x : Number) (n : Nat)

/-- Of the rules in front of the one for the clock none finds anything. -/
theorem expand_of_isPowerChar {s : List Char} (hs : ∀ c ∈ s, isPowerChar c = true)
    (hfirst : ∀ c ∈ s.head?, isBlank c = false) (hlast : ∀ c ∈ s.getLast?, isBlank c = false) :
    expand o s = lateStages o s := by
  have hall : ∀ m ∈ [':', functionMark], isPowerChar m = false := by decide
  have hfree : ∀ m ∈ [':', functionMark], m ∉ s := by
    intro m hm hmem
    have hchar := hs m hmem
    rw [hall m hm] at hchar
    cases hchar
  have hoperator : ∀ c ∈ s, isOperatorMark c = false := free_of_kind isPowerChar_of_isOperatorMark hs
  rw [expand_of_operatorMarks o hoperator (fun c hc => ⟨hfirst c hc, ?_⟩) hlast,
    substituteAll_ratio (hfree _ (by decide)), decimals_eq_self (hfree _ (by decide))]
  rintro rfl
  exact hfree _ (by decide) (List.mem_of_mem_head? hc)

/-- A number begins with a digit. -/
theorem head_number (rest : List Char) : ∀ c ∈ (x.text ++ rest).head?, isDigit c = true := by
  obtain ⟨d, r, hcons⟩ := List.exists_cons_of_ne_nil x.whole_digits.nonempty
  intro c hc
  rw [Numeral.text, hcons] at hc
  cases hc
  exact x.whole_digits.digits _ (by rw [hcons]; exact List.mem_cons_self)

section Product

variable {front close : List Char}

theorem isPowerChar_unitProduct (hu : u ∈ MeasureUnit.table) (hfront : ∀ c ∈ front, c = '(')
    (hclose : ∀ c ∈ close, c = ')') :
    ∀ c ∈ unitProduct x u.symbol.toList n front close, isPowerChar c = true := by
  have hstar : ∀ c ∈ " * ".toList, isPowerChar c = true := by decide
  intro c hc
  simp only [unitProduct, List.mem_append] at hc
  rcases hc with (hc | (hc | hc) | hc) | hc | hc
  · rw [hfront c hc]
    rfl
  · exact isPowerChar_number x c hc
  · exact hstar c hc
  · exact isPowerChar_unitCall hu c hc
  · rw [hclose c hc]
    rfl
  · exact isPowerChar_starred n c hc

theorem ends_unitProduct (symbol close : List Char) (hfront : ∀ c ∈ front, c = '(') :
    (∀ c ∈ (unitProduct x symbol n front close).head?, isBlank c = false) ∧
      ∀ c ∈ (unitProduct x symbol n front close).getLast?, isBlank c = false := by
  constructor
  · intro c hc
    rw [unitProduct, List.append_assoc] at hc
    cases front with
    | nil =>
      rw [List.nil_append, List.append_assoc, List.append_assoc] at hc
      exact isBlank_of_isDecimal (isDecimal_of_isDigit (head_number x _ c hc))
    | cons d r =>
      obtain rfl : d = c := Option.some.inj hc
      rw [hfront d List.mem_cons_self]
      rfl
  · rw [unitProduct, ← List.append_assoc, List.getLast?_append_of_ne_nil _ (by simp [starred])]
    exact last_starred n

/-- A product with a unit as a call is its own expansion, if an exponent stands behind it. -/
theorem expand_unitProduct (hnatural : o.naturalUnits = true) (hu : u ∈ MeasureUnit.table)
    (hfront : ∀ c ∈ front, c = '(') (hclose : ∀ c ∈ close, c = ')') :
    expand o (unitProduct x u.symbol.toList n front close) = unitProduct x u.symbol.toList n front close := by
  obtain ⟨hfirst, hlast⟩ := ends_unitProduct x n u.symbol.toList close hfront
  have hsplit : unitProduct x u.symbol.toList n front close
      = front ++ (x.text ++ " * unit(".toList) ++ (inQuotes u.symbol.toList ++ (')' :: close ++ starred n)) := by
    simp [unitProduct, unitCall]
  have hback : ∀ c ∈ ')' :: close ++ starred n, c = ')' ∨ c ∈ starred n := fun c hc =>
    (List.mem_append.mp hc).imp_left fun hc => (List.mem_cons.mp hc).elim id (hclose c)
  have hletters : ∀ c ∈ ')' :: close ++ starred n, isSmall (fold c) = false ∧ c ≠ '"' := by
    intro c hc
    rcases hback c hc with rfl | hc
    · decide
    · exact starred_no_letters c hc
  have hat : '@' ∉ ')' :: close ++ starred n := by
    intro hmem
    rcases hback _ hmem with h | hc
    · cases h
    · exact absurd (isPowerChar_starred n _ hc) (by decide)
  have hmarks : ∀ c ∈ front, isBlank c = true ∨ c ∈ leadingSigns := fun c hc => .inr (by rw [hfront c hc]; decide)
  rw [expand_of_isPowerChar (isPowerChar_unitProduct x n hu hfront hclose) hfirst hlast, hsplit]
  exact lateStages_unitProduct hnatural hu hmarks hletters hat

end Product

theorem mem_quantityPower (hu : u ∈ MeasureUnit.table) (blanks : Blanks) (mark : ExponentMark) :
    ∀ c ∈ quantityPower x u.symbol.toList n blanks mark, isPowerChar c = true ∨ c ∈ "⁰¹²³⁴⁵⁶⁷⁸⁹".toList := by
  intro c hc
  rcases List.mem_append.mp hc with hc | hc
  · rcases List.mem_append.mp hc with hc | hc
    · exact .inl (isPowerChar_number x c hc)
    · rcases List.mem_append.mp hc with hc | hc
      · exact .inl (isPowerChar_of_isBlank (blanks.blank c hc))
      · exact .inl (isPowerChar_of_isNameChar (isNameChar_of_mem_symbol hu hc))
  · cases mark with
    | stars => exact .inl (isPowerChar_starred n c hc)
    | superscript => exact .inr (mem_superscript hc)

theorem ends_quantityPower (symbol : List Char) (blanks : Blanks) (mark : ExponentMark) :
    (∀ c ∈ (quantityPower x symbol n blanks mark).head?, isDigit c = true) ∧
      ∀ c ∈ (quantityPower x symbol n blanks mark).getLast?, isBlank c = false := by
  constructor
  · rw [quantityPower, List.append_assoc]
    exact head_number x _
  · cases mark with
    | stars =>
      rw [quantityPower, List.getLast?_append_of_ne_nil _ (by simp [ExponentMark.text, starred])]
      exact last_starred n
    | superscript =>
      have hall : ∀ c ∈ "⁰¹²³⁴⁵⁶⁷⁸⁹".toList, isBlank c = false := by decide
      rw [quantityPower, ExponentMark.text, List.getLast?_append_of_ne_nil _ (superscript_ne_nil n)]
      exact fun c hc => hall c (mem_superscript (List.mem_of_getLast? hc))

theorem trim_quantityPower (symbol : List Char) (blanks : Blanks) (mark : ExponentMark) :
    trim (quantityPower x symbol n blanks mark) = quantityPower x symbol n blanks mark := by
  obtain ⟨hhead, hlast⟩ := ends_quantityPower x n symbol blanks mark
  exact trim_eq_self_of_ends (fun c hc => isBlank_of_isDecimal (isDecimal_of_isDigit (hhead c hc))) hlast

/-- **The exponent stands behind the parentheses.** -/
theorem expand_quantityPower (hnatural : o.naturalUnits = true) (hu : u ∈ MeasureUnit.table) (blanks : Blanks)
    (mark : ExponentMark) :
    expand o (quantityPower x u.symbol.toList n blanks mark) = groupedPower x u.symbol.toList n := by
  have hmarks := not_mem_marks_of_quantity (n := x.toNumeral) blanks.blank hu
  have hquantity : ∀ c ∈ x.text ++ (blanks.chars ++ u.symbol.toList), isOperatorMark c = false ∧ c ≠ '"' := by
    refine fun c hc => ⟨isOperatorMark_of_not_mem (hmarks c hc), ?_⟩
    rintro rfl
    exact hmarks _ hc (by decide)
  have hcolon : ':' ∉ x.text ++ (blanks.chars ++ u.symbol.toList) ++ starred n :=
    List.not_mem_append (fun hmem => hmarks _ hmem (by decide))
      fun hmem => absurd (isPowerChar_starred n _ hmem) (by decide)
  have hat : '@' ∉ starred n := fun hmem => absurd (isPowerChar_starred n _ hmem) (by decide)
  have hfunction : (quantityPower x u.symbol.toList n blanks mark).head? ≠ some functionMark := fun heq =>
    absurd ((ends_quantityPower x n u.symbol.toList blanks mark).1 _ heq) (by decide)
  have hgrouped : groupedPower x u.symbol.toList n = quantityCall x.text u.symbol.toList ++ starred n := by
    simp [groupedPower, unitProduct, quantityCall, unitCall]
  rw [expand_eq_expandStages o (trim_quantityPower x n _ blanks mark) hfunction, expandStages, quantityPower,
    operatorStage_exponent hquantity, substituteAll_ratio hcolon, decimals_eq_self hcolon,
    lateStages_quantity hnatural blanks.blank hu (border_starred n) starred_no_letters hat, hgrouped]

end Expansions

end Worksheet.Notation
