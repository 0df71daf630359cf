import Worksheet.Proofs.Notation.Formula

/-!
# Percentages behind formulas

A percentage that is added to a formula or subtracted from it becomes a factor, which is written behind the
formula. A factor belongs to what stands in front of it up to the last plus or minus sign.

* **`Formula.mapLast`** — a sum with its last summand replaced by another one.
* **`Formula.raised`** — the last summand times the factor; `expand_percentLine` says that a percentage
  expands to what this formula expands to.
* **`Formula.scaled`** — the last summand in parentheses, times the factor; `expr_scaled` says that this
  is the same expression.
-/

namespace Worksheet

open Text Expression Notation

/-! ## Formulas with factors -/

namespace Expression

/-- No blanks. -/
def Blanks.none : Blanks := ⟨[], by simp⟩

/-- One blank. -/
def Blanks.one : Blanks := ⟨[' '], by decide⟩

/-- A number that is written with these digits. -/
def Number.ofDigits (s : List Char) (hs : IsDigits s) : Number where
  whole := ⟨s, hs.nonempty, fun c hc => isDecimal_of_isDigit (hs.digits c hc)⟩
  fraction := Option.none
  exponent := Option.none
  whole_digits := hs
  fraction_digits := by simp
  exponent_digits := by simp

/-- Is there no sign in the exponent of a number? -/
def Number.Unsigned (n : Number) : Prop := ∀ e ∈ n.exponent, e.sign = none

/-- A plus or minus sign between two operands. -/
abbrev Sign := Join .sum .sum .product

namespace Formula

/-- One plus or minus so many hundredths, in parentheses. -/
def factor (space : Blanks) (op : Sign) (n : Number) : Formula .operand :=
  .group .none
    (.join op (.within .sum (.within .product (.within .power (.number (.ofDigits ['1'] ⟨by decide, by decide⟩) space))))
      space
      (.join .div (.within .product (.within .power (.number n .none))) .none
        (.within .power (.number (.ofDigits "100".toList ⟨by decide, by decide⟩) .none))))
    .none

/-- A formula in parentheses, times the factor. -/
def scaledWhole (a : Formula .sum) (op : Sign) (n : Number) : Formula .product :=
  .join .mul (.within .product (.within .power (.group .none a .one))) .one (.within .power (factor .one op n))

/-- The last summand of a sum. -/
def last : Formula .sum → Formula .product
  | .within .sum p => p
  | .join .add _ _ p | .join .sub _ _ p => p

/-- What stands in front of the last summand. -/
def lead : Formula .sum → List Char
  | .within .sum _ => []
  | .join .add left front _ => left.text ++ ('+' :: front.chars)
  | .join .sub left front _ => left.text ++ ('-' :: front.chars)

/-- A sum with its last summand replaced. -/
def mapLast (f : Formula .product → Formula .product) : Formula .sum → Formula .sum
  | .within .sum p => .within .sum (f p)
  | .join .add left front p => .join .add left front (f p)
  | .join .sub left front p => .join .sub left front (f p)

/-- A sum whose last summand is multiplied by the factor. -/
def raised (a : Formula .sum) (op : Sign) (n : Number) : Formula .sum :=
  a.mapLast fun p => .join .mul p .none (.within .power (factor .none op n))

/-- A sum whose last summand is put in parentheses and multiplied by the factor. -/
def scaled (a : Formula .sum) (op : Sign) (n : Number) : Formula .sum :=
  a.mapLast fun p => scaledWhole (.within .sum p) op n

theorem text_mapLast (f : Formula .product → Formula .product) (a : Formula .sum) :
    (a.mapLast f).text = a.lead ++ (f a.last).text := by
  match a with
  | .within .sum p => rfl
  | .join .add left front p => exact (List.append_assoc left.text ('+' :: front.chars) (f p).text).symm
  | .join .sub left front p => exact (List.append_assoc left.text ('-' :: front.chars) (f p).text).symm

theorem mapLast_id (a : Formula .sum) : a.mapLast (fun p => p) = a := by
  match a with
  | .within .sum p => rfl
  | .join .add left front p => rfl
  | .join .sub left front p => rfl

theorem text_eq_lead_append (a : Formula .sum) : a.text = a.lead ++ a.last.text := by
  have htext := text_mapLast (fun p => p) a
  rwa [mapLast_id] at htext

theorem text_raised (a : Formula .sum) (op : Sign) (n : Number) :
    (a.raised op n).text = a.text ++ ("*(1".toList ++ (op.symbol.toList ++ (n.text ++ "/100)".toList))) := by
  rw [raised, text_mapLast, text_eq_lead_append, List.append_assoc]
  simp [text, textWith, factor, Join.symbol, Blanks.none, Number.ofDigits, Numeral.text, fractionText, exponentText]

theorem text_scaledWhole (a : Formula .sum) (op : Sign) (n : Number) :
    (a.scaledWhole op n).text = '(' :: (a.text ++ (") * (1 ".toList ++ (op.symbol.toList ++ (' ' :: (n.text ++ "/100)".toList))))) := by
  simp [text, textWith, scaledWhole, factor, Join.symbol, Blanks.none, Blanks.one, Number.ofDigits, Numeral.text, fractionText, exponentText]

theorem expr_scaled (names : Naming) (a : Formula .sum) (op : Sign) (n : Number) :
    (a.scaled op n).expr names = (a.raised op n).expr names := by
  match a with
  | .within .sum p => rfl
  | .join .add left front p => rfl
  | .join .sub left front p => rfl

end Formula

end Expression

/-! ## The rules for percentages -/

namespace Notation

/-- A sign that a percentage does not go over stands in front of the percent sign. -/
theorem percentage?_of_mark {u v : List Char} {m : Char}
    (hm : isBlank m = false ∧ isOperandChar m = false ∧ m ≠ '%') (hu : '%' ∉ u) (signs : List Char) (d : Char) :
    percentage? signs (d :: (u ++ m :: v)) = none := by
  obtain ⟨hblank, hoperand, hpercent⟩ := hm
  unfold percentage?
  dsimp only
  split
  · next rest _ _ hrest =>
    have hblanks := List.takeWhile_append_dropWhile (p := isBlank) (l := u ++ m :: v)
    have hchars := List.takeWhile_append_dropWhile (p := isOperandChar) (l := trimStart (u ++ m :: v))
    rw [hrest] at hchars
    rw [show (u ++ m :: v).dropWhile isBlank = trimStart (u ++ m :: v) from rfl, ← hchars, ← List.append_assoc]
      at hblanks
    have hfront : m ∉ (u ++ m :: v).takeWhile isBlank ++ (trimStart (u ++ m :: v)).takeWhile isOperandChar := by
      intro hmem
      rcases List.mem_append.mp hmem with hmem | hmem
      · rw [List.mem_takeWhile_imp hmem] at hblank
        cases hblank
      · rw [List.mem_takeWhile_imp hmem] at hoperand
        cases hoperand
    generalize (u ++ m :: v).takeWhile isBlank ++ (trimStart (u ++ m :: v)).takeWhile isOperandChar = front
      at hblanks hfront
    -- either the percent sign stands in front of the other one, or that is one of the characters passed over
    rcases cut_cases hblanks with ⟨a, rfl, -⟩ | ⟨-, heq, -⟩ | ⟨a, rfl, -⟩
    · exact absurd (by simp) hfront
    · exact absurd heq.symm hpercent
    · exact absurd (by simp) hu
  · rfl

theorem percentage?_of_not_mem {signs : List Char} {d : Char} (hd : d ∉ signs) (r : List Char) :
    percentage? signs (d :: r) = none := by
  have hcontains : signs.contains d = false := by
    rw [Bool.eq_false_iff]
    exact fun h => hd (List.contains_iff_mem.mp h)
  unfold percentage?
  dsimp only
  rw [hcontains]

theorem isOperandChar_of_mem_text {n : Number} (hn : n.Unsigned) : ∀ c ∈ n.text, isOperandChar c = true := by
  have hdigits : ∀ {s : List Char}, IsDigits s → ∀ c ∈ s, isOperandChar c = true := fun hs c hc =>
    isOperandChar_of_isNameChar (isNameChar_of_isDigit (hs.digits c hc))
  intro c hc
  unfold Numeral.text at hc
  rcases List.mem_append.mp hc with hc | hc
  · exact hdigits n.whole_digits c hc
  rcases List.mem_append.mp hc with hc | hc
  · cases hfraction : n.fraction with
    | none =>
      rw [hfraction] at hc
      cases hc
    | some f =>
      rw [hfraction] at hc
      rcases List.mem_cons.mp hc with rfl | hc
      · decide
      · exact hdigits (n.fraction_digits f hfraction) c hc
  · cases hexponent : n.exponent with
    | none =>
      rw [hexponent] at hc
      cases hc
    | some e =>
      obtain ⟨hletter, he⟩ := n.exponent_digits e hexponent
      rw [hexponent, exponentText, Exponent.text, hletter, hn e hexponent] at hc
      rcases List.mem_cons.mp hc with rfl | hc
      · decide
      · exact hdigits he c (by simpa using hc)

/-- A number and a percent sign behind a sign. -/
theorem percentage?_number {n : Number} (hn : n.Unsigned) (front : Blanks) {signs : List Char} {d : Char}
    (hd : d ∈ signs) :
    percentage? signs (d :: (front.chars ++ (n.text ++ ['%']))) = some (d, n.text, []) := by
  have hchars := isOperandChar_of_mem_text hn
  have hstart : trimStart (front.chars ++ (n.text ++ ['%'])) = n.text ++ ['%'] := by
    obtain ⟨c, r, hcons⟩ := List.exists_cons_of_ne_nil n.whole_digits.nonempty
    have hdigit := n.whole_digits.digits c (by rw [hcons]; exact List.mem_cons_self)
    have hblank := isBlank_of_isNameChar (isNameChar_of_isDigit hdigit)
    rw [trimStart, List.dropWhile_append_of_pos front.blank, Numeral.text, hcons]
    exact List.dropWhile_cons_of_neg (by simp [hblank])
  have hpercent : ∀ c ∈ ['%'].head?, isOperandChar c = false := by
    rintro c ⟨⟩
    decide
  unfold percentage?
  dsimp only
  rw [hstart, takeWhile_run hchars hpercent, dropWhile_run hchars hpercent, List.contains_iff_mem.mpr hd]
  have hempty : n.text.isEmpty = false := by simpa using n.text_ne_nil
  rw [hempty]
  rfl

/-- A formula ends with a character of a number or a name, or with a parenthesis, and blanks. -/
theorem exists_last_formula {k : Stratum} (a : Formula k) :
    ∃ u c blanks, a.text = u ++ c :: blanks ∧ (∀ b ∈ blanks, isBlank b = true) ∧
      (isNameChar c = true ∨ c = ')') := by
  induction a with
  | number n blanks =>
    obtain ⟨u, c, hlast⟩ := (List.eq_nil_or_concat n.text).resolve_left n.text_ne_nil
    rw [List.concat_eq_append] at hlast
    have hdigit := n.last_text c (by rw [hlast]; exact List.getLast?_concat)
    refine ⟨u, c, blanks.chars, ?_, blanks.blank, .inl (isNameChar_of_isDigit hdigit)⟩
    rw [Formula.text, Formula.textWith, hlast, List.append_assoc]
    rfl
  | name w blanks =>
    obtain ⟨u, c, hlast⟩ := (List.eq_nil_or_concat w.chars).resolve_left (name_ne_nil w)
    rw [List.concat_eq_append] at hlast
    have hchar := isNameChar_of_mem_name w (c := c) (by rw [hlast]; simp)
    refine ⟨u, c, blanks.chars, ?_, blanks.blank, .inl hchar⟩
    rw [Formula.text, Formula.textWith, hlast, List.append_assoc]
    rfl
  | group front inside blanks =>
    refine ⟨'(' :: (front.chars ++ inside.text), ')', blanks.chars, ?_, blanks.blank, .inr rfl⟩
    simp [Formula.text, Formula.textWith]
  | within h part ih => exact ih
  | join op left front right ihl ihr =>
    -- the right operand stands at the end
    obtain ⟨u, c, blanks, htext, hblanks, hc⟩ := ihr
    refine ⟨left.text ++ (op.symbol.toList ++ (front.chars ++ u)), c, blanks, ?_, hblanks, hc⟩
    have hjoin : (Formula.join op left front right).text
        = left.text ++ (op.symbol.toList ++ (front.chars ++ right.text)) := rfl
    rw [hjoin, htext]
    simp

/-- Behind a formula a sign has a left operand. -/
theorem isUnarySign_formula {k : Stratum} (a : Formula k) : isUnarySign a.text.reverse = false := by
  obtain ⟨u, c, blanks, htext, hblanks, hc⟩ := exists_last_formula a
  have hblank : isBlank c = false := by
    rcases hc with hname | rfl
    · exact isBlank_of_isNameChar hname
    · decide
  have hskip : trimStart a.text.reverse = c :: u.reverse := by
    rw [htext, List.reverse_append, List.reverse_cons, List.append_assoc, trimStart,
      List.dropWhile_append_of_pos (by simpa using hblanks)]
    exact List.dropWhile_cons_of_neg (by simp [hblank])
  have hsigns : ∀ d ∈ "(,[+-*/=<>!&|^".toList, isNameChar d = false ∧ d ≠ ')' := by decide
  unfold isUnarySign
  rw [hskip, Bool.eq_false_iff]
  intro hmem
  obtain ⟨hname, hparen⟩ := hsigns c (List.contains_iff_mem.mp hmem)
  rcases hc with hc | hc
  · rw [hc] at hname
    cases hname
  · exact hparen hc

/-! ## Lines with percentages and with factors -/

/-- A formula and a percentage behind it. -/
def percentLine {k : Stratum} (a : Formula k) (op : Sign) (front : Blanks) (n : Number) : List Char :=
  a.text ++ (op.symbol.toList ++ (front.chars ++ (n.text ++ ['%'])))

/-- A formula in parentheses, times one plus or minus so many hundredths. -/
def factorLine {k : Stratum} (a : Formula k) (op : Sign) (n : Number) : List Char :=
  '(' :: (a.text ++ (") * (1 ".toList ++ (op.symbol.toList ++ (' ' :: (n.text ++ "/100)".toList)))))

section Lines

variable (a : Formula .sum) (op : Sign) (front : Blanks) (n : Number)

theorem not_mem_text {k : Stratum} (a : Formula k) {m : Char}
    (hm : isBlank m = false ∧ m ∉ ')' :: openingSigns ∧ isDigit m = false ∧ m ∉ ".e+-".toList)
    (hname : isNameChar m = false) : m ∉ a.text :=
  not_mem_textWith hm (fun w => not_mem_name w hname) a

theorem head_text {k : Stratum} (a : Formula k) (t : List Char) :
    ∀ c ∈ (a.text ++ t).head?, isNameChar c = true ∨ c = '(' := by
  obtain ⟨d, r, hcons, hd⟩ := a.text_eq_cons
  rw [hcons]
  rintro c ⟨⟩
  exact hd

theorem trim_of_ends {s u : List Char} {c : Char} (hs : s = u ++ [c]) (hc : isBlank c = false)
    (hfirst : ∀ d ∈ s.head?, isNameChar d = true ∨ d = '(') : trim s = s := by
  refine trim_eq_self_of_ends (fun d hd => ?_) fun d hd => ?_
  · rcases hfirst d hd with hname | rfl
    · exact isBlank_of_isNameChar hname
    · decide
  · rw [hs, List.getLast?_concat] at hd
    cases hd
    exact hc

/-- Up to the percent sign the line is a formula. -/
theorem percentLine_eq : percentLine a op front n
    = (Formula.join op a front (.within .product (.within .power (.number n .none)))).text ++ ['%'] := by
  simp [percentLine, Formula.text, Formula.textWith, Blanks.none]

theorem not_mem_percentLine {m : Char}
    (hm : isBlank m = false ∧ m ∉ ')' :: openingSigns ∧ isDigit m = false ∧ m ∉ ".e+-".toList)
    (hname : isNameChar m = false) (hpercent : m ≠ '%') : m ∉ percentLine a op front n := by
  rw [percentLine_eq, List.mem_append, List.mem_singleton, not_or]
  exact ⟨not_mem_text _ hm hname, hpercent⟩

theorem trim_percentLine : trim (percentLine a op front n) = percentLine a op front n := by
  refine trim_of_ends (percentLine_eq a op front n) (by decide) ?_
  exact head_text a _

theorem sign_symbol : ∃ m ∈ ['+', '-'], op.symbol.toList = [m] := by
  cases op
  · exact ⟨'+', by decide, rfl⟩
  · exact ⟨'-', by decide, rfl⟩

/-- Neither the sign of a sum nor a percentage holds the sign of a factor. -/
theorem not_mem_factorSigns {m c : Char} (hm : m ∈ ['+', '-'])
    (hmem : c ∈ m :: (front.chars ++ (n.text ++ ['%']))) : c ∉ ['*', '/'] := by
  intro hc
  have hsigns : ∀ c ∈ ['*', '/'], c ∉ ['+', '-'] ∧ isBlank c = false ∧ isDigit c = false ∧ c ∉ ".e+-".toList ∧ c ≠ '%' := by
    decide
  obtain ⟨hne, hblank, hdigit, hnumber, hpercent⟩ := hsigns c hc
  rcases List.mem_cons.mp hmem with rfl | hmem
  · exact hne hm
  rcases List.mem_append.mp hmem with hmem | hmem
  · rw [front.blank c hmem] at hblank
    cases hblank
  rcases List.mem_append.mp hmem with hmem | hmem
  · rcases n.mem_text hmem with h | h
    · rw [h] at hdigit
      cases hdigit
    · exact hnumber h
  · exact hpercent (List.mem_singleton.mp hmem)

/-- No percentage is a factor. -/
theorem percentOf_percentLine : percentOf.substitute (percentLine a op front n) = percentLine a op front n := by
  obtain ⟨m, hm, hsymbol⟩ := sign_symbol op
  have hmark : isBlank m = false ∧ isOperandChar m = false ∧ m ≠ '%' := by
    have hall : ∀ m ∈ ['+', '-'], isBlank m = false ∧ isOperandChar m = false ∧ m ≠ '%' := by decide
    exact hall m hm
  refine Pattern.substitute_eq_self_of_none fun pre c r hsplit => ?_
  rw [percentOf, Option.map_eq_none_iff]
  rw [percentLine, hsymbol, List.singleton_append] at hsplit
  rcases cut_cases hsplit with ⟨u, htext, rfl⟩ | ⟨-, rfl, -⟩ | ⟨u, -, htail⟩
  · -- a factor of the formula has the sign of the sum between itself and the percent sign
    refine percentage?_of_mark hmark (fun hmem => ?_) _ c
    refine not_mem_text a (m := '%') (by decide) (by decide) ?_
    rw [htext]
    simp [hmem]
  · exact percentage?_of_not_mem (not_mem_factorSigns front n hm List.mem_cons_self) r
  · have hmem : c ∈ m :: (front.chars ++ (n.text ++ ['%'])) := by
      rw [htail]
      simp
    exact percentage?_of_not_mem (not_mem_factorSigns front n hm hmem) r

variable {n}

/-- The percentage becomes a factor behind the formula. -/
theorem percentStep_percentLine (hn : n.Unsigned) :
    percentStep.substitute (percentLine a op front n) = (a.raised op n).text := by
  obtain ⟨m, hm, hsymbol⟩ := sign_symbol op
  have hmark : isBlank m = false ∧ isOperandChar m = false ∧ m ≠ '%' := by
    have hall : ∀ m ∈ ['+', '-'], isBlank m = false ∧ isOperandChar m = false ∧ m ≠ '%' := by decide
    exact hall m hm
  rw [percentLine, Formula.text_raised, hsymbol]
  refine Pattern.substitute_of_behind (by simp) (fun pre c r hsplit => ?_) ?_
  · have hpercent : '%' ∉ r := by
      refine fun hmem => not_mem_text a (m := '%') (by decide) (by decide) ?_
      rw [hsplit]
      simp [hmem]
    show (percentage? ['+', '-'] (c :: (r ++ m :: _))).map _ = none
    rw [percentage?_of_mark hmark hpercent]
    rfl
  · show (percentage? ['+', '-'] (m :: (front.chars ++ (n.text ++ ['%'])))).map _ = _
    rw [percentage?_number hn front hm, Option.map_some, isUnarySign_formula]
    simp

/-- **A percentage behind a formula** expands to what its last summand with the factor expands to. -/
theorem expand_percentLine (o : Options) (hn : n.Unsigned) : expand o (percentLine a op front n)
    = (a.raised op n).textWith (writtenAs (nameCall? o)) := by
  have hsign : ∀ c ∈ percentLine a op front n, isSignMark c = false := by
    have hall : ∀ m ∈ signMarks, (isBlank m = false ∧ m ∉ ')' :: openingSigns ∧ isDigit m = false ∧
        m ∉ ".e+-".toList) ∧ isNameChar m = false ∧ m ≠ '%' := by decide
    intro c hc
    rw [isSignMark, Bool.eq_false_iff]
    intro hmem
    obtain ⟨hchar, hname, hpercent⟩ := hall c (List.contains_iff_mem.mp hmem)
    exact not_mem_percentLine a op front n hchar hname hpercent hc
  have hquote : '"' ∉ percentLine a op front n := not_mem_percentLine a op front n (by decide) (by decide) (by decide)
  have hcolon : ':' ∉ (a.raised op n).text := not_mem_text _ (by decide) (by decide)
  have hhead : (percentLine a op front n).head? ≠ some functionMark := by
    intro hhead
    rcases head_text a _ functionMark hhead with hname | hparen
    · cases hname
    · cases hparen
  have hstage : operatorStage (percentLine a op front n) = (a.raised op n).text := by
    rw [operatorStage_of_signMarks hsign]
    unfold substituteAll
    rw [mapPlain_of_not_mem _ hquote]
    show mapPlain _ (percentOf.substitute _) = _
    rw [percentOf_percentLine, mapPlain_of_not_mem _ hquote]
    exact percentStep_percentLine a op front hn
  rw [expand_eq_expandStages o (trim_percentLine a op front n) hhead, expandStages, hstage,
    substituteAll_ratio hcolon, decimals_eq_self hcolon, lateStages_text]

variable (n)

theorem text_scaled : (a.scaled op n).text = a.lead ++ factorLine a.last op n := by
  rw [Formula.scaled, Formula.text_mapLast, Formula.text_scaledWhole]
  rfl

theorem trim_scaled : trim (a.scaled op n).text = (a.scaled op n).text := by
  have hlast : (a.scaled op n).text
      = (a.lead ++ '(' :: (a.last.text ++ (") * (1 ".toList ++ (op.symbol.toList ++ (' ' :: (n.text ++ "/100".toList))))))
        ++ [')'] := by
    rw [text_scaled, factorLine]
    simp
  have hfirst := head_text (a.scaled op n) []
  rw [List.append_nil] at hfirst
  exact trim_of_ends hlast (by decide) hfirst

theorem expand_scaled (o : Options) : expand o (a.scaled op n).text
    = (a.scaled op n).textWith (writtenAs (nameCall? o)) :=
  expand_text _ o (trim_scaled a op n)

end Lines

end Notation

end Worksheet
