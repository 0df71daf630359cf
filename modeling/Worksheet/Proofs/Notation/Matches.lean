import Worksheet.Proofs.Notation.Untouched

/-!
# What a match covers

Where a pattern of the notation fits, it takes a stretch of the text and writes something in its place.
For every pattern one lemma says what the stretch is made of and what is written.

* **`IsRun`** — a stretch of characters of one kind.
* **`ClosesAt`** — a text in which the parentheses that are open in front of it are closed again, but no
  others; `closeParen?_eq_some_iff`.
* **`covered_factorial`**, **`covered_signs`**, **`covered_roots`**, **`percentage?_eq_some_iff`**,
  **`LooksFor`**, **`covered_ratio`**, **`covered_colonDecimal`**, **`covered_clockWord`**, **`covered_span`**,
  **`covered_quantity`**, **`covered_bareUnit`** — the patterns.
-/

namespace Worksheet.Notation

open Text

/-! ## Runs -/

/-- At least one character, and all of a kind. -/
structure IsRun (f : Char → Bool) (s : List Char) : Prop where
  nonempty : s ≠ []
  all : ∀ c ∈ s, f c = true

section Runs

variable {f : Char → Bool} {s rest : List Char}

theorem isRun_takeWhile (h : (s.takeWhile f).isEmpty = false) : IsRun f (s.takeWhile f) where
  nonempty := by simpa using h
  all _ hc := List.mem_takeWhile_imp hc

theorem IsRun.mono {g : Char → Bool} (h : IsRun f s) (hfg : ∀ c, f c = true → g c = true) : IsRun g s :=
  ⟨h.nonempty, fun c hc => hfg c (h.all c hc)⟩

theorem IsRun.isEmpty (h : IsRun f s) : s.isEmpty = false := by simpa using h.nonempty

/-- A run that a text begins with, up to a character of another kind. -/
theorem IsRun.reads (h : IsRun f s) {c : Char} (hc : f c = false) (r : List Char) :
    (s ++ c :: r).takeWhile f = s ∧ (s ++ c :: r).dropWhile f = c :: r := by
  have hstop : ∀ d ∈ (c :: r).head?, f d = false := by
    rintro d ⟨⟩
    exact hc
  exact ⟨takeWhile_run h.all hstop, dropWhile_run h.all hstop⟩

theorem IsRun.trimStart (h : IsRun f s) (hf : ∀ c, f c = true → isBlank c = false) (rest : List Char) :
    Text.trimStart (s ++ rest) = s ++ rest := by
  obtain ⟨c, r, rfl⟩ := List.exists_cons_of_ne_nil h.nonempty
  exact List.dropWhile_cons_of_neg (by simp [hf c (h.all c List.mem_cons_self)])

theorem isRun_of_digits? {d : List Char} (h : digits? s = some (d, rest)) :
    s = d ++ rest ∧ IsRun isDecimal d := by
  unfold digits? at h
  split at h
  · cases h
  · next hne =>
    cases h
    exact ⟨List.takeWhile_append_dropWhile.symm, isRun_takeWhile (by simpa using hne)⟩

/-- A text is cut into the blanks in front and the rest. -/
theorem exists_blanks (s : List Char) :
    ∃ blanks, (∀ c ∈ blanks, isBlank c = true) ∧ s = blanks ++ Text.trimStart s :=
  ⟨s.takeWhile isBlank, fun _ hc => List.mem_takeWhile_imp hc, List.takeWhile_append_dropWhile.symm⟩

/-- A character that stands neither in front nor behind stands in the middle. -/
theorem exists_of_split {front w behind pre t : List Char} {c : Char}
    (hsplit : front ++ (w ++ behind) = pre ++ c :: t) (hfront : c ∉ front) (hbehind : c ∉ behind) :
    ∃ a b, w = a ++ c :: b ∧ pre = front ++ a := by
  have hmiddle : ∀ {a}, w ++ behind = a ++ c :: t → ∃ b, w = a ++ c :: b := by
    intro a hrest
    rcases List.append_eq_append_iff.mp hrest with ⟨b, rfl, hb⟩ | ⟨b, rfl, hb⟩
    · exact absurd (by rw [hb]; simp) hbehind
    · cases b with
      | nil => exact absurd (by rw [← List.nil_append behind, ← hb]; simp) hbehind
      | cons d b =>
        obtain ⟨rfl, -⟩ := List.cons.inj hb
        exact ⟨b, rfl⟩
  rcases List.append_eq_append_iff.mp hsplit with ⟨a, rfl, ha⟩ | ⟨a, rfl, ha⟩
  · obtain ⟨b, rfl⟩ := hmiddle ha
    exact ⟨a, b, rfl, rfl⟩
  · cases a with
    | nil =>
      obtain ⟨b, rfl⟩ := hmiddle (a := []) ha.symm
      exact ⟨[], b, rfl, by simp⟩
    | cons d a =>
      obtain ⟨rfl, -⟩ := List.cons.inj ha
      exact absurd (by simp) hfront

end Runs

/-! ## Parentheses -/

/-- How many parentheses are open behind a text, if none is closed that was not opened. -/
def openBehind? : ℕ → List Char → Option ℕ
  | depth, [] => some depth
  | depth, '(' :: r => openBehind? (depth + 1) r
  | 0, ')' :: _ => none
  | depth + 1, ')' :: r => openBehind? depth r
  | depth, _ :: r => openBehind? depth r

/-- Are so many parentheses that stand open in front of a text closed in it, and all others that are
opened in it? -/
def ClosesAt (depth : ℕ) (s : List Char) : Prop := openBehind? depth s = some 0

instance (depth : ℕ) (s : List Char) : Decidable (ClosesAt depth s) :=
  inferInstanceAs (Decidable (openBehind? depth s = some 0))

/-- A text whose parentheses match. -/
abbrev Balanced (s : List Char) : Prop := ClosesAt 0 s

section Parentheses

variable {depth : ℕ} {c : Char} {s rest : List Char}

theorem openBehind?_open : openBehind? depth ('(' :: s) = openBehind? (depth + 1) s := by
  cases depth <;> rfl

theorem openBehind?_other (hopen : c ≠ '(') (hclose : c ≠ ')') :
    openBehind? depth (c :: s) = openBehind? depth s := by
  rw [openBehind?]
  · exact hopen
  · rintro - rfl
    exact hclose rfl
  · rintro d - rfl
    exact hclose rfl

/-- A character that does not close the group belongs to the inside of it. -/
theorem closeParen?_deeper_iff {inside r : List Char} {d : ℕ}
    (hr : ∀ i, closeParen? d r = some (i, rest) ↔ r = i ++ ')' :: rest ∧ ClosesAt d i)
    (hopen : ∀ u, openBehind? depth (c :: u) = openBehind? d u) (hfirst : c = ')' → depth ≠ 0) :
    (closeParen? d r).map (fun p => (c :: p.1, p.2)) = some (inside, rest) ↔
      c :: r = inside ++ ')' :: rest ∧ ClosesAt depth inside := by
  rw [Option.map_eq_some_iff]
  constructor
  · rintro ⟨⟨i, u⟩, hi, hpair⟩
    cases hpair
    obtain ⟨rfl, hcloses⟩ := (hr i).mp hi
    exact ⟨rfl, (hopen i).trans hcloses⟩
  · rintro ⟨hsplit, hcloses⟩
    cases inside with
    | nil =>
      obtain ⟨rfl, -⟩ := List.cons.inj hsplit
      exact absurd (Option.some.inj hcloses) (hfirst rfl)
    | cons e i =>
      obtain ⟨rfl, hr'⟩ := List.cons.inj hsplit
      exact ⟨(i, rest), (hr i).mpr ⟨hr', (hopen i).symm.trans hcloses⟩, rfl⟩

/-- A parenthesis that nothing in the text has opened closes the group, which is empty then. -/
theorem closesAt_zero_split_iff {inside r : List Char} :
    ')' :: r = inside ++ ')' :: rest ∧ ClosesAt 0 inside ↔ inside = [] ∧ r = rest := by
  constructor
  · rintro ⟨hsplit, hcloses⟩
    cases inside with
    | nil => exact ⟨rfl, (List.cons.inj hsplit).2⟩
    | cons e i =>
      obtain ⟨rfl, -⟩ := List.cons.inj hsplit
      cases hcloses
  · rintro ⟨rfl, rfl⟩
    exact ⟨rfl, rfl⟩

/-- What `closeParen?` finds is the text up to the first parenthesis that closes one of the open ones in
front of all. -/
theorem closeParen?_eq_some_iff {inside : List Char} :
    closeParen? depth s = some (inside, rest) ↔ s = inside ++ ')' :: rest ∧ ClosesAt depth inside := by
  induction s generalizing depth inside with
  | nil =>
    refine iff_of_false (by simp [closeParen?]) ?_
    simp
  | cons c r ih =>
    unfold closeParen?
    dsimp only
    split
    · next hc =>
      obtain rfl := beq_iff_eq.mp hc
      exact closeParen?_deeper_iff (fun _ => ih) (fun u => openBehind?_open) (by simp)
    · next hc =>
      rw [beq_iff_eq] at hc
      split
      · next hc' =>
        obtain rfl := beq_iff_eq.mp hc'
        split
        · rw [closesAt_zero_split_iff, Option.some.injEq, Prod.mk.injEq]
          exact and_congr_left' eq_comm
        · exact closeParen?_deeper_iff (fun _ => ih) (fun u => rfl) (by simp)
      · next hc' =>
        rw [beq_iff_eq] at hc'
        exact closeParen?_deeper_iff (fun _ => ih) (fun u => openBehind?_other hc hc')
          fun h => absurd h hc'

end Parentheses

/-! ## Operators -/

section Operators

variable {before after out rest : List Char}

theorem covered_factorial (h : factorial before after = some (out, rest)) :
    ∃ operand, IsRun isNameChar operand ∧ after = operand ++ '!' :: rest ∧
      ((rest.head? = some '=' ∧ out = operand ++ ['!']) ∨
        rest.head? ≠ some '=' ∧ out = "factorial(".toList ++ operand ++ [')']) := by
  have hcut := List.takeWhile_append_dropWhile (p := isNameChar) (l := after)
  unfold factorial at h
  dsimp only at h
  split at h
  · next hne hrest =>
    cases h
    rw [hrest] at hcut
    exact ⟨_, isRun_takeWhile hne, hcut.symm, .inl ⟨rfl, rfl⟩⟩
  · next r hother hne hrest =>
    cases h
    rw [hrest] at hcut
    refine ⟨_, isRun_takeWhile hne, hcut.symm, .inr ⟨fun hhead => ?_, rfl⟩⟩
    obtain ⟨t, rfl⟩ := List.head?_eq_some_iff.mp hhead
    exact hother t rfl
  · cases h

/-- A superscript. -/
def isSuperscript (c : Char) : Bool := (superscriptDigit? c).isSome

theorem mem_of_isSuperscript {c : Char} (hc : isSuperscript c = true) : c ∈ "⁰¹²³⁴⁵⁶⁷⁸⁹".toList := by
  unfold isSuperscript superscriptDigit? at hc
  split at hc
  all_goals first
    | decide
    | cases hc

theorem isDigit_of_superscriptDigit? {c d : Char} (h : superscriptDigit? c = some d) : isDigit d = true := by
  unfold superscriptDigit? at h
  split at h <;> cases h <;> decide

/-- Superscripts are read as digits, as many as there are. -/
theorem superscriptDigits_spec (s : List Char) : ∃ marks, s = marks ++ (superscriptDigits s).2 ∧
    (∀ c ∈ marks, isSuperscript c = true) ∧ (∀ d ∈ (superscriptDigits s).1, isDigit d = true) ∧
      (marks = [] → (superscriptDigits s).1 = []) := by
  induction s with
  | nil => exact ⟨[], rfl, by simp, by simp [superscriptDigits], fun _ => rfl⟩
  | cons c r ih =>
    unfold superscriptDigits
    split
    · next d hd =>
      obtain ⟨marks, hr, hmarks, hdigits, -⟩ := ih
      refine ⟨c :: marks, congrArg (c :: ·) hr, ?_, ?_, by simp⟩
      · exact List.forall_mem_cons.mpr ⟨by rw [isSuperscript, hd]; rfl, hmarks⟩
      · exact List.forall_mem_cons.mpr ⟨isDigit_of_superscriptDigit? hd, hdigits⟩
    · exact ⟨[], rfl, by simp, by simp, fun _ => rfl⟩

/-- A read of superscripts that has found some. -/
theorem exists_run_of_superscriptDigits {s digits : List Char}
    (h : superscriptDigits s = (digits, rest)) (hne : digits ≠ []) :
    ∃ marks, IsRun isSuperscript marks ∧ (∀ d ∈ digits, isDigit d = true) ∧ s = marks ++ rest := by
  obtain ⟨marks, hsplit, hmarks, hdigits, hnil⟩ := superscriptDigits_spec s
  rw [h] at hsplit hdigits hnil
  exact ⟨marks, ⟨fun hm => hne (hnil hm), hmarks⟩, hdigits, hsplit⟩

theorem covered_signs (h : signs before after = some (out, rest)) :
    (∃ c ∈ "÷×⋅·".toList, after = c :: rest ∧ (out = ['/'] ∨ out = ['*'])) ∨
      ∃ marks digits, IsRun isSuperscript marks ∧ (∀ d ∈ digits, isDigit d = true) ∧
        ((after = '⁻' :: (marks ++ rest) ∧ out = "**(-".toList ++ digits ++ [')']) ∨
          after = marks ++ rest ∧ out = ['*', '*'] ++ digits) := by
  unfold signs at h
  split at h
  · cases h
  · next c r =>
    split at h
    · next hc =>
      cases h
      rw [beq_iff_eq.mp hc]
      exact .inl ⟨'÷', by decide, rfl, .inl rfl⟩
    · split at h
      · next hc =>
        cases h
        refine .inl ⟨c, ?_, rfl, .inr rfl⟩
        simp only [Bool.or_eq_true, beq_iff_eq] at hc
        rcases hc with (rfl | rfl) | rfl <;> decide
      · split at h
        · -- a minus sign in superscript, which is written inside of a parenthesis
          next hc =>
          split at h
          · cases h
          · next digits u hne hdigits =>
            cases h
            obtain ⟨marks, hmarks, hall, rfl⟩ := exists_run_of_superscriptDigits hdigits fun hnil => hne (by rw [hnil])
            rw [beq_iff_eq.mp hc]
            exact .inr ⟨marks, digits, hmarks, hall, .inl ⟨rfl, rfl⟩⟩
        · split at h
          · cases h
          · next digits u hne hdigits =>
            cases h
            obtain ⟨marks, hmarks, hall, hsplit⟩ := exists_run_of_superscriptDigits hdigits fun hnil => hne (by rw [hnil])
            exact .inr ⟨marks, digits, hmarks, hall, .inr ⟨hsplit, rfl⟩⟩

theorem covered_roots (h : roots before after = some (out, rest)) :
    ∃ sign degree operand, rootDegree? sign = some degree ∧
      out = ['('] ++ operand ++ ")**(1/".toList ++ [degree, ')'] ∧
      ((IsRun isOperandChar operand ∧ after = sign :: (operand ++ rest)) ∨
        Balanced operand ∧ after = sign :: '(' :: (operand ++ ')' :: rest)) := by
  unfold roots at h
  split at h
  · cases h
  · next c r =>
    split at h
    · next degree operand u hdegree hoperand =>
      cases h
      refine ⟨c, degree, operand, hdegree, rfl, ?_⟩
      unfold rootOperand? at hoperand
      split at hoperand
      · obtain ⟨rfl, hbalanced⟩ := closeParen?_eq_some_iff.mp hoperand
        exact .inr ⟨hbalanced, rfl⟩
      · split at hoperand
        · cases hoperand
        · next hne =>
          cases hoperand
          refine .inl ⟨isRun_takeWhile (by simpa using hne), ?_⟩
          rw [List.takeWhile_append_dropWhile]
    · cases h

end Operators

/-! ## Percentages -/

theorem isBlank_of_isOperandChar {c : Char} (h : isOperandChar c = true) : isBlank c = false := by
  rw [isOperandChar, Bool.or_eq_true, beq_iff_eq] at h
  rcases h with hname | rfl
  · exact isBlank_of_isNameChar hname
  · decide

theorem percentage?_eq_some_iff {signs s operand rest : List Char} {sign : Char} :
    percentage? signs s = some (sign, operand, rest) ↔ sign ∈ signs ∧ IsRun isOperandChar operand ∧
      ∃ blanks, (∀ c ∈ blanks, isBlank c = true) ∧ s = sign :: (blanks ++ (operand ++ '%' :: rest)) := by
  constructor
  · intro h
    unfold percentage? at h
    split at h
    · cases h
    · next c r =>
      dsimp only at h
      split at h
      · next u hsign hne hrest =>
        cases h
        obtain ⟨blanks, hblanks, hr⟩ := exists_blanks r
        refine ⟨List.contains_iff_mem.mp hsign, isRun_takeWhile hne, blanks, hblanks, ?_⟩
        rw [← hrest, List.takeWhile_append_dropWhile, ← hr]
      · cases h
  · rintro ⟨hsign, hoperand, blanks, hblanks, rfl⟩
    have hstart : trimStart (blanks ++ (operand ++ '%' :: rest)) = operand ++ '%' :: rest := by
      rw [trimStart, List.dropWhile_append_of_pos hblanks]
      exact hoperand.trimStart (fun c hc => isBlank_of_isOperandChar hc) _
    obtain ⟨htake, hdrop⟩ := hoperand.reads (c := '%') (by decide) rest
    unfold percentage?
    dsimp only
    rw [hstart, htake, hdrop, List.contains_iff_mem.mpr hsign, hoperand.isEmpty]
    rfl

/-- The characters that the rules for percentages write in front of an operand. -/
def leadChars : List Char := "*/+-(1".toList

/-- A rule that rewrites percentages behind some signs. -/
structure LooksFor (signs : List Char) (p : Pattern (List Char)) : Prop where
  none_iff : ∀ before after, p before after = none ↔ percentage? signs after = none
  out : ∀ ⦃before after out rest⦄, p before after = some (out, rest) →
    ∃ sign operand, percentage? signs after = some (sign, operand, rest) ∧
      ∃ lead, (∀ c ∈ lead, c ∈ leadChars) ∧ out = lead ++ operand ++ "/100)".toList

theorem looksFor_percentOf : LooksFor ['*', '/'] percentOf where
  none_iff _ _ := Option.map_eq_none_iff
  out := by
    intro before after out rest h
    obtain ⟨⟨sign, operand, u⟩, hread, hpair⟩ := Option.map_eq_some_iff.mp h
    cases hpair
    refine ⟨sign, operand, hread, [sign, '('], ?_, rfl⟩
    have hsigns : ∀ c ∈ ['*', '/'], ∀ d ∈ [c, '('], d ∈ leadChars := by decide
    exact hsigns sign (percentage?_eq_some_iff.mp hread).1

theorem looksFor_percentStep : LooksFor ['+', '-'] percentStep where
  none_iff _ _ := Option.map_eq_none_iff
  out := by
    intro before after out rest h
    obtain ⟨⟨sign, operand, u⟩, hread, hpair⟩ := Option.map_eq_some_iff.mp h
    cases hpair
    refine ⟨sign, operand, hread, _, ?_, rfl⟩
    have hsigns : ∀ c ∈ ['+', '-'], ∀ unary : Bool,
        ∀ d ∈ (if unary then ['('] else "*(1".toList) ++ [c], d ∈ leadChars := by
      decide
    exact hsigns sign (percentage?_eq_some_iff.mp hread).1 (isUnarySign before)

/-! ## Ratios and decimal fractions -/

section Numerals

variable {before after out rest : List Char}

theorem covered_ratio (h : ratio before after = some (out, rest)) :
    ∃ a b, IsRun isDecimal a ∧ IsRun isDecimal b ∧ after = a ++ ':' :: (b ++ rest) ∧
      wordStart before after = true ∧ wordEnd rest = true ∧
        out = "Fraction(".toList ++ a ++ [',', ' '] ++ b ++ [')'] := by
  unfold ratio at h
  split at h
  · next hstart =>
    split at h
    · next a r hfirst =>
      split at h
      · next b u hsecond =>
        split at h
        · next hend =>
          cases h
          obtain ⟨rfl, ha⟩ := isRun_of_digits? hfirst
          obtain ⟨rfl, hb⟩ := isRun_of_digits? hsecond
          exact ⟨a, b, ha, hb, rfl, hstart, hend, rfl⟩
        · cases h
      · cases h
    · cases h
  · cases h

/-- A digit or a decimal point. -/
def isDecimalChar (c : Char) : Bool := isDigit c || c == '.'

theorem covered_colonDecimal {colons s d : List Char} (h : colonDecimal? colons s = some (d, rest)) :
    IsRun isDecimalChar d ∧ s = colons ++ (d ++ rest) := by
  obtain ⟨r, hr, hbody⟩ := Option.bind_eq_some_iff.mp h
  rw [strip?_eq_some_iff.mp hr]
  dsimp only at hbody
  split at hbody
  · cases hbody
  · next hne =>
    cases hbody
    rw [Bool.not_eq_true] at hne
    exact ⟨isRun_takeWhile hne, congrArg (colons ++ ·) List.takeWhile_append_dropWhile.symm⟩

/-! ## Words -/

theorem covered_clockWord {word text : List Char} (hword : IsKeyword word)
    (h : clockWord word text before after = some (out, rest)) :
    ∃ v, v.map fold = word ∧ after = v ++ rest ∧ wordStart before after = true ∧ wordEnd rest = true ∧
      out = text := by
  unfold clockWord at h
  split at h
  · next hstart =>
    split at h
    · next r hstrip =>
      split at h
      · next hend =>
        cases h
        obtain ⟨v, rfl, hfold⟩ := (stripKeyword?_eq_some_iff hword.small).mp hstrip
        exact ⟨v, hfold, rfl, hstart, hend, rfl⟩
      · cases h
    · cases h
  · cases h

/-- Digits, and perhaps a point and more digits. -/
structure IsCount (s : List Char) : Prop where
  digits : ∃ whole more, IsRun isDecimal whole ∧ s = whole ++ more ∧
    (more = [] ∨ ∃ fraction, IsRun isDecimal fraction ∧ more = '.' :: fraction)

theorem IsCount.ne_nil {s : List Char} (h : IsCount s) : s ≠ [] := by
  obtain ⟨whole, more, hwhole, rfl, -⟩ := h.digits
  simp [hwhole.nonempty]

theorem IsCount.forall_mem {s : List Char} (h : IsCount s) : ∀ c ∈ s, isDecimal c = true ∨ c = '.' := by
  obtain ⟨whole, more, hwhole, rfl, rfl | ⟨fraction, hfraction, rfl⟩⟩ := h.digits
  · intro c hc
    rw [List.append_nil] at hc
    exact .inl (hwhole.all c hc)
  · intro c hc
    rcases List.mem_append.mp hc with hc | hc
    · exact .inl (hwhole.all c hc)
    · exact (List.mem_cons.mp hc).elim .inr fun hc => .inl (hfraction.all c hc)

theorem isRun_of_fractionPart? {s d : List Char} (h : fractionPart? s = some (d, rest)) :
    s = d ++ rest ∧ ∃ fraction, IsRun isDecimal fraction ∧ d = '.' :: fraction := by
  unfold fractionPart? at h
  split at h
  · obtain ⟨⟨f, u⟩, hf, hpair⟩ := Option.map_eq_some_iff.mp h
    cases hpair
    obtain ⟨rfl, hrun⟩ := isRun_of_digits? hf
    exact ⟨rfl, f, hrun, rfl⟩
  · cases h

theorem isCount_extend {s : List Char} {whole : List Char × List Char} (h : digits? s = some whole) :
    s = (extend whole fractionPart?).1 ++ (extend whole fractionPart?).2 ∧
      IsCount (extend whole fractionPart?).1 := by
  obtain ⟨hsplit, hrun⟩ := isRun_of_digits? h
  unfold extend
  split
  · next more u hpart =>
    obtain ⟨hmore, fraction, hfraction, rfl⟩ := isRun_of_fractionPart? hpart
    rw [hsplit, hmore, ← List.append_assoc]
    exact ⟨rfl, ⟨whole.1, _, hrun, rfl, .inr ⟨fraction, hfraction, rfl⟩⟩⟩
  · exact ⟨hsplit, ⟨whole.1, [], hrun, (List.append_nil _).symm, .inl rfl⟩⟩

theorem covered_stripWord {ws : List String} (hws : ∀ w ∈ ws, IsKeyword w.toList) {s : List Char}
    (h : stripWord? ws s = some rest) :
    ∃ v, (∃ w ∈ ws, v.map fold = w.toList) ∧ s = v ++ rest ∧ wordEnd rest = true := by
  obtain ⟨w, hw, h⟩ := List.exists_of_findSome?_eq_some h
  obtain ⟨r, hr, hrest⟩ := Option.bind_eq_some_iff.mp h
  obtain ⟨v, rfl, hfold⟩ := (stripKeyword?_eq_some_iff (hws w hw).small).mp hr
  split at hrest
  · next hend =>
    cases hrest
    exact ⟨v, ⟨w, hw, hfold⟩, rfl, hend⟩
  · cases hrest

theorem covered_span {w : SpanWords} (hw : w ∈ spanTable) (h : span w before after = some (out, rest)) :
    ∃ count blanks v, IsCount count ∧ (w.fractional = false → IsRun isDecimal count) ∧
      (∀ c ∈ blanks, isBlank c = true) ∧ (∃ k ∈ w.words, v.map fold = k.toList) ∧
      after = count ++ (blanks ++ (v ++ rest)) ∧ wordStart before after = true ∧ wordEnd rest = true ∧
        out = w.constructor.toList ++ ['('] ++ count ++ [')'] := by
  unfold span at h
  split at h
  · next hstart =>
    obtain ⟨whole, hdigits, h⟩ := Option.bind_eq_some_iff.mp h
    obtain ⟨r, hword, hpair⟩ := Option.map_eq_some_iff.mp h
    cases hpair
    obtain ⟨v, hv, hbehind, hend⟩ := covered_stripWord (isKeyword_words.2.2 w hw) hword
    -- the count takes a fraction if it may have one
    have hcount : after = (if w.fractional then extend whole fractionPart? else whole).1
          ++ (if w.fractional then extend whole fractionPart? else whole).2 ∧
        IsCount (if w.fractional then extend whole fractionPart? else whole).1 ∧
        (w.fractional = false → IsRun isDecimal (if w.fractional then extend whole fractionPart? else whole).1) := by
      cases w.fractional with
      | true =>
        obtain ⟨hsplit, hcount⟩ := isCount_extend hdigits
        exact ⟨hsplit, hcount, by simp⟩
      | false =>
        obtain ⟨hsplit, hrun⟩ := isRun_of_digits? hdigits
        exact ⟨hsplit, ⟨whole.1, [], hrun, (List.append_nil _).symm, .inl rfl⟩, fun _ => hrun⟩
    obtain ⟨hsplit, hcount, hwhole⟩ := hcount
    obtain ⟨blanks, hblanks, hskip⟩ := exists_blanks (if w.fractional then extend whole fractionPart? else whole).2
    refine ⟨_, blanks, v, hcount, hwhole, hblanks, hv, ?_, hstart, hend, rfl⟩
    rw [← hbehind, ← hskip]
    exact hsplit
  · cases h

/-! ## Quantities -/

/-- A character of a number. -/
def isNumberChar (c : Char) : Bool := isDecimal c || ".eE+-".toList.contains c

theorem isNumberChar_of_isDecimal {c : Char} (h : isDecimal c = true) : isNumberChar c = true := by
  rw [isNumberChar, h, Bool.true_or]

theorem forall_mem_exponentPart? {s d : List Char} (h : exponentPart? s = some (d, rest)) :
    ∀ c ∈ d, isNumberChar c = true := by
  have hsigns : ∀ c ∈ ".eE+-".toList, isNumberChar c = true := by decide
  -- the letter, and perhaps a sign, in front of digits
  have hdigits : ∀ (lead : List Char) {s d}, (∀ c ∈ lead, c ∈ ".eE+-".toList) →
      (digits? s).map (fun m => (lead ++ m.1, m.2)) = some (d, rest) → ∀ c ∈ d, isNumberChar c = true := by
    intro lead s d hlead h c hc
    obtain ⟨⟨f, u⟩, hf, hpair⟩ := Option.map_eq_some_iff.mp h
    cases hpair
    rcases List.mem_append.mp hc with hc | hc
    · exact hsigns c (hlead c hc)
    · exact isNumberChar_of_isDecimal ((isRun_of_digits? hf).2.all c hc)
  unfold exponentPart? at h
  split at h
  · cases h
  · next e r =>
    split at h
    · next he =>
      have hletter : e ∈ ".eE+-".toList := by
        rw [Bool.or_eq_true, beq_iff_eq, beq_iff_eq] at he
        rcases he with rfl | rfl <;> decide
      split at h
      · cases h
      · next c r =>
        split at h
        · next hc =>
          refine hdigits [e, c] ?_ h
          have hsign : c ∈ ".eE+-".toList := by
            rw [Bool.or_eq_true, beq_iff_eq, beq_iff_eq] at hc
            rcases hc with rfl | rfl <;> decide
          exact List.forall_mem_cons.mpr ⟨hletter, List.forall_mem_singleton.mpr hsign⟩
        · exact hdigits [e] (List.forall_mem_singleton.mpr hletter) h
    · cases h

theorem covered_quantity (h : quantity before after = some (out, rest)) :
    ∃ number blanks, ∃ u ∈ MeasureUnit.table, IsRun isNumberChar number ∧
      (∀ c ∈ blanks, isBlank c = true) ∧ after = number ++ (blanks ++ (u.symbol.toList ++ rest)) ∧
        (out = number ++ (blanks ++ u.symbol.toList) ∨
          out = ['('] ++ number ++ [' ', '*', ' '] ++ unitCall u.symbol.toList ++ [')']) := by
  obtain ⟨⟨⟨number, symbol⟩, r⟩, hread, hpair⟩ := Option.map_eq_some_iff.mp h
  unfold quantityLiteral at hread
  split at hread
  · obtain ⟨whole, hdigits, hread⟩ := Option.bind_eq_some_iff.mp hread
    obtain ⟨⟨symbol', r'⟩, hunit, hnumber⟩ := Option.map_eq_some_iff.mp hread
    cases hnumber
    obtain ⟨hsymbol, u, hu, rfl⟩ := eq_symbol_of_stripUnit? hunit
    obtain ⟨hfraction, hcount⟩ := isCount_extend hdigits
    obtain ⟨blanks, hblanks, hskip⟩ := exists_blanks (extend (extend whole fractionPart?) exponentPart?).2
    have hsplit := eq_append_of_extend hfraction eq_append_of_exponentPart?
    have hnumber : IsRun isNumberChar (extend (extend whole fractionPart?) exponentPart?).1 := by
      have hchars : ∀ c ∈ (extend whole fractionPart?).1, isNumberChar c = true := by
        intro c hc
        rcases hcount.forall_mem c hc with hdecimal | rfl
        · exact isNumberChar_of_isDecimal hdecimal
        · decide
      -- an exponent may follow, whatever the digits in front of it are
      generalize extend whole fractionPart? = count at hcount hchars
      unfold extend
      split
      · next hexponent =>
        refine ⟨by simp [hcount.ne_nil], fun c hc => ?_⟩
        exact (List.mem_append.mp hc).elim (hchars c) (forall_mem_exponentPart? hexponent c)
      · exact ⟨hcount.ne_nil, hchars⟩
    rw [hskip, hsymbol] at hsplit
    refine ⟨_, blanks, u, hu, hnumber, hblanks, ?_⟩
    dsimp only at hpair
    split at hpair
    · cases hpair
      refine ⟨hsplit, .inl ?_⟩
      have hlength : ∀ a b : List Char, (a ++ b).take ((a ++ b).length - b.length) = a := by simp
      rw [covered, hsplit, ← List.append_assoc, ← List.append_assoc, hlength, List.append_assoc]
    · cases hpair
      exact ⟨hsplit, .inr rfl⟩
  · cases hread

theorem covered_bareUnit (h : bareUnit before after = some (out, rest)) :
    ∃ u ∈ MeasureUnit.table, after = u.symbol.toList ++ rest ∧
      ∃ sign, (∀ c ∈ sign, c ∈ "* ".toList) ∧
        (out = u.symbol.toList ∨ out = sign ++ unitCall u.symbol.toList) := by
  obtain ⟨⟨symbol, r⟩, hread, hpair⟩ := Option.map_eq_some_iff.mp h
  unfold unitToken at hread
  split at hread
  · obtain ⟨hafter, u, hu, rfl⟩ := eq_symbol_of_stripUnit? hread
    dsimp only at hpair
    split at hpair
    · cases hpair
      exact ⟨u, hu, hafter, [], by simp, .inl rfl⟩
    · cases hpair
      have hsigns : ∀ factor adjacent : Bool,
          ∀ c ∈ (if !factor then [] else if adjacent then [' ', '*', ' '] else ['*', ' ']), c ∈ "* ".toList := by
        decide
      exact ⟨u, hu, hafter, _, hsigns _ _, .inr rfl⟩
  · cases hread

/-! ## The stack -/

theorem covered_stackElement (h : stackElement before after = some (out, rest)) :
    ∃ digits, IsRun isDecimal digits ∧ after = '@' :: (digits ++ rest) ∧
      out = "stack_at(".toList ++ stackName.toList ++ ", ".toList ++ showInt (stackPosition digits) ++ [')'] := by
  unfold stackElement at h
  split at h
  · obtain ⟨⟨d, u⟩, hd, hpair⟩ := Option.map_eq_some_iff.mp h
    cases hpair
    obtain ⟨rfl, hrun⟩ := isRun_of_digits? hd
    exact ⟨d, hrun, rfl, rfl⟩
  · cases h

theorem covered_wholeStack (h : wholeStack before after = some (out, rest)) :
    after = ['@', '@'] ++ rest ∧ out = stackName.toList := by
  unfold wholeStack at h
  split at h
  · cases h
    exact ⟨rfl, rfl⟩
  · cases h

theorem covered_lastAnswer (h : lastAnswer before after = some (out, rest)) :
    after = ['@'] ++ rest ∧ out = answerName.toList := by
  unfold lastAnswer at h
  split at h
  · cases h
    exact ⟨rfl, rfl⟩
  · cases h

end Numerals

end Worksheet.Notation
