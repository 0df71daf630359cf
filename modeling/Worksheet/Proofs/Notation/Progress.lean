import Worksheet.Proofs.Declaration.Binding
import Worksheet.Proofs.Notation.Kept

/-!
# No rule undoes what another one has done

Wherever a rule changes a text, it takes away a mark that no rule writes, or it opens a parenthesis that no rule
takes away; binding a call writes a point. So a text that comes out of all rules as it was has not been changed by
any of them.

* **`weight`** — what has been opened in a text, less the marks that are still to be replaced.
* **`Rises`** — the texts are the same or the weight of the second is the greater one; `patterns_rise`, with a
  lemma for each pattern, and `boundCall_rises`.
* **`foldl_eq_self_iff`** — a row of rules leaves a text alone exactly if no rule in it changes the text.
* **`bound_expand_eq_self_iff`** — the same of the whole expansion and the binding of calls behind it.
-/

namespace Worksheet.Notation

open Text

/-! ## Weights -/

/-- Characters that rules write and do not take away. -/
def lastingChars : List Char := ['(', '.']

/-- Characters that rules take away and do not write. -/
def passingChars : List Char :=
  ['@', ':', '!', '%', '÷', '×', '⋅', '·', '√', '∛', '∜', '⁻', '⁰', '¹', '²', '³', '⁴', '⁵', '⁶', '⁷', '⁸', '⁹']

/-- What a character counts. -/
def charWeight (c : Char) : Int := if c ∈ lastingChars then 1 else if c ∈ passingChars then -1 else 0

/-- What has been opened in a text, less the marks that are still to be replaced. -/
def weight : List Char → Int
  | [] => 0
  | c :: r => charWeight c + weight r

section Weights

variable {s t : List Char}

theorem weight_cons (c : Char) (s : List Char) : weight (c :: s) = charWeight c + weight s := rfl

theorem weight_append (s t : List Char) : weight (s ++ t) = weight s + weight t := by
  induction s with
  | nil => exact (Int.zero_add _).symm
  | cons c r ih => rw [List.cons_append, weight_cons, weight_cons, ih, Int.add_assoc]

theorem weight_open : weight ['('] = 1 := by decide

theorem weight_close : weight [')'] = 0 := by decide

theorem weight_nonneg (hs : ∀ c ∈ s, 0 ≤ charWeight c) : 0 ≤ weight s := by
  induction s with
  | nil => exact Int.le_refl 0
  | cons c r ih =>
    obtain ⟨hc, hr⟩ := List.forall_mem_cons.mp hs
    have hrest := ih hr
    rw [weight_cons]
    omega

theorem weight_nonpos (hs : ∀ c ∈ s, charWeight c ≤ 0) : weight s ≤ 0 := by
  induction s with
  | nil => exact Int.le_refl 0
  | cons c r ih =>
    obtain ⟨hc, hr⟩ := List.forall_mem_cons.mp hs
    have hrest := ih hr
    rw [weight_cons]
    omega

theorem weight_eq_zero (hs : ∀ c ∈ s, charWeight c = 0) : weight s = 0 := by
  have hlow := weight_nonneg fun c hc => Int.le_of_eq (hs c hc).symm
  have hhigh := weight_nonpos fun c hc => Int.le_of_eq (hs c hc)
  omega

/-- A character of a class with no counted character in it. -/
theorem charWeight_of_class {f : Char → Bool} (hf : ∀ m ∈ lastingChars ++ passingChars, f m = false) {c : Char}
    (hc : f c = true) : charWeight c = 0 := by
  have hnot : c ∉ lastingChars ++ passingChars := by
    intro hmem
    rw [hf c hmem] at hc
    cases hc
  rw [List.mem_append, not_or] at hnot
  rw [charWeight, if_neg hnot.1, if_neg hnot.2]

theorem weight_of_class {f : Char → Bool} (hf : ∀ m ∈ lastingChars ++ passingChars, f m = false)
    (hs : ∀ c ∈ s, f c = true) : weight s = 0 :=
  weight_eq_zero fun c hc => charWeight_of_class hf (hs c hc)

theorem weight_blanks (hs : ∀ c ∈ s, isBlank c = true) : weight s = 0 := weight_of_class (by decide) hs

theorem weight_digits (hs : ∀ c ∈ s, isDigit c = true) : weight s = 0 := weight_of_class (by decide) hs

theorem weight_decimals (hs : ∀ c ∈ s, isDecimal c = true) : weight s = 0 := weight_of_class (by decide +kernel) hs

theorem weight_keyword {v word : List Char} (hword : IsKeyword word) (hv : v.map fold = word) : weight v = 0 :=
  weight_of_class (f := fun c => isSmall (fold c)) (by decide) fun _ hc =>
    hword.small _ (hv ▸ List.mem_map_of_mem hc)

theorem charWeight_showInt (n : Int) : ∀ c ∈ showInt n, charWeight c = 0 := by
  intro c hc
  cases hdigit : isDigit c with
  | true => exact charWeight_of_class (by decide) hdigit
  | false =>
    obtain rfl : c = '-' := by_contra fun hminus => not_mem_showInt hdigit hminus n hc
    decide

theorem weight_showInt (n : Int) : weight (showInt n) = 0 := weight_eq_zero (charWeight_showInt n)

theorem weight_numericCall {name : String} (hname : weight name.toList = 0) (args : List Int) :
    0 < weight (numericCall name args) := by
  have hargs : 0 ≤ weight (List.intercalate [',', ' '] (args.map showInt)) := by
    refine weight_nonneg fun c hc => ?_
    have hcomma : ∀ c ∈ [',', ' '], 0 ≤ charWeight c := by decide
    rcases mem_intercalate hc with hc | ⟨part, hpart, hc⟩
    · exact hcomma c hc
    · obtain ⟨n, -, rfl⟩ := List.mem_map.mp hpart
      exact Int.le_of_eq (charWeight_showInt n c hc).symm
  unfold numericCall
  simp only [weight_append, weight_open, weight_close]
  omega

theorem weight_inQuotes (s : List Char) : weight (inQuotes s) = weight s := by
  have hquote : weight ['"'] = 0 := by decide
  unfold inQuotes
  simp only [weight_append]
  omega

theorem weight_unitCall (s : List Char) : weight (unitCall s) = weight s + 1 := by
  have hopen : weight "unit(".toList = 1 := by decide
  have hcall : unitCall s = "unit(".toList ++ inQuotes s ++ [')'] := rfl
  rw [hcall]
  simp only [weight_append, weight_close, weight_inQuotes]
  omega

end Weights

/-! ## Rising -/

/-- The same text, or one of a greater weight. -/
def Rises (s t : List Char) : Prop := t = s ∨ weight s < weight t

theorem Rises.le {s t : List Char} (h : Rises s t) : weight s ≤ weight t := by
  rcases h with rfl | hlt
  · exact Int.le_refl _
  · exact Int.le_of_lt hlt

/-- What has risen and comes back has not changed in between. -/
theorem Rises.eq_of_back {s t : List Char} (hst : Rises s t) (hts : Rises t s) : t = s :=
  hst.resolve_right fun hlt => absurd hts.le (Int.not_le.mpr hlt)

theorem partwise_rises : Partwise Rises where
  refl _ := .inl rfl
  trans {s t u} hst htu := by
    rcases hst with rfl | hlt
    · exact htu
    · exact .inr (Int.lt_of_lt_of_le hlt htu.le)
  append {a a' b b'} ha hb := by
    have hla := ha.le
    have hlb := hb.le
    rcases ha with rfl | ha
    · rcases hb with rfl | hb
      · exact .inl rfl
      · refine .inr ?_
        rw [weight_append, weight_append]
        omega
    · refine .inr ?_
      rw [weight_append, weight_append]
      omega

theorem factorial_rises : Keeps Rises factorial := by
  intro before after out rest h
  obtain ⟨operand, -, rfl, ⟨-, rfl⟩ | ⟨-, rfl⟩⟩ := covered_factorial h
  · exact ⟨operand ++ ['!'], by simp, by simp, .inl rfl⟩
  · have hmark : weight ['!'] = -1 := by decide
    have hopen : weight "factorial(".toList = 1 := by decide
    refine ⟨operand ++ ['!'], by simp, by simp, .inr ?_⟩
    simp only [weight_append, weight_close]
    omega

theorem signs_rise : Keeps Rises signs := by
  intro before after out rest h
  rcases covered_signs h with ⟨c, hc, rfl, hout⟩ | ⟨marks, digits, hrun, hdigits, hforms⟩
  · have hmarks : ∀ c ∈ "÷×⋅·".toList, weight [c] = -1 := by decide
    have hsigns : weight ['/'] = 0 ∧ weight ['*'] = 0 := by decide
    refine ⟨[c], by simp, rfl, .inr ?_⟩
    rw [hmarks c hc]
    rcases hout with rfl | rfl <;> omega
  · have hsuperscripts : ∀ c ∈ "⁰¹²³⁴⁵⁶⁷⁸⁹".toList, charWeight c = -1 := by decide
    have hmarks : weight marks < 0 := by
      obtain ⟨c, r, rfl⟩ := List.exists_cons_of_ne_nil hrun.nonempty
      obtain ⟨hc, hr⟩ := List.forall_mem_cons.mp hrun.all
      have hrest : weight r ≤ 0 := weight_nonpos fun d hd => by
        rw [hsuperscripts d (mem_of_isSuperscript (hr d hd))]
        decide
      rw [weight_cons, hsuperscripts c (mem_of_isSuperscript hc)]
      omega
    have hdigit := weight_digits hdigits
    rcases hforms with ⟨rfl, rfl⟩ | ⟨rfl, rfl⟩
    · have hminus : charWeight '⁻' = -1 := by decide
      have hopen : weight "**(-".toList = 1 := by decide
      refine ⟨'⁻' :: marks, by simp, rfl, .inr ?_⟩
      simp only [weight_append, weight_close, weight_cons '⁻']
      omega
    · have hpower : weight ['*', '*'] = 0 := by decide
      refine ⟨marks, hrun.nonempty, rfl, .inr ?_⟩
      rw [weight_append]
      omega

theorem roots_rise : Keeps Rises roots := by
  intro before after out rest h
  obtain ⟨sign, degree, operand, hdegree, rfl, hform⟩ := covered_roots h
  have hends : charWeight sign = -1 ∧ weight [degree, ')'] = 0 := by
    unfold rootDegree? at hdegree
    split at hdegree <;> cases hdegree <;> decide
  have hpower : weight ")**(1/".toList = 1 := by decide
  rcases hform with ⟨-, rfl⟩ | ⟨-, rfl⟩
  · refine ⟨sign :: operand, by simp, rfl, .inr ?_⟩
    simp only [weight_append, weight_open, weight_cons sign]
    omega
  · refine ⟨sign :: (['('] ++ (operand ++ [')'])), by simp, by simp, .inr ?_⟩
    simp only [weight_append, weight_open, weight_close, weight_cons sign]
    omega

theorem LooksFor.rises {signs : List Char} {p : Pattern (List Char)} (hp : LooksFor signs p)
    (hsigns : ∀ c ∈ signs, charWeight c = 0) : Keeps Rises p := by
  intro before after out rest h
  obtain ⟨sign, operand, hread, lead, hlead, rfl⟩ := hp.out h
  obtain ⟨hsign, -, blanks, hblanks, rfl⟩ := percentage?_eq_some_iff.mp hread
  have hleads : ∀ c ∈ leadChars, 0 ≤ charWeight c := by decide
  have hleadWeight := weight_nonneg fun c hc => hleads c (hlead c hc)
  have hsignWeight := hsigns sign hsign
  have hblankWeight := weight_blanks hblanks
  have hmark : weight ['%'] = -1 := by decide
  have hclose : weight "/100)".toList = 0 := by decide
  refine ⟨sign :: (blanks ++ (operand ++ ['%'])), by simp, by simp, .inr ?_⟩
  simp only [weight_append, weight_cons sign]
  omega

theorem ratio_rises : Keeps Rises ratio := by
  intro before after out rest h
  obtain ⟨a, b, ha, hb, rfl, -, -, rfl⟩ := covered_ratio h
  have hcolon : charWeight ':' = -1 := by decide
  have hopen : weight "Fraction(".toList = 1 := by decide
  have hcomma : weight [',', ' '] = 0 := by decide
  refine ⟨a ++ ':' :: b, by simp, by simp, .inr ?_⟩
  simp only [weight_append, weight_close, weight_cons ':']
  omega

/-- The colons weigh less than what is written around the quotes. -/
theorem quotedDecimal_rises {colons lead tail : List Char} (hne : colons ≠ [])
    (hweight : weight colons < weight lead + weight tail) : Keeps Rises (quotedDecimal colons lead tail) := by
  intro before after out rest h
  obtain ⟨⟨d, u⟩, hread, hpair⟩ := Option.map_eq_some_iff.mp h
  cases hpair
  obtain ⟨-, rfl⟩ := covered_colonDecimal hread
  refine ⟨colons ++ d, by simp [hne], by simp, .inr ?_⟩
  simp only [weight_append, weight_inQuotes]
  omega

theorem exactDecimal_rises : Keeps Rises exactDecimal :=
  exactDecimal_eq ▸ quotedDecimal_rises (by decide) (by decide)

theorem nearDecimal_rises : Keeps Rises nearDecimal :=
  nearDecimal_eq ▸ quotedDecimal_rises (by decide) (by decide)

theorem clockWord_rises {word text : List Char} (hword : IsKeyword word) (htext : 0 < weight text) :
    Keeps Rises (clockWord word text) := by
  intro before after out rest h
  obtain ⟨v, hv, rfl, -, -, rfl⟩ := covered_clockWord hword h
  refine ⟨v, ?_, rfl, .inr ?_⟩
  · rintro rfl
    exact hword.nonempty hv.symm
  · rw [weight_keyword hword hv]
    exact htext

theorem span_rises {w : SpanWords} (hw : w ∈ spanTable) : Keeps Rises (span w) := by
  intro before after out rest h
  obtain ⟨count, blanks, v, hcount, -, hblanks, ⟨k, hk, hv⟩, rfl, -, -, rfl⟩ := covered_span hw h
  have hnames : ∀ w ∈ spanTable, weight w.constructor.toList = 0 := by decide
  have hname := hnames w hw
  have hword := weight_keyword (isKeyword_words.2.2 w hw k hk) hv
  have hblankWeight := weight_blanks hblanks
  refine ⟨count ++ (blanks ++ v), by simp [hcount.ne_nil], by simp, .inr ?_⟩
  simp only [weight_append, weight_open, weight_close]
  omega

theorem quantity_rises : Keeps Rises quantity := by
  intro before after out rest h
  obtain ⟨number, blanks, u, hu, hnumber, hblanks, rfl, hout⟩ := covered_quantity h
  refine ⟨number ++ (blanks ++ u.symbol.toList), by simp [hnumber.nonempty], by simp, hout.imp id ?_⟩
  rintro rfl
  have hblankWeight := weight_blanks hblanks
  have htimes : weight [' ', '*', ' '] = 0 := by decide
  simp only [weight_append, weight_open, weight_close, weight_unitCall]
  omega

theorem bareUnit_rises : Keeps Rises bareUnit := by
  intro before after out rest h
  obtain ⟨u, hu, rfl, sign, hsign, hout⟩ := covered_bareUnit h
  refine ⟨u.symbol.toList, (isLetter_of_mem_symbol u hu).1, rfl, hout.imp id ?_⟩
  rintro rfl
  have hsigns : ∀ c ∈ "* ".toList, 0 ≤ charWeight c := by decide
  have hsignWeight := weight_nonneg fun c hc => hsigns c (hsign c hc)
  rw [weight_append, weight_unitCall]
  omega

theorem stackElement_rises : Keeps Rises stackElement := by
  intro before after out rest h
  obtain ⟨digits, hdigits, rfl, rfl⟩ := covered_stackElement h
  have hmark : charWeight '@' = -1 := by decide
  have hdigitWeight := weight_decimals hdigits.all
  have hopen : weight "stack_at(".toList = 1 := by decide
  have hname : weight stackName.toList = 0 := by decide
  have hcomma : weight ", ".toList = 0 := by decide
  refine ⟨'@' :: digits, by simp, rfl, .inr ?_⟩
  simp only [weight_append, weight_close, weight_cons '@', weight_showInt]
  omega

theorem wholeStack_rises : Keeps Rises wholeStack := by
  intro before after out rest h
  obtain ⟨rfl, rfl⟩ := covered_wholeStack h
  exact ⟨['@', '@'], by simp, rfl, .inr (by decide)⟩

theorem lastAnswer_rises : Keeps Rises lastAnswer := by
  intro before after out rest h
  obtain ⟨rfl, rfl⟩ := covered_lastAnswer h
  exact ⟨['@'], by simp, rfl, .inr (by decide)⟩

/-- Every pattern of the notation raises the weight of what it changes. -/
theorem patterns_rise {o : Options} {p : Pattern (List Char)} (hp : p ∈ patterns o) : Keeps Rises p := by
  simp only [patterns, operandPatterns, List.mem_append, List.mem_cons, List.not_mem_nil, or_false] at hp
  rcases hp with (rfl | rfl | rfl | rfl | rfl) |
    ((rfl | rfl | rfl | rfl | rfl) | hspan) | rfl | rfl | rfl | rfl | rfl
  · exact factorial_rises
  · exact signs_rise
  · exact roots_rise
  · exact looksFor_percentOf.rises (by decide)
  · exact looksFor_percentStep.rises (by decide)
  · exact ratio_rises
  · exact exactDecimal_rises
  · exact nearDecimal_rises
  · exact clockWord_rises isKeyword_words.1 (weight_numericCall (by decide) _)
  · exact clockWord_rises isKeyword_words.2.1 (weight_numericCall (by decide) _)
  · obtain ⟨w, hw, rfl⟩ := List.mem_map.mp hspan
    exact span_rises hw
  · exact quantity_rises
  · exact bareUnit_rises
  · exact stackElement_rises
  · exact wholeStack_rises
  · exact lastAnswer_rises

theorem boundCall_rises (isFunction : String → Bool) : Keeps Rises (boundCall isFunction) := by
  intro before after out rest h
  obtain ⟨name, blanks, hsite, ⟨rfl, rfl⟩ | ⟨-, rfl, rfl⟩⟩ := boundCall_eq_some h
  · exact ⟨'.' :: (name ++ (blanks ++ ['('])), by simp, by simp, .inl rfl⟩
  · refine ⟨name ++ (blanks ++ ['(']), by simp, by simp, ?_⟩
    unfold callText
    split
    · have hblankWeight := weight_blanks hsite.blank
      have hcall : weight ".call(".toList = 2 := by decide
      refine .inr ?_
      simp only [weight_append, weight_open]
      omega
    · exact .inl rfl

/-! ## Texts that are left alone -/

theorem foldl_rises (o : Options) {rules : List Rule} (hrules : rules ⊆ Rule.all) (s : List Char) :
    Rises s (rules.foldl (fun s r => r.apply o s) s) :=
  foldl_keeps partwise_rises (fun _ => patterns_rise) hrules s

/-- **A row of rules leaves a text alone exactly if no rule in it changes the text.** -/
theorem foldl_eq_self_iff (o : Options) {rules : List Rule} (hrules : rules ⊆ Rule.all) (s : List Char) :
    rules.foldl (fun s r => r.apply o s) s = s ↔ changes o rules s = [] := by
  induction rules with
  | nil => exact iff_of_true rfl rfl
  | cons r rules ih =>
    obtain ⟨hr, hrest⟩ := List.cons_subset.mp hrules
    rw [List.foldl_cons, changes]
    by_cases hsame : r.apply o s = s
    · rw [hsame, if_pos (beq_self_eq_true s)]
      exact ih hrest
    · rw [if_neg (by simpa using hsame)]
      refine iff_of_false (fun hback => hsame ?_) (List.cons_ne_nil _ _)
      have hback' := foldl_rises o hrest (r.apply o s)
      rw [hback] at hback'
      exact (rules_keep partwise_rises (fun _ => patterns_rise) hr s).eq_of_back hback'

/-- **What expanding a text and binding its calls leaves alone** is changed by no rule, and by binding neither. -/
theorem bound_expand_eq_self_iff (o : Options) (isFunction : String → Bool) {s : List Char} (htrim : trim s = s) :
    bindCalls isFunction (expand o s) = s ↔ changes o Rule.all s = [] ∧ bindCalls isFunction s = s := by
  have hexpand : expand o s = Rule.all.foldl (fun s r => r.apply o s) s := by rw [expand, htrim]
  have hrises := foldl_rises o (List.Subset.refl Rule.all) s
  have hbinds : ∀ t, Rises t (bindCalls isFunction t) :=
    (boundCall_rises isFunction).mapPlain partwise_rises
  rw [← foldl_eq_self_iff o (List.Subset.refl Rule.all), ← hexpand]
  rw [← hexpand] at hrises
  constructor
  · intro hback
    have hback' := hbinds (expand o s)
    rw [hback] at hback'
    have hsame := hrises.eq_of_back hback'
    rw [hsame] at hback
    exact ⟨hsame, hback⟩
  · rintro ⟨hsame, hbound⟩
    rw [hsame, hbound]

end Worksheet.Notation
