import Worksheet.Proofs.Notation.Matches

/-!
# What the rules keep

A rule goes over a text once and writes something for every stretch that it covers. Whatever holds
between the stretches and what is written for them, and of texts as soon as it holds of their parts, holds
between the text and what the rule makes of it.

* **`Partwise`** — a relation between texts that goes from parts to the whole; `Keeps.substitute` and
  `Keeps.mapPlain` say what that means for rules.
* **`Spares`** — a pattern that neither covers nor writes a character of a kind; `Spares.keeps`.
* **`Within`** — a pattern that covers and writes characters of a kind only, but for blanks; `Within.spares`. One
  `*_within` lemma for each pattern of the rules behind those for percentages, and `LooksFor.within`.
* **`operandRules_keep`** — what these patterns keep, the rules keep; so none of the rules does anything to the
  marks of operators (`operandRules_spare`).
* **`rules_keep`**, **`foldl_keeps`** — what all patterns keep, every rule and every row of rules keeps.
-/

namespace Worksheet.Notation

open Text

/-! ## Relations that hold part by part -/

/-- A relation between texts that holds between two texts if it holds between their parts. -/
structure Partwise (R : List Char → List Char → Prop) : Prop where
  refl (s : List Char) : R s s
  trans {s t u : List Char} (hst : R s t) (htu : R t u) : R s u
  append {a a' b b' : List Char} (ha : R a a') (hb : R b b') : R (a ++ b) (a' ++ b')

/-- The pattern writes for every stretch something that the relation holds of. -/
def Keeps (R : List Char → List Char → Prop) (p : Pattern (List Char)) : Prop :=
  ∀ ⦃before after out rest⦄, p before after = some (out, rest) →
    ∃ covered, covered ≠ [] ∧ after = covered ++ rest ∧ R covered out

/-- What a pattern makes of a text behind another one. -/
def substituteFrom (p : Pattern (List Char)) (before s : List Char) : List Char :=
  (Pattern.scanFrom p before 0 s).flatMap (Sum.elim (fun c => [c]) fun out => out)

section Partwise

variable {R : List Char → List Char → Prop} {p : Pattern (List Char)} {before r : List Char} {c : Char}

theorem substituteFrom_of_none (h : p before (c :: r) = none) :
    substituteFrom p before (c :: r) = c :: substituteFrom p (c :: before) r := by
  rw [substituteFrom, Pattern.scanFrom_of_none h]
  rfl

theorem substituteFrom_of_fit {covered rest out : List Char} (hne : covered ≠ [])
    (h : p before (covered ++ rest) = some (out, rest)) :
    substituteFrom p before (covered ++ rest) = out ++ substituteFrom p (covered.reverse ++ before) rest := by
  rw [substituteFrom, Pattern.scanFrom_of_fit hne h]
  rfl

theorem Keeps.substituteFrom (hR : Partwise R) (hp : Keeps R p) (before s : List Char) :
    R s (substituteFrom p before s) := by
  -- on the length, as the scan goes on behind a stretch
  induction hn : s.length using Nat.strongRecOn generalizing before s with
  | ind n ih =>
    cases s with
    | nil => exact hR.refl []
    | cons c r =>
      cases hmatch : p before (c :: r) with
      | none =>
        rw [substituteFrom_of_none hmatch]
        exact hR.append (hR.refl [c]) (ih r.length (by simp at hn; omega) _ r rfl)
      | some m =>
        obtain ⟨covered, hne, hsplit, hout⟩ := hp hmatch
        have hlength : m.2.length < n := by
          have hpos := List.length_pos_iff.mpr hne
          rw [← hn, hsplit, List.length_append]
          omega
        rw [hsplit] at hmatch ⊢
        rw [substituteFrom_of_fit hne hmatch]
        exact hR.append hout (ih m.2.length hlength _ m.2 rfl)

theorem Keeps.substitute (hR : Partwise R) (hp : Keeps R p) (s : List Char) : R s (p.substitute s) :=
  hp.substituteFrom hR [] s

/-- Literals stay as they are. -/
theorem Partwise.mapPlain (hR : Partwise R) {f : List Char → List Char} (hf : ∀ s, R s (f s)) (s : List Char) :
    R s (mapPlain f s) := by
  have hpieces : ∀ ps : List Piece, R (ps.flatMap Piece.text) (ps.flatMap fun p => (p.map f).text) := by
    intro ps
    induction ps with
    | nil => exact hR.refl []
    | cons p ps ih =>
      refine hR.append ?_ ih
      cases p with
      | plain t => exact hf t
      | literal t => exact hR.refl t
  have h := hpieces (pieces s)
  rwa [text_pieces] at h

theorem Keeps.mapPlain (hR : Partwise R) (hp : Keeps R p) (s : List Char) : R s (mapPlain p.substitute s) :=
  hR.mapPlain (hp.substitute hR) s

theorem Partwise.substituteAll (hR : Partwise R) {ps : List (Pattern (List Char))} (hps : ∀ p ∈ ps, Keeps R p)
    (s : List Char) : R s (substituteAll ps s) := by
  refine hR.mapPlain (fun t => ?_) s
  induction ps generalizing t with
  | nil => exact hR.refl t
  | cons p ps ih =>
    exact hR.trans ((hps p List.mem_cons_self).substitute hR t)
      (ih (fun q hq => hps q (List.mem_cons_of_mem p hq)) _)

end Partwise

/-! ## Characters that are spared -/

/-- A text without characters of a kind. -/
abbrev Free (f : Char → Bool) (s : List Char) : Prop := ∀ c ∈ s, f c = false

theorem free_nil (f : Char → Bool) : Free f [] := List.forall_mem_nil _

theorem free_cons_iff {f : Char → Bool} {c : Char} {s : List Char} : Free f (c :: s) ↔ f c = false ∧ Free f s :=
  List.forall_mem_cons

theorem free_append_iff {f : Char → Bool} {s t : List Char} : Free f (s ++ t) ↔ Free f s ∧ Free f t :=
  List.forall_mem_append

theorem Free.append {f : Char → Bool} {s t : List Char} (hs : Free f s) (ht : Free f t) : Free f (s ++ t) :=
  free_append_iff.mpr ⟨hs, ht⟩

theorem Free.cons {f : Char → Bool} {c : Char} {s : List Char} (hc : f c = false) (hs : Free f s) :
    Free f (c :: s) :=
  free_cons_iff.mpr ⟨hc, hs⟩

/-- In a text of characters of one kind there are none of another. -/
theorem free_of_kind {f g : Char → Bool} {s : List Char} (hfg : ∀ c, f c = true → g c = false)
    (hs : ∀ c ∈ s, g c = true) : Free f s := by
  intro c hc
  rw [Bool.eq_false_iff]
  intro hkind
  have hother := hs c hc
  rw [hfg c hkind] at hother
  cases hother

theorem Free.filter {f : Char → Bool} {s : List Char} (hs : Free f s) : s.filter f = [] :=
  List.filter_eq_nil_iff.mpr fun c hc => by simp [hs c hc]

/-- The pattern neither covers nor writes a character of a kind. -/
def Spares (f : Char → Bool) (p : Pattern (List Char)) : Prop :=
  ∀ ⦃before after out rest⦄, p before after = some (out, rest) →
    ∃ covered, covered ≠ [] ∧ after = covered ++ rest ∧ Free f covered ∧ Free f out

/-- Two texts with the same characters of a kind, in the same order. -/
def SameOf (f : Char → Bool) (s t : List Char) : Prop := t.filter f = s.filter f

theorem partwise_sameOf (f : Char → Bool) : Partwise (SameOf f) where
  refl _ := rfl
  trans hst htu := htu.trans hst
  append ha hb := by
    unfold SameOf at ha hb ⊢
    rw [List.filter_append, List.filter_append, ha, hb]

theorem SameOf.free_iff {f : Char → Bool} {s t : List Char} (h : SameOf f s t) : Free f t ↔ Free f s := by
  have hnil : ∀ u : List Char, Free f u ↔ u.filter f = [] := by
    intro u
    rw [List.filter_eq_nil_iff]
    simp
  rw [hnil, hnil, show t.filter f = s.filter f from h]

theorem SameOf.mono {f g : Char → Bool} {s t : List Char} (h : SameOf f s t) (hfg : ∀ c, f c = false → g c = false) :
    SameOf g s t := by
  have hfilter : ∀ u : List Char, u.filter g = (u.filter f).filter g := by
    intro u
    rw [List.filter_filter]
    refine List.filter_congr fun c _ => ?_
    cases hf : f c with
    | true => rw [Bool.and_true]
    | false => rw [hfg c hf, Bool.and_false]
  unfold SameOf
  rw [hfilter t, hfilter s, show t.filter f = s.filter f from h]

theorem Spares.keeps {f : Char → Bool} {p : Pattern (List Char)} (hp : Spares f p) : Keeps (SameOf f) p := by
  intro before after out rest h
  obtain ⟨covered, hne, hsplit, hcovered, hout⟩ := hp h
  exact ⟨covered, hne, hsplit, hout.filter.trans hcovered.filter.symm⟩

/-! ## Characters that are covered and written -/

/-- The pattern covers and writes characters of a kind, and blanks: it passes over any, and writes those that it
has found there. -/
def Within (g : Char → Bool) (p : Pattern (List Char)) : Prop :=
  ∀ ⦃before after out rest⦄, p before after = some (out, rest) →
    ∃ covered, covered ≠ [] ∧ out ≠ [] ∧ after = covered ++ rest ∧
      (∀ c ∈ covered, g c = true ∨ isBlank c = true) ∧ ∀ c ∈ out, g c = true ∨ isBlank c = true ∧ c ∈ covered

section Within

variable {f g : Char → Bool} {p : Pattern (List Char)}

/-- Characters of no other kind are covered or written. -/
theorem Within.spares (hp : Within g p) (hf : ∀ c, f c = true → g c = false ∧ isBlank c = false) : Spares f p := by
  have hfree : ∀ {s : List Char}, (∀ c ∈ s, g c = true ∨ isBlank c = true) → Free f s := fun hs =>
    free_of_kind (g := fun c => g c || isBlank c) (fun c hc => Bool.or_eq_false_iff.mpr (hf c hc))
      fun c hc => Bool.or_eq_true_iff.mpr (hs c hc)
  intro before after out rest h
  obtain ⟨covered, hne, -, hsplit, hcovered, hwritten⟩ := hp h
  exact ⟨covered, hne, hsplit, hfree hcovered, hfree fun c hc => (hwritten c hc).imp_right And.left⟩

end Within

/-- A character that operands are made of, in the notation and in expressions. -/
def isTermChar (c : Char) : Bool :=
  isOperandChar c || isDecimal c || isSmall (fold c) || ":@()+-*/,\" ".toList.contains c

/-- A text of such characters. -/
abbrev IsTermText (s : List Char) : Prop := ∀ c ∈ s, isTermChar c = true

section Terms

variable {s t : List Char}

theorem IsTermText.append (hs : IsTermText s) (ht : IsTermText t) : IsTermText (s ++ t) :=
  List.forall_mem_append.mpr ⟨hs, ht⟩

theorem IsTermText.cons {c : Char} (hc : isTermChar c = true) (hs : IsTermText s) : IsTermText (c :: s) :=
  List.forall_mem_cons.mpr ⟨hc, hs⟩

theorem isTermChar_of_isOperandChar {c : Char} (hc : isOperandChar c = true) : isTermChar c = true := by
  rw [isTermChar, hc, Bool.true_or, Bool.true_or, Bool.true_or]

theorem isTermChar_of_isDecimal {c : Char} (hc : isDecimal c = true) : isTermChar c = true := by
  rw [isTermChar, hc, Bool.or_true, Bool.true_or, Bool.true_or]

theorem isTermText_decimals (hs : ∀ c ∈ s, isDecimal c = true) : IsTermText s := fun c hc =>
  isTermChar_of_isDecimal (hs c hc)

theorem isTermText_operand (hs : IsRun isOperandChar s) : IsTermText s := fun c hc =>
  isTermChar_of_isOperandChar (hs.all c hc)

theorem isTermText_name (hs : ∀ c ∈ s, isNameChar c = true) : IsTermText s := fun c hc =>
  isTermChar_of_isOperandChar (isOperandChar_of_isNameChar (hs c hc))

theorem isTermText_digits (hs : ∀ c ∈ s, isDigit c = true) : IsTermText s :=
  isTermText_decimals fun c hc => isDecimal_of_isDigit (hs c hc)

theorem isTermText_number (hs : ∀ c ∈ s, isNumberChar c = true) : IsTermText s := by
  have hsigns : ∀ c ∈ ".eE+-".toList, isTermChar c = true := by decide
  intro c hc
  have hchar := hs c hc
  rw [isNumberChar, Bool.or_eq_true, List.contains_iff_mem] at hchar
  rcases hchar with hdecimal | hsign
  · exact isTermChar_of_isDecimal hdecimal
  · exact hsigns c hsign

theorem isTermText_keyword {v word : List Char} (hword : IsKeyword word) (hv : v.map fold = word) :
    IsTermText v := by
  intro c hc
  have hsmall : isSmall (fold c) = true := hword.small _ (hv ▸ List.mem_map_of_mem hc)
  rw [isTermChar, hsmall, Bool.or_true, Bool.true_or]

theorem isTermText_showInt (n : Int) : IsTermText (showInt n) := by
  intro c hc
  cases hdigit : isDigit c with
  | true => exact isTermChar_of_isDecimal (isDecimal_of_isDigit hdigit)
  | false =>
    obtain rfl : c = '-' := by_contra fun hminus => not_mem_showInt hdigit hminus n hc
    decide

theorem isTermText_numericCall {name : String} (hname : IsTermText name.toList) (args : List Int) :
    IsTermText (numericCall name args) := by
  have hargs : IsTermText (List.intercalate [',', ' '] (args.map showInt)) := by
    intro c hc
    have hcomma : IsTermText [',', ' '] := by decide
    rcases mem_intercalate hc with hc | ⟨part, hpart, hc⟩
    · exact hcomma c hc
    · obtain ⟨n, -, rfl⟩ := List.mem_map.mp hpart
      exact isTermText_showInt n c hc
  exact ((hname.append (by decide)).append hargs).append (by decide)

theorem isTermText_inQuotes (hs : IsTermText s) : IsTermText (inQuotes s) :=
  (IsTermText.append (by decide) hs).append (by decide)

theorem isTermText_decimal (hs : IsRun isDecimalChar s) : IsTermText s := by
  intro c hc
  have hchar := hs.all c hc
  rw [isDecimalChar, Bool.or_eq_true, beq_iff_eq] at hchar
  rcases hchar with hdigit | rfl
  · exact isTermChar_of_isDecimal (isDecimal_of_isDigit hdigit)
  · decide

theorem isTermText_symbol {u : MeasureUnit} (hu : u ∈ MeasureUnit.table) : IsTermText u.symbol.toList :=
  isTermText_name fun c hc => isNameChar_of_isLetter ((isLetter_of_mem_symbol u hu).2 c hc)

theorem isTermText_unitCall {u : MeasureUnit} (hu : u ∈ MeasureUnit.table) : IsTermText (unitCall u.symbol.toList) :=
  (IsTermText.append (by decide) (isTermText_inQuotes (isTermText_symbol hu))).append (by decide)

end Terms

/-! ## The rules behind those for percentages -/

/-- A stretch of the characters of operands, without blanks in it, for another one. -/
theorem within_of_terms {covered out : List Char} (hcovered : IsTermText covered) (hout : IsTermText out) :
    (∀ c ∈ covered, isTermChar c = true ∨ isBlank c = true) ∧
      ∀ c ∈ out, isTermChar c = true ∨ isBlank c = true ∧ c ∈ covered :=
  ⟨fun c hc => .inl (hcovered c hc), fun c hc => .inl (hout c hc)⟩

theorem ratio_within : Within isTermChar ratio := by
  intro before after out rest h
  obtain ⟨a, b, ha, hb, rfl, -, -, rfl⟩ := covered_ratio h
  have hfirst := isTermText_decimals ha.all
  have hsecond := isTermText_decimals hb.all
  refine ⟨a ++ ':' :: b, by simp, by simp, by simp, within_of_terms (hfirst.append (.cons (by decide) hsecond)) ?_⟩
  exact (((IsTermText.append (by decide) hfirst).append (by decide)).append hsecond).append (by decide)

theorem quotedDecimal_within {colons lead tail : List Char} (hne : colons ≠ []) (hcolons : IsTermText colons)
    (hlead : IsTermText lead) (htail : IsTermText tail) :
    Within isTermChar (quotedDecimal colons lead tail) := by
  intro before after out rest h
  obtain ⟨⟨d, u⟩, hread, hpair⟩ := Option.map_eq_some_iff.mp h
  cases hpair
  obtain ⟨hd, rfl⟩ := covered_colonDecimal hread
  have hchars := isTermText_decimal hd
  refine ⟨colons ++ d, by simp [hne], by simp [inQuotes], by simp, within_of_terms (hcolons.append hchars) ?_⟩
  exact (hlead.append (isTermText_inQuotes hchars)).append htail

theorem exactDecimal_within : Within isTermChar exactDecimal :=
  exactDecimal_eq ▸ quotedDecimal_within (by decide) (by decide) (by decide) (by decide)

theorem nearDecimal_within : Within isTermChar nearDecimal :=
  nearDecimal_eq ▸ quotedDecimal_within (by decide) (by decide) (by decide) (by decide)

theorem clockWord_within {word text : List Char} (hword : IsKeyword word) (hne : text ≠ []) (htext : IsTermText text) :
    Within isTermChar (clockWord word text) := by
  intro before after out rest h
  obtain ⟨v, hv, rfl, -, -, rfl⟩ := covered_clockWord hword h
  refine ⟨v, ?_, hne, rfl, within_of_terms (isTermText_keyword hword hv) htext⟩
  rintro rfl
  exact hword.nonempty hv.symm

theorem span_within {w : SpanWords} (hw : w ∈ spanTable) : Within isTermChar (span w) := by
  intro before after out rest h
  obtain ⟨count, blanks, v, hcount, -, hblanks, ⟨k, hk, hv⟩, rfl, -, -, rfl⟩ := covered_span hw h
  have hnames : ∀ w ∈ spanTable, IsTermText w.constructor.toList := by decide
  have hchars : IsTermText count := by
    intro c hc
    rcases hcount.forall_mem c hc with hdecimal | rfl
    · exact isTermChar_of_isDecimal hdecimal
    · decide
  have hword := isTermText_keyword (isKeyword_words.2.2 w hw k hk) hv
  refine ⟨count ++ (blanks ++ v), by simp [hcount.ne_nil], by simp, by simp, ?_, fun c hc => .inl ?_⟩
  · exact List.forall_mem_append.mpr ⟨fun c hc => .inl (hchars c hc),
      List.forall_mem_append.mpr ⟨fun c hc => .inr (hblanks c hc), fun c hc => .inl (hword c hc)⟩⟩
  · exact (((hnames w hw).append (by decide)).append hchars).append (by decide) c hc

theorem quantity_within : Within isTermChar quantity := by
  intro before after out rest h
  obtain ⟨number, blanks, u, hu, hnumber, hblanks, rfl, hout⟩ := covered_quantity h
  have hchars := isTermText_number hnumber.all
  have hcovered : ∀ c ∈ number ++ (blanks ++ u.symbol.toList), isTermChar c = true ∨ isBlank c = true :=
    List.forall_mem_append.mpr ⟨fun c hc => .inl (hchars c hc),
      List.forall_mem_append.mpr ⟨fun c hc => .inr (hblanks c hc), fun c hc => .inl (isTermText_symbol hu c hc)⟩⟩
  refine ⟨number ++ (blanks ++ u.symbol.toList), by simp [hnumber.nonempty], ?_, by simp, hcovered, ?_⟩
  · rcases hout with rfl | rfl
    · simp [hnumber.nonempty]
    · simp
  · rcases hout with rfl | rfl
    · exact fun c hc => (hcovered c hc).imp_right fun hblank => ⟨hblank, hc⟩
    · have hleft : IsTermText (['('] ++ number ++ [' ', '*', ' ']) :=
        (IsTermText.append (by decide) hchars).append (by decide)
      exact fun c hc => .inl ((hleft.append (isTermText_unitCall hu)).append (by decide) c hc)

theorem bareUnit_within : Within isTermChar bareUnit := by
  intro before after out rest h
  obtain ⟨u, hu, rfl, sign, hsign, hout⟩ := covered_bareUnit h
  have hsigns : IsTermText "* ".toList := by decide
  have hne := (isLetter_of_mem_symbol u hu).1
  have hcall : unitCall u.symbol.toList ≠ [] := List.cons_ne_nil 'u' _
  refine ⟨u.symbol.toList, hne, ?_, rfl, within_of_terms (isTermText_symbol hu) ?_⟩
  · rcases hout with rfl | rfl
    · exact hne
    · exact List.append_ne_nil_of_right_ne_nil sign hcall
  · rcases hout with rfl | rfl
    · exact isTermText_symbol hu
    · exact IsTermText.append (fun c hc => hsigns c (hsign c hc)) (isTermText_unitCall hu)

theorem stackElement_within : Within isTermChar stackElement := by
  intro before after out rest h
  obtain ⟨digits, hdigits, rfl, rfl⟩ := covered_stackElement h
  refine ⟨'@' :: digits, by simp, by simp, rfl,
    within_of_terms (.cons (by decide) (isTermText_decimals hdigits.all)) ?_⟩
  exact (IsTermText.append (by decide) (isTermText_showInt _)).append (by decide)

theorem wholeStack_within : Within isTermChar wholeStack := by
  intro before after out rest h
  obtain ⟨rfl, rfl⟩ := covered_wholeStack h
  exact ⟨['@', '@'], by simp, by decide, rfl, within_of_terms (by decide) (by decide)⟩

theorem lastAnswer_within : Within isTermChar lastAnswer := by
  intro before after out rest h
  obtain ⟨rfl, rfl⟩ := covered_lastAnswer h
  exact ⟨['@'], by simp, by decide, rfl, within_of_terms (by decide) (by decide)⟩

/-- A character of an operand, or the mark of a percentage. -/
def isPercentChar (c : Char) : Bool := isTermChar c || c == '%'

theorem LooksFor.within {signs : List Char} {p : Pattern (List Char)} (hp : LooksFor signs p)
    (hsigns : IsTermText signs) : Within isPercentChar p := by
  have hterm : ∀ {s}, IsTermText s → ∀ c ∈ s, isPercentChar c = true := fun hs c hc => by
    rw [isPercentChar, hs c hc, Bool.true_or]
  intro before after out rest h
  obtain ⟨sign, operand, hread, lead, hlead, rfl⟩ := hp.out h
  obtain ⟨hsign, hoperand, blanks, hblanks, rfl⟩ := percentage?_eq_some_iff.mp hread
  have hleads : IsTermText leadChars := by decide
  have hchars := isTermText_operand hoperand
  refine ⟨sign :: (blanks ++ (operand ++ ['%'])), by simp, by simp, by simp, ?_, fun c hc => .inl ?_⟩
  · refine List.forall_mem_cons.mpr ⟨.inl (hterm hsigns sign hsign), List.forall_mem_append.mpr
      ⟨fun c hc => .inr (hblanks c hc), List.forall_mem_append.mpr ⟨fun c hc => .inl (hterm hchars c hc), ?_⟩⟩⟩
    exact List.forall_mem_singleton.mpr (.inl (by decide))
  · have hlead' : IsTermText lead := fun c hc => hleads c (hlead c hc)
    exact hterm ((hlead'.append hchars).append (by decide)) c hc

/-- The patterns of the rules behind those for percentages. -/
def operandPatterns (o : Options) : List (Pattern (List Char)) :=
  [ratio, exactDecimal, nearDecimal, clockWord "today".toList (dateCall o.now),
    clockWord "now".toList (dateTimeCall o.now)] ++ spanTable.map span ++
  [quantity, bareUnit, stackElement, wholeStack, lastAnswer]

theorem operandPatterns_within {o : Options} {p : Pattern (List Char)} (hp : p ∈ operandPatterns o) :
    Within isTermChar p := by
  simp only [operandPatterns, List.mem_append, List.mem_cons, List.not_mem_nil, or_false] at hp
  rcases hp with ((rfl | rfl | rfl | rfl | rfl) | hspan) | rfl | rfl | rfl | rfl | rfl
  · exact ratio_within
  · exact exactDecimal_within
  · exact nearDecimal_within
  · exact clockWord_within isKeyword_words.1 (by simp [dateCall, numericCall])
      (isTermText_numericCall (by decide) _)
  · exact clockWord_within isKeyword_words.2.1 (by simp [dateTimeCall, numericCall])
      (isTermText_numericCall (by decide) _)
  · obtain ⟨w, hw, rfl⟩ := List.mem_map.mp hspan
    exact span_within hw
  · exact quantity_within
  · exact bareUnit_within
  · exact stackElement_within
  · exact wholeStack_within
  · exact lastAnswer_within

/-- A mark of an operator is no character of an operand. -/
theorem isTermChar_of_isOperatorMark {c : Char} (hc : isOperatorMark c = true) :
    isTermChar c = false ∧ isBlank c = false := by
  have hmarks : ∀ m ∈ operatorMarks, isTermChar m = false ∧ isBlank m = false := by decide +kernel
  exact hmarks c (List.contains_iff_mem.mp hc)

/-! ## Whole rules -/

/-- A rule that spares the characters of a kind in every text. -/
def Rule.SparesAll (f : Char → Bool) (r : Rule) : Prop := ∀ o s, SameOf f s (r.apply o s)

theorem Rule.sparesAll_ofPatterns {f : Char → Bool} {name : String} {patterns : Options → List (Pattern (List Char))}
    (h : ∀ o, ∀ p ∈ patterns o, Spares f p) : (Rule.ofPatterns name patterns).SparesAll f :=
  fun o s => (partwise_sameOf f).substituteAll (fun p hp => (h o p hp).keeps) s

theorem sameOf_foldl {f : Char → Bool} {rules : List Rule} (h : ∀ r ∈ rules, r.SparesAll f) (o : Options)
    (s : List Char) : SameOf f s (rules.foldl (fun s r => r.apply o s) s) := by
  induction rules generalizing s with
  | nil => rfl
  | cons r rules ih =>
    exact (partwise_sameOf f).trans (h r List.mem_cons_self o s)
      (ih (fun q hq => h q (List.mem_cons_of_mem r hq)) _)

/-- Whatever the patterns of the rules behind those for percentages keep, the rules keep. -/
theorem operandRules_keep {R : List Char → List Char → Prop} (hR : Partwise R) {o : Options}
    (h : ∀ p ∈ operandPatterns o, Keeps R p) {r : Rule} (hr : r ∈ Rule.all.drop 5) (s : List Char) :
    R s (r.apply o s) := by
  simp only [operandPatterns, List.forall_mem_append, List.forall_mem_cons] at h
  obtain ⟨⟨⟨hratio, hexact, hnear, htoday, hnow, -⟩, hspan⟩, hquantity, hunit, helement, hstack, hanswer, -⟩ := h
  simp only [Rule.all, List.drop_succ_cons, List.drop_zero, List.mem_cons, List.not_mem_nil, or_false] at hr
  rcases hr with rfl | rfl | rfl | rfl | rfl | rfl
  · exact hR.substituteAll (by simpa using hratio) s
  · exact hR.trans (hexact.mapPlain hR s) (hnear.mapPlain hR _)
  · exact hR.substituteAll (by simpa using ⟨htoday, hnow⟩) s
  · exact hR.substituteAll hspan s
  · unfold Rule.apply units
    dsimp only
    split
    · exact hR.refl s
    · exact hR.trans (hquantity.mapPlain hR s) (hunit.mapPlain hR _)
  · exact hR.substituteAll (by simpa using ⟨helement, hstack, hanswer⟩) s

/-- The patterns of the notation. -/
def patterns (o : Options) : List (Pattern (List Char)) :=
  [factorial, signs, roots, percentOf, percentStep] ++ operandPatterns o

section Rules

variable {R : List Char → List Char → Prop} (hR : Partwise R) {o : Options} (h : ∀ p ∈ patterns o, Keeps R p)

include hR h

theorem rules_keep {r : Rule} (hr : r ∈ Rule.all) (s : List Char) : R s (r.apply o s) := by
  simp only [patterns, List.forall_mem_append, List.forall_mem_cons] at h
  obtain ⟨⟨hfactorial, hsigns, hroots, hof, hstep, -⟩, hoperands⟩ := h
  rw [← List.take_append_drop 5 Rule.all, List.mem_append] at hr
  rcases hr with hr | hr
  · simp only [Rule.all, List.take_succ_cons, List.take_zero, List.mem_cons, List.not_mem_nil, or_false] at hr
    rcases hr with rfl | rfl | rfl | rfl | rfl
    · exact hR.substituteAll (by simpa using hfactorial) s
    · exact hR.substituteAll (by simpa using hsigns) s
    · exact hR.substituteAll (by simpa using hroots) s
    · exact hR.substituteAll (by simpa using hof) s
    · exact hR.substituteAll (by simpa using hstep) s
  · exact operandRules_keep hR hoperands hr s

/-- Whatever the patterns keep, a row of rules keeps. -/
theorem foldl_keeps {rules : List Rule} (hrules : rules ⊆ Rule.all) (s : List Char) :
    R s (rules.foldl (fun s r => r.apply o s) s) := by
  induction rules generalizing s with
  | nil => exact hR.refl s
  | cons r rules ih =>
    obtain ⟨hr, hrest⟩ := List.cons_subset.mp hrules
    exact hR.trans (rules_keep hR h hr s) (ih hrest _)

end Rules

/-- The rules behind those for percentages do nothing to the marks of operators. -/
theorem operandRules_spare {r : Rule} (hr : r ∈ Rule.all.drop 5) : r.SparesAll isOperatorMark := fun _ s =>
  operandRules_keep (partwise_sameOf isOperatorMark)
    (fun _ hp => ((operandPatterns_within hp).spares fun _ => isTermChar_of_isOperatorMark).keeps) hr s

end Worksheet.Notation
