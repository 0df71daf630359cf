import Worksheet.Proofs.Notation.Literals
import Worksheet.Proofs.Text.Keyword
import Worksheet.Proofs.Text.Pattern

/-!
# Texts that the notation leaves alone

A rule changes a text only where it finds something to replace, and each rule looks for something that
can be told from the characters of the text or from its words.

* **`expandStages`** — the rules as stages of one function; `expand_eq_expandStages`.
* **`Needs`** — a pattern that fits only where there is a character of a kind; `Needs.substituteAll`.
* **`Untouched`** — texts without anything of what the rules for the clock, for durations and for units
  look for; the calls that the notation expands to are of this kind (`untouched_call`).
-/

namespace Worksheet.Notation

open Text

/-! ## The rules as stages -/

/-- The rules for operators. -/
def operatorStage (s : List Char) : List Char :=
  substituteAll [percentStep] (substituteAll [percentOf] (substituteAll [roots]
    (substituteAll [signs] (substituteAll [factorial] s))))

/-- The rule for the clock. -/
def clockStage (now : DateTime) : List Char → List Char :=
  substituteAll [clockWord "today".toList (dateCall now), clockWord "now".toList (dateTimeCall now)]

/-- The rule for durations. -/
def spanStage : List Char → List Char := substituteAll (spanTable.map span)

/-- The rule for references to the stack. -/
def stackStage : List Char → List Char := substituteAll [stackElement, wholeStack, lastAnswer]

/-- The rules behind the one for decimals, for an expression that is no function. -/
def lateStages (o : Options) (s : List Char) : List Char :=
  stackStage (unitsWithin false o (spanStage (clockStage o.now s)))

/-- The rules, for an expression that is no function. -/
def expandStages (o : Options) (s : List Char) : List Char :=
  lateStages o (decimals (substituteAll [ratio] (operatorStage s)))

theorem expand_eq_expandStages (o : Options) {s : List Char} (htrim : trim s = s)
    (hmark : s.head? ≠ some functionMark) : expand o s = expandStages o s := by
  have hflag : (s.head? == some functionMark) = false := beq_false_of_ne hmark
  rw [expand_eq_expandWithin, htrim, hflag]
  rfl

theorem local_lateStages (o : Options) : Local (lateStages o) := by
  have hclock : Local (clockStage o.now) := local_substituteAll fun p hp => (clock_patterns o hp).1
  have hspan : Local spanStage := local_substituteAll fun p hp => (span_patterns hp).1
  have hstack : Local stackStage := local_substituteAll (by
    simpa using ⟨stackElement_quoteless, wholeStack_quoteless, lastAnswer_quoteless⟩)
  exact hstack.comp ((local_unitsWithin false o).comp (hspan.comp hclock))

/-! ## What a pattern needs -/

/-- Where the pattern fits there is a character of a kind. -/
def Needs (f : Char → Bool) (p : Pattern (List Char)) : Prop :=
  ∀ ⦃before after m⦄, p before after = some m → ∃ c ∈ after, f c = true

section Needs

variable {f : Char → Bool} {s : List Char}

theorem Needs.mono {p : Pattern (List Char)} {g : Char → Bool} (hp : Needs f p)
    (hfg : ∀ c, f c = true → g c = true) : Needs g p := by
  intro before after m h
  obtain ⟨c, hc, hf⟩ := hp h
  exact ⟨c, hc, hfg c hf⟩

theorem Needs.substitute {p : Pattern (List Char)} (hp : Needs f p) (hs : ∀ c ∈ s, f c = false) :
    p.substitute s = s := by
  refine Pattern.substitute_eq_self_of_none fun pre c r hsplit => ?_
  cases hmatch : p pre.reverse (c :: r) with
  | none => rfl
  | some m =>
    obtain ⟨d, hd, hf⟩ := hp hmatch
    have hmem : d ∈ s := by
      rw [hsplit]
      exact List.mem_append_right pre hd
    rw [hs d hmem] at hf
    cases hf

theorem foldl_substitute_eq_self {ps : List (Pattern (List Char))}
    (h : ∀ p ∈ ps, p.substitute s = s) : ps.foldl (fun s p => p.substitute s) s = s := by
  induction ps with
  | nil => rfl
  | cons p ps ih =>
    rw [List.foldl_cons, h p List.mem_cons_self]
    exact ih fun q hq => h q (List.mem_cons_of_mem p hq)

theorem substituteAll_eq_self {ps : List (Pattern (List Char))} (hps : ∀ p ∈ ps, Needs f p)
    (hs : ∀ c ∈ s, f c = false) : substituteAll ps s = s :=
  mapPlain_eq_self _ (fun _ ht => foldl_substitute_eq_self fun p hp => (hps p hp).substitute ht) hs

end Needs

/-! ## Marks -/

theorem isOperandChar_of_isNameChar {c : Char} (h : isNameChar c = true) : isOperandChar c = true := by
  rw [isOperandChar, h, Bool.true_or]

/-- The signs that the rules for operators look for. -/
def operatorMarks : List Char := "!÷×⋅·⁻√∛∜%⁰¹²³⁴⁵⁶⁷⁸⁹".toList

/-- A sign that the rules for operators look for. -/
def isOperatorMark (c : Char) : Bool := operatorMarks.contains c

/-- The signs that the rules in front of those for percentages look for. -/
def signMarks : List Char := "!÷×⋅·⁻√∛∜⁰¹²³⁴⁵⁶⁷⁸⁹".toList

/-- A sign that the rules in front of those for percentages look for. -/
def isSignMark (c : Char) : Bool := signMarks.contains c

theorem isOperatorMark_of_isSignMark {c : Char} (hc : isSignMark c = true) : isOperatorMark c = true := by
  have hall : ∀ d ∈ signMarks, isOperatorMark d = true := by decide
  exact hall c (List.contains_iff_mem.mp hc)

theorem needs_of_mem {p : Pattern (List Char)} {c : Char}
    (h : ∀ ⦃before after m⦄, p before after = some m → c ∈ after) : Needs (· == c) p :=
  fun _ _ _ hm => ⟨c, h hm, beq_self_eq_true c⟩

theorem factorial_needs : Needs isSignMark factorial := by
  refine (needs_of_mem (c := '!') ?_).mono fun c hc => by
    rw [beq_iff_eq.mp hc]
    decide
  intro before after m h
  have hsub : ∀ {r}, after.dropWhile isNameChar = '!' :: r → '!' ∈ after := fun hr =>
    List.dropWhile_subset isNameChar (by rw [hr]; exact List.mem_cons_self)
  unfold factorial at h
  dsimp only at h
  split at h
  · next hr => exact hsub hr
  · next hr => exact hsub hr
  · cases h

theorem signs_needs : Needs isSignMark signs := by
  intro before after m h
  unfold signs at h
  split at h
  · cases h
  · next c r =>
    refine ⟨c, List.mem_cons_self, ?_⟩
    by_contra hmark
    have hne : ∀ d ∈ signMarks, c ≠ d := by
      rintro d hd rfl
      exact hmark (List.contains_iff_mem.mpr hd)
    have hnone : superscriptDigit? c = none := by
      unfold superscriptDigit?
      split <;> first | rfl | exact absurd rfl (hne _ (by decide))
    simp [hne '÷' (by decide), hne '×' (by decide), hne '⋅' (by decide), hne '·' (by decide),
      hne '⁻' (by decide), superscriptDigits, hnone] at h

theorem roots_needs : Needs isSignMark roots := by
  intro before after m h
  unfold roots at h
  split at h
  · cases h
  · next c r =>
    refine ⟨c, List.mem_cons_self, ?_⟩
    split at h
    · next hdegree _ =>
      unfold rootDegree? at hdegree
      split at hdegree
      · rfl
      · rfl
      · rfl
      · cases hdegree
    · cases h

theorem mem_of_percentage? {signs s : List Char} {m : Char × List Char × List Char}
    (h : percentage? signs s = some m) : '%' ∈ s := by
  unfold percentage? at h
  split at h
  · cases h
  · next c r =>
    dsimp only at h
    split at h
    · next hrest =>
      refine List.mem_cons_of_mem c (List.dropWhile_subset isBlank ?_)
      refine List.dropWhile_subset isOperandChar ?_
      rw [show trimStart r = r.dropWhile isBlank from rfl] at hrest
      rw [hrest]
      exact List.mem_cons_self
    · cases h

theorem percentages_need {p : Pattern (List Char)} (hp : p ∈ [percentOf, percentStep]) :
    Needs isOperatorMark p := by
  refine (needs_of_mem (c := '%') ?_).mono fun c hc => by
    rw [beq_iff_eq.mp hc]
    decide
  intro before after m h
  simp only [List.mem_cons, List.not_mem_nil, or_false] at hp
  rcases hp with rfl | rfl
  · obtain ⟨m', hm', -⟩ := Option.map_eq_some_iff.mp h
    exact mem_of_percentage? hm'
  · obtain ⟨m', hm', -⟩ := Option.map_eq_some_iff.mp h
    exact mem_of_percentage? hm'

/-- A factorial aside, a text needs a sign to be changed by the rules for operators. -/
theorem operatorStage_of_factorial {s t : List Char} (hs : substituteAll [factorial] s = t)
    (ht : ∀ c ∈ t, isOperatorMark c = false) : operatorStage s = t := by
  have hone : ∀ p, Needs isOperatorMark p → substituteAll [p] t = t := fun p hp =>
    substituteAll_eq_self (List.forall_mem_singleton.mpr hp) ht
  have hsign : ∀ p, Needs isSignMark p → substituteAll [p] t = t := fun p hp =>
    hone p (hp.mono fun _ => isOperatorMark_of_isSignMark)
  unfold operatorStage
  rw [hs, hsign signs signs_needs, hsign roots roots_needs,
    hone percentOf (percentages_need (by simp)), hone percentStep (percentages_need (by simp))]

theorem operatorStage_eq_self {s : List Char} (hs : ∀ c ∈ s, isOperatorMark c = false) :
    operatorStage s = s := by
  have hfactorial := factorial_needs.mono fun _ => isOperatorMark_of_isSignMark
  exact operatorStage_of_factorial (substituteAll_eq_self (List.forall_mem_singleton.mpr hfactorial) hs) hs

/-- Without other signs the rules for percentages are left. -/
theorem operatorStage_of_signMarks {s : List Char} (hs : ∀ c ∈ s, isSignMark c = false) :
    operatorStage s = substituteAll [percentStep] (substituteAll [percentOf] s) := by
  have hone : ∀ p, Needs isSignMark p → substituteAll [p] s = s := fun p hp =>
    substituteAll_eq_self (List.forall_mem_singleton.mpr hp) hs
  unfold operatorStage
  rw [hone factorial factorial_needs, hone signs signs_needs, hone roots roots_needs]

theorem ratio_needs : Needs (· == ':') ratio := by
  refine needs_of_mem ?_
  rintro before after ⟨out, rest⟩ h
  obtain ⟨a, b, r, hfirst, -, -⟩ := ratio_eq_some h
  rw [(eq_append_of_digits? hfirst).1]
  simp

theorem mem_of_colonDecimal? {colons s : List Char} {m : List Char × List Char}
    (h : colonDecimal? (':' :: colons) s = some m) : ':' ∈ s := by
  obtain ⟨r, hr, -⟩ := Option.bind_eq_some_iff.mp h
  rw [strip?_eq_some_iff.mp hr]
  exact List.mem_cons_self

theorem quotedDecimal_needs (colons lead tail : List Char) :
    Needs (· == ':') (quotedDecimal (':' :: colons) lead tail) := by
  refine needs_of_mem fun before after m h => ?_
  obtain ⟨m', hm', -⟩ := Option.map_eq_some_iff.mp h
  exact mem_of_colonDecimal? hm'

theorem exactDecimal_needs : Needs (· == ':') exactDecimal := quotedDecimal_needs ..

theorem nearDecimal_needs : Needs (· == ':') nearDecimal := quotedDecimal_needs ..

theorem mapPlain_of_colon {p : Pattern (List Char)} (hp : Needs (· == ':') p) {s : List Char}
    (hs : ':' ∉ s) : mapPlain p.substitute s = s := by
  refine mapPlain_eq_self _ (fun _ ht => hp.substitute ht) fun c hc => beq_false_of_ne ?_
  rintro rfl
  exact hs hc

theorem substituteAll_ratio {s : List Char} (hs : ':' ∉ s) : substituteAll [ratio] s = s :=
  mapPlain_of_colon ratio_needs hs

theorem decimals_eq_self {s : List Char} (hs : ':' ∉ s) : decimals s = s := by
  unfold decimals
  rw [mapPlain_of_colon exactDecimal_needs hs, mapPlain_of_colon nearDecimal_needs hs]

theorem stackPatterns_need {p : Pattern (List Char)}
    (hp : p ∈ [stackElement, wholeStack, lastAnswer]) : Needs (· == '@') p := by
  refine needs_of_mem fun before after m h => ?_
  simp only [List.mem_cons, List.not_mem_nil, or_false] at hp
  rcases hp with rfl | rfl | rfl
  · unfold stackElement at h
    split at h
    · exact List.mem_cons_self
    · cases h
  · unfold wholeStack at h
    split at h
    · exact List.mem_cons_self
    · cases h
  · unfold lastAnswer at h
    split at h
    · exact List.mem_cons_self
    · cases h

theorem stackStage_eq_self {s : List Char} (hs : '@' ∉ s) : stackStage s = s := by
  refine substituteAll_eq_self (fun p hp => stackPatterns_need hp) fun c hc => beq_false_of_ne ?_
  rintro rfl
  exact hs hc

/-! ## Words -/

/-- The words of the clock and of durations are written in small letters. -/
theorem isKeyword_words : IsKeyword "today".toList ∧ IsKeyword "now".toList ∧
    ∀ w ∈ spanTable, ∀ k ∈ w.words, IsKeyword k.toList := by
  decide

theorem isLetter_of_mem_symbol : ∀ u ∈ MeasureUnit.table,
    u.symbol.toList ≠ [] ∧ ∀ c ∈ u.symbol.toList, isLetter c = true := by
  have hsymbols : ∀ w ∈ MeasureUnit.table.map fun u => u.symbol.toList,
      w ≠ [] ∧ ∀ c ∈ w, isLetter c = true := by
    decide
  exact fun u hu => hsymbols _ (List.mem_map_of_mem hu)

/-- Where a word begins, nothing in front goes on into it. -/
theorem edge_of_wordStart {pre r : List Char} {c : Char} (hstart : wordStart pre.reverse (c :: r) = true)
    (hc : isWordChar c = true) : ∀ d ∈ pre.getLast?, isWordChar d = false := by
  intro d hd
  rw [← List.head?_reverse] at hd
  simpa [wordStart, wordEdge, Option.mem_def.mp hd, hc] using hstart

/-- A word of the clock is a whole word. -/
theorem exists_of_clockWord {word out pre after : List Char} (hword : IsKeyword word)
    {m : List Char × List Char} (h : clockWord word out pre.reverse after = some m) :
    ∃ v ∈ words (pre ++ after), v.map fold = word := by
  unfold clockWord at h
  split at h
  · next hstart =>
    split at h
    · next rest hstrip =>
      split at h
      · -- the text that was stripped is the word, between an edge in front of it and one behind
        next hend =>
        obtain ⟨v, rfl, hfold⟩ := (stripKeyword?_eq_some_iff hword.small).mp hstrip
        have hchars : ∀ c ∈ v, isWordChar c = true := by
          intro c hc
          refine isWordChar_of_isSmall_fold (hword.small _ ?_)
          rw [← hfold]
          exact List.mem_map_of_mem hc
        obtain ⟨c, r, rfl⟩ : ∃ c r, v = c :: r := by
          refine List.exists_cons_of_ne_nil ?_
          rintro rfl
          exact hword.nonempty hfold.symm
        refine ⟨c :: r, mem_words ?_ hchars ?_, hfold⟩
        · exact edge_of_wordStart hstart (hchars c List.mem_cons_self)
        · intro d hd
          cases rest with
          | nil => cases hd
          | cons x rest =>
            cases hd
            simpa [wordEnd] using hend
      · cases h
    · cases h
  · cases h

theorem clockWord_substitute_eq_self {word s : List Char} (out : List Char) (hword : IsKeyword word)
    (h : ∀ v ∈ words s, v.map fold ≠ word) : (clockWord word out).substitute s = s := by
  refine Pattern.substitute_eq_self_of_none fun pre c r hsplit => ?_
  cases hmatch : clockWord word out pre.reverse (c :: r) with
  | none => rfl
  | some m =>
    obtain ⟨v, hv, hfold⟩ := exists_of_clockWord hword hmatch
    rw [← hsplit] at hv
    exact absurd hfold (h v hv)

/-- The words of the clock. -/
def clockWords : List (List Char) := ["today".toList, "now".toList]

theorem clockStage_eq_self (now : DateTime) {s : List Char} (hquote : '"' ∉ s)
    (h : ∀ v ∈ words s, v.map fold ∉ clockWords) : clockStage now s = s := by
  have htoday := clockWord_substitute_eq_self (dateCall now) isKeyword_words.1
    fun v hv heq => h v hv (by rw [heq]; decide)
  have hnow := clockWord_substitute_eq_self (dateTimeCall now) isKeyword_words.2.1
    fun v hv heq => h v hv (by rw [heq]; decide)
  unfold clockStage substituteAll
  rw [mapPlain_of_not_mem _ hquote]
  exact foldl_substitute_eq_self (by simpa using ⟨htoday, hnow⟩)

/-- What does not occur in a text is no word of it. -/
theorem not_mem_clockWords {s : List Char} (h : ∀ w ∈ clockWords, ¬ w <:+: s.map fold) :
    ∀ v ∈ words s, v.map fold ∉ clockWords :=
  fun _ hv hmem => h _ hmem ((infix_of_mem_words hv).map fold)

theorem exists_of_digits? {s : List Char} {m : List Char × List Char} (h : digits? s = some m) :
    ∃ c r, s = c :: r ∧ isDecimal c = true := by
  obtain ⟨-, hne⟩ := eq_append_of_digits? h
  cases s with
  | nil => cases hne
  | cons c r =>
    refine ⟨c, r, rfl, ?_⟩
    by_contra hc
    rw [List.takeWhile_cons_of_neg hc] at hne
    cases hne

/-- A duration begins with a digit and holds a word. -/
theorem exists_of_span {w : SpanWords} (hw : w ∈ spanTable) {before after : List Char}
    {m : List Char × List Char} (h : span w before after = some m) :
    (wordStart before after = true ∧ ∃ c r, after = c :: r ∧ isDecimal c = true) ∧
      ∃ k ∈ w.words, k.toList <:+: after.map fold := by
  unfold span at h
  split at h
  · next hstart =>
    obtain ⟨⟨d, r⟩, hdigits, h⟩ := Option.bind_eq_some_iff.mp h
    refine ⟨⟨hstart, exists_of_digits? hdigits⟩, ?_⟩
    have hwhole := (eq_append_of_digits? hdigits).1
    have hfraction : after = (extend (d, r) fractionPart?).1 ++ (extend (d, r) fractionPart?).2 :=
      eq_append_of_extend hwhole eq_append_of_fractionPart?
    obtain ⟨u, hword, -⟩ := Option.map_eq_some_iff.mp h
    -- with or without a fraction, the count is the beginning of the text
    obtain ⟨count, v, hcount, hv⟩ : ∃ count v, after = count ++ v ∧
        stripWord? w.words (trimStart v) = some u := by
      split at hword
      · exact ⟨_, _, hfraction, hword⟩
      · exact ⟨_, _, hwhole, hword⟩
    obtain ⟨k, hk, hstrip⟩ := List.exists_of_findSome?_eq_some hv
    obtain ⟨rest, hrest, -⟩ := Option.bind_eq_some_iff.mp hstrip
    obtain ⟨a, ha, hfold⟩ :=
      (stripKeyword?_eq_some_iff (isKeyword_words.2.2 w hw k hk).small).mp hrest
    refine ⟨k, hk, ?_⟩
    have hblanks := List.takeWhile_append_dropWhile (p := isBlank) (l := v)
    rw [show v.dropWhile isBlank = a ++ rest from ha] at hblanks
    rw [hcount, ← hblanks, ← hfold]
    simp only [List.map_append]
    rw [← List.append_assoc]
    exact List.infix_append' _ _ _
  · cases h

/-- Durations need a word. -/
theorem spanStage_eq_self {s : List Char} (hquote : '"' ∉ s)
    (h : ∀ w ∈ spanTable, ∀ k ∈ w.words, ¬ k.toList <:+: s.map fold) : spanStage s = s := by
  unfold spanStage substituteAll
  rw [mapPlain_of_not_mem _ hquote]
  refine foldl_substitute_eq_self fun p hp => ?_
  obtain ⟨w, hw, rfl⟩ := List.mem_map.mp hp
  refine Pattern.substitute_eq_self_of_none fun pre c r hsplit => ?_
  cases hmatch : span w pre.reverse (c :: r) with
  | none => rfl
  | some m =>
    obtain ⟨-, k, hk, hinside⟩ := exists_of_span hw hmatch
    refine absurd ?_ (h w hw k hk)
    rw [hsplit, List.map_append]
    exact hinside.trans (List.suffix_append _ _).isInfix

/-- A quantity begins with a digit and holds the symbol of a unit. -/
theorem exists_of_quantity {before after : List Char} {m : List Char × List Char}
    (h : quantity before after = some m) :
    (wordStart before after = true ∧ ∃ c r, after = c :: r ∧ isDecimal c = true) ∧
      ∃ u ∈ MeasureUnit.table, u.symbol.toList <:+: after := by
  obtain ⟨m', hread, -⟩ := Option.map_eq_some_iff.mp h
  unfold quantityLiteral at hread
  split at hread
  · next hstart =>
    obtain ⟨⟨d, r⟩, hdigits, hread⟩ := Option.bind_eq_some_iff.mp hread
    refine ⟨⟨hstart, exists_of_digits? hdigits⟩, ?_⟩
    obtain ⟨⟨symbol, rest⟩, hunit, -⟩ := Option.map_eq_some_iff.mp hread
    have hwhole : after = (d, r).1 ++ (d, r).2 := (eq_append_of_digits? hdigits).1
    have hparts := eq_append_of_extend (eq_append_of_extend hwhole eq_append_of_fractionPart?)
      eq_append_of_exponentPart?
    obtain ⟨hsymbol, u, hu, rfl⟩ := eq_symbol_of_stripUnit? hunit
    refine ⟨u, hu, ?_⟩
    have hblanks := List.takeWhile_append_dropWhile (p := isBlank)
      (l := (extend (extend (d, r) fractionPart?) exponentPart?).2)
    rw [show (extend (extend (d, r) fractionPart?) exponentPart?).2.dropWhile isBlank
      = u.symbol.toList ++ rest from hsymbol] at hblanks
    rw [hparts, ← hblanks, ← List.append_assoc]
    exact List.infix_append' _ _ _
  · cases hread

/-- A unit by itself is a whole word. -/
theorem exists_of_bareUnit {pre after : List Char} {m : List Char × List Char}
    (h : bareUnit pre.reverse after = some m) :
    ∃ u ∈ MeasureUnit.table, u.symbol.toList ∈ words (pre ++ after) := by
  obtain ⟨⟨symbol, rest⟩, hread, -⟩ := Option.map_eq_some_iff.mp h
  unfold unitToken at hread
  split at hread
  · next hstart =>
    obtain ⟨hafter, u, hu, rfl⟩ := eq_symbol_of_stripUnit? hread
    obtain ⟨hne, hletters⟩ := isLetter_of_mem_symbol u hu
    have hword : ∀ c ∈ u.symbol.toList, isWordChar c = true := fun c hc =>
      isWordChar_of_isNameChar (isNameChar_of_isLetter (hletters c hc))
    refine ⟨u, hu, ?_⟩
    rw [hafter]
    refine mem_words ?_ hword ?_
    · obtain ⟨d, t, hd⟩ := List.exists_cons_of_ne_nil hne
      rw [hafter, hd] at hstart
      exact edge_of_wordStart hstart (hword d (by rw [hd]; exact List.mem_cons_self))
    · intro c hc
      have hend := wordEnd_of_stripUnit? hread
      cases rest with
      | nil => cases hc
      | cons d rest =>
        cases hc
        simpa [wordEnd] using hend
  · cases hread

/-! ## Untouched texts -/

/-- A text in which the rules behind the one for decimals find nothing: no word of it is one of the
clock or, if they are looked for, of a unit, and behind a digit that begins a word no letter follows that
could begin such a word. -/
structure Untouched (o : Options) (s : List Char) : Prop where
  quote : '"' ∉ s
  clock : ∀ v ∈ words s, v.map fold ∉ clockWords
  behind : ∀ pre c r, s = pre ++ c :: r → isDecimal c = true →
    (∀ d ∈ pre.getLast?, isWordChar d = false) → ∀ d ∈ r, isSmall (fold d) = false
  unit : o.naturalUnits = true → ∀ u ∈ MeasureUnit.table, u.symbol.toList ∉ words s

section Untouched

variable {o : Options} {s : List Char}

theorem Untouched.clockStage (h : Untouched o s) (now : DateTime) : clockStage now s = s :=
  clockStage_eq_self now h.quote h.clock

/-- Behind a number no letter follows that could begin a word or a symbol. -/
theorem Untouched.not_infix (h : Untouched o s) {pre after w : List Char} (hsplit : s = pre ++ after)
    (hafter : wordStart pre.reverse after = true ∧ ∃ c r, after = c :: r ∧ isDecimal c = true)
    (hne : w ≠ []) (hw : ∀ k ∈ w, isSmall k = true) : ¬ w <:+: after.map fold := by
  rintro hinside
  obtain ⟨hstart, c, r, rfl, hc⟩ := hafter
  have hedge := edge_of_wordStart hstart (isWordChar_of_isDecimal hc)
  obtain ⟨k, w, rfl⟩ := List.exists_cons_of_ne_nil hne
  have hmem : k ∈ (c :: r).map fold := hinside.subset List.mem_cons_self
  obtain ⟨d, hd, rfl⟩ := List.mem_map.mp hmem
  have hsmall := hw _ List.mem_cons_self
  rcases List.mem_cons.mp hd with rfl | hd
  · rw [isSmall_fold_of_isDecimal hc] at hsmall
    cases hsmall
  · rw [h.behind pre c r hsplit hc hedge d hd] at hsmall
    cases hsmall

theorem Untouched.span (h : Untouched o s) {w : SpanWords} (hw : w ∈ spanTable) :
    (span w).substitute s = s := by
  refine Pattern.substitute_eq_self_of_none fun pre c r hsplit => ?_
  cases hmatch : Notation.span w pre.reverse (c :: r) with
  | none => rfl
  | some m =>
    obtain ⟨hdigit, k, hk, hinside⟩ := exists_of_span hw hmatch
    have hkeyword := isKeyword_words.2.2 w hw k hk
    exact absurd hinside (h.not_infix hsplit hdigit hkeyword.nonempty hkeyword.small)

theorem Untouched.spanStage (h : Untouched o s) : spanStage s = s := by
  unfold Notation.spanStage substituteAll
  rw [mapPlain_of_not_mem _ h.quote]
  refine foldl_substitute_eq_self fun p hp => ?_
  obtain ⟨w, hw, rfl⟩ := List.mem_map.mp hp
  exact h.span hw

theorem bareUnit_substitute_eq_self (h : ∀ u ∈ MeasureUnit.table, u.symbol.toList ∉ words s) :
    bareUnit.substitute s = s := by
  refine Pattern.substitute_eq_self_of_none fun pre c r hsplit => ?_
  cases hmatch : bareUnit pre.reverse (c :: r) with
  | none => rfl
  | some m =>
    obtain ⟨u, hu, hmem⟩ := exists_of_bareUnit hmatch
    rw [← hsplit] at hmem
    exact absurd hmem (h u hu)

theorem Untouched.quantity (h : Untouched o s) : quantity.substitute s = s := by
  refine Pattern.substitute_eq_self_of_none fun pre c r hsplit => ?_
  cases hmatch : Notation.quantity pre.reverse (c :: r) with
  | none => rfl
  | some m =>
    obtain ⟨hdigit, u, hu, hinside⟩ := exists_of_quantity hmatch
    obtain ⟨hne, hletters⟩ := isLetter_of_mem_symbol u hu
    have hfold : u.symbol.toList.map fold <:+: (c :: r).map fold := hinside.map fold
    refine absurd hfold (h.not_infix hsplit hdigit (by simpa using hne) ?_)
    intro k hk
    obtain ⟨d, hd, rfl⟩ := List.mem_map.mp hk
    exact isSmall_fold_iff.mpr (Or.inl (hletters d hd))

theorem Untouched.units (h : Untouched o s) (inFunction : Bool) :
    unitsWithin inFunction o s = s := by
  unfold unitsWithin
  split
  · rfl
  · next hlooked =>
    have hnatural : o.naturalUnits = true := by
      simp only [Bool.or_eq_true, Bool.not_eq_eq_eq_not, Bool.not_true, not_or,
        Bool.not_eq_false] at hlooked
      exact hlooked.1
    rw [mapPlain_of_not_mem _ h.quote, h.quantity, mapPlain_of_not_mem _ h.quote,
      bareUnit_substitute_eq_self (h.unit hnatural)]

theorem Untouched.lateStages (h : Untouched o s) (hat : '@' ∉ s) :
    lateStages o s = s := by
  unfold Notation.lateStages
  rw [h.clockStage, h.spanStage, h.units, stackStage_eq_self hat]

end Untouched

/-! ## Calls -/

/-- The functions that the notation calls. -/
def constructorNames : List String :=
  ["date", "datetime", "Fraction", "approximate", "factorial", "unit", "stack_at"] ++
    spanTable.map SpanWords.constructor

section Calls

variable {o : Options}

theorem untouched_of_no_letters {s : List Char} (h : ∀ c ∈ s, isSmall (fold c) = false ∧ c ≠ '"') :
    Untouched o s where
  quote hmem := (h _ hmem).2 rfl
  clock v hv hmem := by
    obtain ⟨k, hk, hsmall⟩ : ∃ k ∈ v.map fold, isSmall k = true := by
      have hletters : ∀ w ∈ clockWords, w.any isSmall = true := by decide
      exact List.any_eq_true.mp (hletters _ hmem)
    obtain ⟨c, hc, rfl⟩ := List.mem_map.mp hk
    rw [(h c (subset_of_mem_words hv hc)).1] at hsmall
    cases hsmall
  behind pre c r hsplit _ _ d hd := by
    refine (h d ?_).1
    rw [hsplit]
    exact List.mem_append_right pre (List.mem_cons_of_mem c hd)
  unit _ u hu hmem := by
    obtain ⟨hne, hletters⟩ := isLetter_of_mem_symbol u hu
    obtain ⟨c, hc⟩ := List.exists_mem_of_ne_nil _ hne
    have hsmall := isSmall_fold_iff.mpr (Or.inl (hletters c hc))
    rw [(h c (subset_of_mem_words hmem hc)).1] at hsmall
    cases hsmall

/-- A text in which no digit begins a word. -/
def NoNumber (s : List Char) : Prop :=
  ∀ pre c r, s = pre ++ c :: r → (∀ d ∈ pre.getLast?, isWordChar d = false) → isDecimal c = false

theorem noNumber_of_no_digits {s : List Char} (h : ∀ c ∈ s, isDecimal c = false) : NoNumber s := by
  intro pre c r hsplit _
  refine h c ?_
  rw [hsplit]
  exact List.mem_append_right pre List.mem_cons_self

/-- A mark parts two texts, unless a number is in front of it and a word behind. -/
theorem Untouched.append_cons {u v : List Char} {m : Char} (hm : isWordChar m = false ∧ m ≠ '"')
    (hu : Untouched o u) (hv : Untouched o v)
    (hapart : NoNumber u ∨ ∀ c ∈ v, isSmall (fold c) = false) :
    Untouched o (u ++ m :: v) where
  quote := by simp [hu.quote, hv.quote, Ne.symm hm.2]
  clock w hw := by
    rw [words_append_cons hm.1] at hw
    exact (List.mem_append.mp hw).elim (hu.clock w) (hv.clock w)
  behind pre c r hsplit hc hedge := by
    have hmark : ∀ {d}, d = m → isDecimal d = false ∧ isSmall (fold d) = false := by
      rintro d rfl
      constructor <;> rw [Bool.eq_false_iff] <;> intro h
      · rw [isWordChar_of_isDecimal h] at hm
        cases hm.1
      · rw [isWordChar_of_isSmall_fold h] at hm
        cases hm.1
    rcases cut_cases hsplit with ⟨a, rfl, rfl⟩ | ⟨-, rfl, -⟩ | ⟨a, rfl, hva⟩
    · -- the digit is in front of the mark, and what is behind it may be behind the mark, too
      intro d hd
      rcases List.mem_append.mp hd with hd | hd
      · exact hu.behind pre c a rfl hc hedge d hd
      · rcases hapart with hnumber | hsmall
        · rw [hnumber pre c a rfl hedge] at hc
          cases hc
        · rcases List.mem_cons.mp hd with heq | hd
          · exact (hmark heq).2
          · exact hsmall d hd
    · rw [(hmark rfl).1] at hc
      cases hc
    · -- the digit is behind the mark
      refine hv.behind a c r hva hc fun d hd => hedge d ?_
      rw [List.getLast?_append, List.getLast?_cons, Option.mem_def.mp hd]
      rfl
  unit hnatural n hn hmem := by
    rw [words_append_cons hm.1] at hmem
    exact (List.mem_append.mp hmem).elim (hu.unit hnatural n hn) (hv.unit hnatural n hn)

theorem Untouched.call {u v : List Char} (hu : Untouched o u) (hdecimal : ∀ c ∈ u, isDecimal c = false)
    (hv : Untouched o v) : Untouched o (u ++ '(' :: v) :=
  hu.append_cons (by decide) hv (Or.inl (noNumber_of_no_digits hdecimal))

theorem untouched_name {name : String} (hname : name ∈ constructorNames) :
    Untouched o name.toList ∧ ∀ c ∈ name.toList, isDecimal c = false := by
  have hnames : ∀ n ∈ constructorNames, '"' ∉ n.toList ∧
      (∀ v ∈ words n.toList, v.map fold ∉ clockWords) ∧
      (∀ c ∈ n.toList, isDecimal c = false) ∧
      ∀ w ∈ MeasureUnit.table.map fun u => u.symbol.toList, w ∉ words n.toList := by
    decide
  obtain ⟨hquote, hclock, hdecimal, hunit⟩ := hnames name hname
  refine ⟨⟨hquote, hclock, ?_, fun _ u hu => hunit _ (List.mem_map_of_mem hu)⟩, hdecimal⟩
  intro pre c r hsplit hc
  rw [hdecimal c (by rw [hsplit]; simp)] at hc
  cases hc

/-- The characters of numbers without an exponent and of the signs around the arguments of a call. -/
def isArgChar (c : Char) : Bool := isDecimal c || "-., )".toList.contains c

theorem isArgChar_ne {c d : Char} (hc : isArgChar c = true) (hd : isArgChar d = false) : c ≠ d := by
  rintro rfl
  rw [hc] at hd
  cases hd

theorem untouched_of_isArgChar {s : List Char} (h : ∀ c ∈ s, isArgChar c = true) : Untouched o s := by
  refine untouched_of_no_letters fun c hc => ⟨?_, isArgChar_ne (h c hc) (by decide)⟩
  have hchar := h c hc
  rw [isArgChar, Bool.or_eq_true, List.contains_iff_mem] at hchar
  rcases hchar with hdecimal | hsign
  · exact isSmall_fold_of_isDecimal hdecimal
  · have hsigns : ∀ d ∈ "-., )".toList, isSmall (fold d) = false := by decide
    exact hsigns c hsign

theorem untouched_call {name : String} (hname : name ∈ constructorNames) {args : List Char}
    (hargs : ∀ c ∈ args, isArgChar c = true) :
    Untouched o (name.toList ++ '(' :: args) ∧ '@' ∉ name.toList ++ '(' :: args := by
  obtain ⟨huntouched, hdecimal⟩ := untouched_name hname
  refine ⟨huntouched.call hdecimal (untouched_of_isArgChar hargs), ?_⟩
  have hnames : ∀ n ∈ constructorNames, '@' ∉ n.toList := by decide
  have hat : '@' ∉ args := fun hmem => isArgChar_ne (hargs _ hmem) (by decide) rfl
  simp [hnames name hname, hat]

end Calls

end Worksheet.Notation
