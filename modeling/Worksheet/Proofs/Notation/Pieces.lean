import Worksheet.Proofs.Notation.Numerals
import Worksheet.Proofs.Notation.Untouched

/-!
# Pieces of notation

The notation for operands, each form of it by itself: what a piece looks like, which functions it calls,
and the text that it is expanded to.

* **`Piece`** — the forms.
* **`expand_today`**, **`expand_span`** and so on — the expansion of each form. The rule of a form covers
  the whole text, the rules in front of it find nothing in the text and the rules behind it find nothing
  in the call.
-/

namespace Worksheet.Notation

open Text

/-- A text that is one operand in worksheet notation, and the functions that it calls. -/
inductive Piece (o : Options) : List Char → List String → Prop where
  | today {s : List Char} (hs : s.map fold = "today".toList) : Piece o s ["date"]
  | now {s : List Char} (hs : s.map fold = "now".toList) : Piece o s ["datetime"]
  | span {w : SpanWords} (hw : w ∈ spanTable) (whole : Decimals) {fraction : Option Decimals}
      (hfraction : w.fractional = false → fraction = none) {blanks word : List Char}
      (hblanks : ∀ c ∈ blanks, isBlank c = true)
      (hword : ∃ k ∈ w.words, word.map fold = k.toList) :
      Piece o (whole.chars ++ fractionText fraction ++ (blanks ++ word)) [w.constructor]
  | ratio (a b : Decimals) : Piece o (a.chars ++ ':' :: b.chars) ["Fraction"]
  | exactDecimal {d : List Char} (hne : d ≠ []) (hd : ∀ c ∈ d, isDigit c = true ∨ c = '.') :
      Piece o (':' :: ':' :: ':' :: d) ["Fraction"]
  | nearDecimal {d : List Char} (hne : d ≠ []) (hd : ∀ c ∈ d, isDigit c = true ∨ c = '.') :
      Piece o (':' :: ':' :: d) ["approximate", "Fraction"]
  | factorial {d : List Char} (hne : d ≠ []) (hd : ∀ c ∈ d, isDigit c = true) :
      Piece o (d ++ ['!']) ["factorial"]
  | quantity (hnatural : o.naturalUnits = true) (n : Numeral) {blanks : List Char}
      (hblanks : ∀ c ∈ blanks, isBlank c = true) {u : MeasureUnit} (hu : u ∈ MeasureUnit.table) :
      Piece o (n.text ++ (blanks ++ u.symbol.toList)) ["unit"]
  | unit (hnatural : o.naturalUnits = true) {u : MeasureUnit} (hu : u ∈ MeasureUnit.table) :
      Piece o u.symbol.toList ["unit"]
  | element (d : Decimals) : Piece o ('@' :: d.chars) ["stack_at"]

/-! ## Characters of pieces -/

/-- The characters that some rule looks for, quotes and the mark of a function. -/
def marks : List Char := operatorMarks ++ [':', '@', '"', functionMark]

/-- Characters of a class that no mark is in are no marks. -/
theorem not_mem_marks {p : Char → Bool} (hp : ∀ m ∈ marks, p m = false) {c : Char}
    (hc : p c = true) : c ∉ marks := by
  intro hmem
  rw [hp c hmem] at hc
  cases hc

theorem not_mem_marks_of_isDecimal {c : Char} (h : isDecimal c = true) : c ∉ marks :=
  not_mem_marks (p := isDecimal) (by decide +kernel) h

theorem not_mem_marks_of_isSmall_fold {c : Char} (h : isSmall (fold c) = true) : c ∉ marks :=
  not_mem_marks (p := fun c => isSmall (fold c)) (by decide) h

theorem not_mem_marks_of_isBlank {c : Char} (h : isBlank c = true) : c ∉ marks :=
  not_mem_marks (p := isBlank) (by decide) h

theorem isOperatorMark_of_not_mem {c : Char} (h : c ∉ marks) : isOperatorMark c = false := by
  rw [Bool.eq_false_iff]
  intro hmark
  exact h (List.mem_append_left _ (List.contains_iff_mem.mp hmark))

/-- Without marks a text passes the rules in front of the one for the clock. -/
theorem expand_of_marks (o : Options) {s : List Char} (htrim : trim s = s)
    (hs : ∀ c ∈ s, c ∉ marks) : expand o s = lateStages o s := by
  have hfunction : s.head? ≠ some functionMark := fun hhead =>
    hs _ (List.mem_of_mem_head? hhead) (by decide)
  have hcolon : ':' ∉ s := fun hmem => hs _ hmem (by decide)
  rw [expand_eq_expandStages o htrim hfunction, expandStages,
    operatorStage_eq_self fun c hc => isOperatorMark_of_not_mem (hs c hc), substituteAll_ratio hcolon,
    decimals_eq_self hcolon]

/-! ## Calls with numbers -/

theorem isArgChar_of_isDigit {c : Char} (h : isDigit c = true) : isArgChar c = true := by
  rw [isArgChar, isDecimal_of_isDigit h, Bool.true_or]

theorem isArgChar_of_mem_showInt {n : Int} {c : Char} (h : c ∈ showInt n) : isArgChar c = true := by
  unfold showInt at h
  split at h
  · rcases List.mem_cons.mp h with rfl | h
    · decide
    · exact isArgChar_of_isDigit (isDigit_of_mem_showNat h)
  · exact isArgChar_of_isDigit (isDigit_of_mem_showNat h)

/-- A call with numbers as they are written. -/
def numberCall (constructor : String) (args : List Char) : List Char :=
  constructor.toList ++ '(' :: (args ++ [')'])

theorem untouched_numberCall {o : Options} {constructor : String} (hname : constructor ∈ constructorNames)
    {args : List Char} (hargs : ∀ c ∈ args, isArgChar c = true) :
    Untouched o (numberCall constructor args) ∧ '@' ∉ numberCall constructor args := by
  refine untouched_call hname fun c hc => ?_
  rcases List.mem_append.mp hc with hc | hc
  · exact hargs c hc
  · rw [List.mem_singleton.mp hc]
    decide

theorem numericCall_eq (name : String) (args : List Int) :
    numericCall name args = numberCall name (List.intercalate [',', ' '] (args.map showInt)) := by
  simp [numericCall, numberCall]

theorem untouched_numericCall {o : Options} {name : String} (hname : name ∈ constructorNames) (args : List Int) :
    Untouched o (numericCall name args) ∧ '@' ∉ numericCall name args := by
  rw [numericCall_eq]
  refine untouched_numberCall hname fun c hc => ?_
  rcases mem_intercalate hc with hc | ⟨part, hpart, hc⟩
  · have hsep : ∀ c ∈ [',', ' '], isArgChar c = true := by decide
    exact hsep c hc
  · obtain ⟨n, -, rfl⟩ := List.mem_map.mp hpart
    exact isArgChar_of_mem_showInt hc

/-! ## The clock -/

theorem wordStart_of_ne_nil {s : List Char} (hs : s ≠ []) (hword : ∀ c ∈ s, isWordChar c = true)
    (rest : List Char) : wordStart [] (s ++ rest) = true := by
  obtain ⟨c, r, rfl⟩ := List.exists_cons_of_ne_nil hs
  simp [wordStart, wordEdge, hword c List.mem_cons_self]

/-- A keyword in any letter case, as a whole text. -/
structure Spells (s word : List Char) : Prop where
  keyword : IsKeyword word
  fold : s.map fold = word

section Spells

variable {s word : List Char}

theorem Spells.isSmall_fold (h : Spells s word) : ∀ c ∈ s, isSmall (Text.fold c) = true := by
  intro c hc
  refine h.keyword.small _ ?_
  rw [← h.fold]
  exact List.mem_map_of_mem hc

theorem Spells.ne_nil (h : Spells s word) : s ≠ [] := by
  rintro rfl
  exact h.keyword.nonempty h.fold.symm

theorem Spells.isWordChar (h : Spells s word) : ∀ c ∈ s, isWordChar c = true :=
  fun c hc => isWordChar_of_isSmall_fold (h.isSmall_fold c hc)

theorem Spells.isBlank (h : Spells s word) : ∀ c ∈ s, isBlank c = false := by
  intro c hc
  by_contra hblank
  have hsmall := h.isSmall_fold c hc
  rw [isSmall_fold_of_isBlank (by simpa using hblank)] at hsmall
  cases hsmall

theorem Spells.not_mem_marks (h : Spells s word) : ∀ c ∈ s, c ∉ marks :=
  fun c hc => not_mem_marks_of_isSmall_fold (h.isSmall_fold c hc)

theorem Spells.stripKeyword? (h : Spells s word) : stripKeyword? word s = some [] :=
  (stripKeyword?_eq_some_iff h.keyword.small).mpr ⟨s, by simp, h.fold⟩

/-- The word by itself is replaced. -/
theorem Spells.clockWord (h : Spells s word) (out : List Char) :
    (clockWord word out).substitute s = out := by
  refine Pattern.substitute_of_whole h.ne_nil ?_
  have hstart : wordStart [] s = true := by
    simpa using wordStart_of_ne_nil h.ne_nil h.isWordChar []
  unfold Notation.clockWord
  rw [if_pos hstart, h.stripKeyword?]
  rfl

end Spells

theorem expand_today (o : Options) {s : List Char} (hs : s.map fold = "today".toList) :
    expand o s = dateCall o.now := by
  have hspells : Spells s "today".toList := ⟨isKeyword_words.1, hs⟩
  have hquote : '"' ∉ s := fun hmem => hspells.not_mem_marks _ hmem (by decide)
  obtain ⟨hcall, hat⟩ : Untouched o (dateCall o.now) ∧ '@' ∉ dateCall o.now :=
    untouched_numericCall (by decide) _
  have hclock : clockStage o.now s = dateCall o.now := by
    unfold clockStage substituteAll
    rw [mapPlain_of_not_mem _ hquote, List.foldl_cons, hspells.clockWord, List.foldl_cons,
      clockWord_substitute_eq_self _ isKeyword_words.2.1 fun v hv heq => hcall.clock v hv (by rw [heq]; decide)]
    rfl
  rw [expand_of_marks o (trim_eq_self hspells.isBlank) hspells.not_mem_marks, lateStages, hclock,
    hcall.spanStage, hcall.units, stackStage_eq_self hat]

theorem expand_now (o : Options) {s : List Char} (hs : s.map fold = "now".toList) :
    expand o s = dateTimeCall o.now := by
  have hspells : Spells s "now".toList := ⟨isKeyword_words.2.1, hs⟩
  have hquote : '"' ∉ s := fun hmem => hspells.not_mem_marks _ hmem (by decide)
  obtain ⟨hcall, hat⟩ : Untouched o (dateTimeCall o.now) ∧ '@' ∉ dateTimeCall o.now :=
    untouched_numericCall (by decide) _
  have hclock : clockStage o.now s = dateTimeCall o.now := by
    have htoday : ∀ v ∈ words s, v.map fold ≠ "today".toList := by
      intro v hv heq
      have hinside := (infix_of_mem_words hv).map fold
      rw [heq, hs] at hinside
      exact absurd hinside (by decide)
    unfold clockStage substituteAll
    rw [mapPlain_of_not_mem _ hquote, List.foldl_cons,
      clockWord_substitute_eq_self _ isKeyword_words.1 htoday, List.foldl_cons, hspells.clockWord]
    rfl
  rw [expand_of_marks o (trim_eq_self hspells.isBlank) hspells.not_mem_marks, lateStages, hclock,
    hcall.spanStage, hcall.units, stackStage_eq_self hat]

/-! ## Numerals at the beginning of a text -/

theorem digits?_append (d : Decimals) {rest : List Char}
    (hrest : ∀ c ∈ rest.head?, isDecimal c = false) :
    digits? (d.chars ++ rest) = some (d.chars, rest) := by
  have hne : d.chars.isEmpty = false := by simpa using d.nonempty
  rw [digits?, takeWhile_run d.decimal hrest, dropWhile_run d.decimal hrest, hne]
  rfl

theorem digits?_self (d : Decimals) : digits? d.chars = some (d.chars, []) := by
  have hnothing : ∀ c ∈ ([] : List Char).head?, isDecimal c = false := by simp
  have hdigits := digits?_append d hnothing
  rwa [List.append_nil] at hdigits

theorem extend_fraction (a : List Char) (fraction : Option Decimals) {rest : List Char}
    (hrest : ∀ c ∈ rest.head?, isDecimal c = false ∧ c ≠ '.') :
    extend (a, fractionText fraction ++ rest) fractionPart?
      = (a ++ fractionText fraction, rest) := by
  cases fraction with
  | none =>
    have hnone : fractionPart? rest = none := by
      unfold fractionPart?
      split
      · exact absurd rfl (hrest '.' rfl).2
      · rfl
    simp [extend, fractionText, hnone]
  | some f =>
    have hdigits := digits?_append f fun c hc => (hrest c hc).1
    simp [extend, fractionText, fractionPart?, hdigits]

theorem extend_exponent (a : List Char) (exponent : Option Exponent) {rest : List Char}
    (hrest : ∀ c ∈ rest.head?, isDecimal c = false ∧ c ≠ 'e' ∧ c ≠ 'E') :
    extend (a, exponentText exponent ++ rest) exponentPart?
      = (a ++ exponentText exponent, rest) := by
  cases exponent with
  | none =>
    have hnone : exponentPart? rest = none := by
      cases rest with
      | nil => rfl
      | cons c r =>
        obtain ⟨-, hsmall, hcapital⟩ := hrest c rfl
        simp [exponentPart?, hsmall, hcapital]
    simp [extend, exponentText, hnone]
  | some e =>
    obtain ⟨letter, sign, digits, hletter, hsign⟩ := e
    have hdigits := digits?_append digits fun c hc => (hrest c hc).1
    have hpart : exponentPart? (letter :: (sign.toList ++ (digits.chars ++ rest)))
        = some (letter :: (sign.toList ++ digits.chars), rest) := by
      have hmatch : (letter == 'e' || letter == 'E') = true := by
        rcases hletter with rfl | rfl <;> rfl
      cases sign with
      | none =>
        -- the first digit stands where a sign could, and is none
        obtain ⟨d, r, hd⟩ := List.exists_cons_of_ne_nil digits.nonempty
        have hdecimal := digits.decimal d (by rw [hd]; exact List.mem_cons_self)
        have hplus : (d == '+' || d == '-') = false := by
          rw [Bool.or_eq_false_iff]
          constructor <;> refine beq_false_of_ne ?_ <;> rintro rfl <;>
            exact absurd hdecimal (by decide)
        rw [hd, List.cons_append] at hdigits
        simp [exponentPart?, hd, hmatch, hplus, hdigits]
      | some c =>
        have hc : (c == '+' || c == '-') = true := by
          rcases hsign c rfl with rfl | rfl <;> rfl
        simp [exponentPart?, hmatch, hc, hdigits]
    simp [extend, exponentText, Exponent.text, hpart]

theorem trimStart_append {blanks rest : List Char} (hblanks : ∀ c ∈ blanks, isBlank c = true)
    (hrest : ∀ c ∈ rest.head?, isBlank c = false) : trimStart (blanks ++ rest) = rest :=
  dropWhile_run hblanks hrest

theorem forall_head?_append {P : Char → Prop} {a b : List Char} (ha : ∀ c ∈ a, P c)
    (hb : ∀ c ∈ b.head?, P c) : ∀ c ∈ (a ++ b).head?, P c := by
  cases a with
  | nil => exact hb
  | cons d a =>
    rintro c ⟨⟩
    exact ha d List.mem_cons_self

/-- Neither a blank nor a letter goes on with the digits of a number. -/
theorem stops_digits {c : Char} (h : isBlank c = true ∨ isSmall (fold c) = true) :
    isDecimal c = false ∧ c ≠ '.' := by
  rcases h with hblank | hsmall
  · refine ⟨?_, ?_⟩
    · rw [Bool.eq_false_iff]
      intro hdecimal
      rw [isBlank_of_isDecimal hdecimal] at hblank
      cases hblank
    · rintro rfl
      exact absurd hblank (by decide)
  · refine ⟨?_, ?_⟩
    · rw [Bool.eq_false_iff]
      intro hdecimal
      rw [isSmall_fold_of_isDecimal hdecimal] at hsmall
      cases hsmall
    · rintro rfl
      exact absurd hsmall (by decide)

theorem isDecimal_head?_fraction (fraction : Option Decimals) {rest : List Char}
    (hrest : ∀ c ∈ rest.head?, isDecimal c = false) :
    ∀ c ∈ (fractionText fraction ++ rest).head?, isDecimal c = false := by
  cases fraction with
  | none => exact hrest
  | some f =>
    rintro c ⟨⟩
    decide

/-! ## Durations -/

deriving instance DecidableEq for SpanWords

/-- No word for one duration is a part of a word for another, and the words of the clock are parts of
none. -/
theorem infix_words : ∀ w ∈ spanTable, ∀ k ∈ w.words,
    (∀ w' ∈ spanTable, ∀ k' ∈ w'.words, k'.toList <:+: k.toList → w' = w) ∧
      ∀ c ∈ clockWords, ¬ c <:+: k.toList := by
  decide +kernel

/-- The words of the clock and of durations. -/
def IsWordOfTime (v : List Char) : Prop :=
  v ∈ clockWords ∨ ∃ w ∈ spanTable, ∃ k ∈ w.words, k.toList = v

theorem IsWordOfTime.keyword {v : List Char} (h : IsWordOfTime v) : IsKeyword v := by
  rcases h with h | ⟨w, hw, k, hk, rfl⟩
  · simp only [clockWords, List.mem_cons, List.not_mem_nil, or_false] at h
    rcases h with rfl | rfl
    · exact isKeyword_words.1
    · exact isKeyword_words.2.1
  · exact isKeyword_words.2.2 w hw k hk

theorem IsWordOfTime.head {v : List Char} (h : IsWordOfTime v) : v.head? ≠ some 'e' := by
  have hwords : (∀ v ∈ clockWords, v.head? ≠ some 'e') ∧
      ∀ w ∈ spanTable, ∀ k ∈ w.words, k.toList.head? ≠ some 'e' := by
    decide
  rcases h with h | ⟨w, hw, k, hk, rfl⟩
  · exact hwords.1 v h
  · exact hwords.2 w hw k hk

/-- A number holds no letter that a word of time could begin with, not even with an exponent. -/
theorem infix_of_count {w u v : List Char} (hw : IsWordOfTime w)
    (hu : ∀ c ∈ u, isSmall (fold c) = false ∨ fold c = 'e') (h : w <:+: (u ++ v).map fold) :
    w <:+: v.map fold := by
  obtain ⟨k, r, rfl⟩ := List.exists_cons_of_ne_nil hw.keyword.nonempty
  rw [List.map_append] at h
  refine infix_of_append_left h fun hmem => ?_
  obtain ⟨c, hc, rfl⟩ := List.mem_map.mp hmem
  have hsmall := hw.keyword.small _ List.mem_cons_self
  rcases hu c hc with hfold | hfold
  · rw [hfold] at hsmall
    cases hsmall
  · exact hw.head (by rw [List.head?_cons, hfold])

/-- One of the patterns rewrites the text, the others find nothing in it and none finds anything in what
is written. -/
theorem foldl_substitute {ps : List (Pattern (List Char))} {s t : List Char}
    (hps : ∀ p ∈ ps, (p.substitute s = s ∨ p.substitute s = t) ∧ p.substitute t = t)
    (h : ∃ p ∈ ps, p.substitute s = t) : ps.foldl (fun s p => p.substitute s) s = t := by
  induction ps with
  | nil =>
    obtain ⟨p, hp, -⟩ := h
    cases hp
  | cons p ps ih =>
    have hrest := fun q hq => hps q (List.mem_cons_of_mem p hq)
    rw [List.foldl_cons]
    rcases (hps p List.mem_cons_self).1 with hself | hout
    · rw [hself]
      obtain ⟨q, hq, hqt⟩ := h
      rcases List.mem_cons.mp hq with rfl | hq
      · rw [hself] at hqt
        subst hqt
        exact foldl_substitute_eq_self fun q hq => (hrest q hq).2
      · exact ih hrest ⟨q, hq, hqt⟩
    · rw [hout]
      exact foldl_substitute_eq_self fun q hq => (hrest q hq).2

/-- One of the spans rewrites the text, and only its words occur there. -/
theorem spanStage_of_word {w : SpanWords} (hw : w ∈ spanTable) {s t : List Char} (hquote : '"' ∉ s)
    (hone : (span w).substitute s = t) (hdone : ∀ w' ∈ spanTable, (span w').substitute t = t)
    (honly : ∀ w' ∈ spanTable, ∀ k ∈ w'.words, k.toList <:+: s.map fold → w' = w) :
    spanStage s = t := by
  unfold spanStage substituteAll
  rw [mapPlain_of_not_mem _ hquote]
  refine foldl_substitute ?_ ⟨span w, List.mem_map_of_mem hw, hone⟩
  intro p hp
  obtain ⟨w', hw', rfl⟩ := List.mem_map.mp hp
  refine ⟨?_, hdone w' hw'⟩
  by_cases heq : w' = w
  · rw [heq]
    exact Or.inr hone
  · left
    refine Pattern.substitute_eq_self_of_none fun pre c r hsplit => ?_
    cases hmatch : span w' pre.reverse (c :: r) with
    | none => rfl
    | some m =>
      obtain ⟨-, k, hk, hin⟩ := exists_of_span hw' hmatch
      have htext : k.toList <:+: s.map fold := by
        rw [hsplit, List.map_append]
        exact hin.trans (List.suffix_append _ _).isInfix
      exact absurd (honly w' hw' k hk htext) heq

/-- A text that begins with a digit and ends without a blank. -/
theorem trim_of_digits (d : Decimals) {u v : List Char} (hne : v ≠ [])
    (hv : ∀ c ∈ v, isBlank c = false) : trim (d.chars ++ u ++ v) = d.chars ++ u ++ v := by
  refine trim_eq_self_of_ends ?_ ?_
  · obtain ⟨e, r, hd⟩ := List.exists_cons_of_ne_nil d.nonempty
    intro c hc
    rw [hd] at hc
    cases hc
    exact isBlank_of_isDecimal (d.decimal _ (by rw [hd]; exact List.mem_cons_self))
  · intro c hc
    rw [List.getLast?_append_of_ne_nil _ hne] at hc
    exact hv c (List.mem_of_getLast? hc)

section Span

variable {whole : Decimals} {fraction : Option Decimals} {blanks word : List Char}

/-- The characters of a number without an exponent. -/
theorem mem_count {c : Char} (h : c ∈ whole.chars ++ fractionText fraction) :
    isDecimal c = true ∨ c = '.' := by
  rcases List.mem_append.mp h with h | h
  · exact Or.inl (whole.decimal c h)
  · cases fraction with
    | none => cases h
    | some f =>
      rcases List.mem_cons.mp h with rfl | h
      · exact Or.inr rfl
      · exact Or.inl (f.decimal c h)

theorem stripWord?_of_spells {words : List String} {k : String} (hwords : ∀ w ∈ words, IsKeyword w.toList)
    (hk : k ∈ words) (h : Spells word k.toList) : stripWord? words word = some [] := by
  have hsome : (stripWord? words word).isSome := by
    rw [stripWord?, List.findSome?_isSome_iff]
    refine ⟨k, hk, ?_⟩
    rw [h.stripKeyword?]
    rfl
  obtain ⟨rest, hrest⟩ := Option.isSome_iff_exists.mp hsome
  rw [hrest]
  obtain ⟨w, hw, hstrip⟩ := List.exists_of_findSome?_eq_some hrest
  obtain ⟨r, hr, hend⟩ := Option.bind_eq_some_iff.mp hstrip
  obtain ⟨a, rfl, -⟩ := (stripKeyword?_eq_some_iff (hwords w hw).small).mp hr
  -- behind the word that was found there is no letter, so there is nothing
  split at hend
  · next hwordEnd =>
    cases hend
    cases rest with
    | nil => rfl
    | cons c r =>
      have hchar := h.isWordChar c (by simp)
      simp [wordEnd, hchar] at hwordEnd
  · cases hend

theorem span_count {w : SpanWords} (hw : w ∈ spanTable) (hfraction : w.fractional = false → fraction = none)
    (hblanks : ∀ c ∈ blanks, isBlank c = true) {k : String} (hk : k ∈ w.words)
    (hword : Spells word k.toList) :
    (span w).substitute (whole.chars ++ fractionText fraction ++ (blanks ++ word))
      = numberCall w.constructor (whole.chars ++ fractionText fraction) := by
  have hbehind : ∀ d ∈ (blanks ++ word).head?, isDecimal d = false ∧ d ≠ '.' :=
    forall_head?_append (fun d hd => stops_digits (Or.inl (hblanks d hd))) fun d hd =>
      stops_digits (Or.inr (hword.isSmall_fold d (List.mem_of_mem_head? hd)))
  have hdigits : digits? (whole.chars ++ (fractionText fraction ++ (blanks ++ word)))
      = some (whole.chars, fractionText fraction ++ (blanks ++ word)) :=
    digits?_append whole (isDecimal_head?_fraction fraction fun d hd => (hbehind d hd).1)
  have hcount : (if w.fractional then
      extend (whole.chars, fractionText fraction ++ (blanks ++ word)) fractionPart?
      else (whole.chars, fractionText fraction ++ (blanks ++ word)))
        = (whole.chars ++ fractionText fraction, blanks ++ word) := by
    split
    · exact extend_fraction _ _ hbehind
    · next hfractional =>
      have hnone := hfraction (by simpa using hfractional)
      subst hnone
      simp [fractionText]
  refine Pattern.substitute_of_whole (by simp [whole.nonempty]) ?_
  unfold span
  rw [List.append_assoc, if_pos (wordStart_of_ne_nil whole.nonempty
    (fun d hd => isWordChar_of_isDecimal (whole.decimal d hd)) _), hdigits, Option.bind_some]
  dsimp only
  rw [hcount]
  dsimp only
  rw [trimStart_append hblanks fun d hd => hword.isBlank d (List.mem_of_mem_head? hd),
    stripWord?_of_spells (fun v hv => isKeyword_words.2.2 w hw v hv) hk hword]
  simp [numberCall]

theorem not_isSmall_of_count (hblanks : ∀ c ∈ blanks, isBlank c = true) :
    ∀ c ∈ whole.chars ++ fractionText fraction ++ blanks, isSmall (fold c) = false := by
  intro c hc
  rcases List.mem_append.mp hc with hc | hc
  · rcases mem_count hc with hdecimal | rfl
    · exact isSmall_fold_of_isDecimal hdecimal
    · decide
  · exact isSmall_fold_of_isBlank (hblanks c hc)

theorem not_mem_marks_of_mem_count {c : Char} (h : c ∈ whole.chars ++ fractionText fraction) :
    c ∉ marks := by
  rcases mem_count h with hdecimal | rfl
  · exact not_mem_marks_of_isDecimal hdecimal
  · decide

theorem isArgChar_of_mem_count {c : Char} (h : c ∈ whole.chars ++ fractionText fraction) :
    isArgChar c = true := by
  rcases mem_count h with hdecimal | rfl
  · rw [isArgChar, hdecimal, Bool.true_or]
  · decide

theorem expand_span (o : Options) {w : SpanWords} (hw : w ∈ spanTable)
    (hfraction : w.fractional = false → fraction = none) (hblanks : ∀ c ∈ blanks, isBlank c = true)
    (hword : ∃ k ∈ w.words, word.map fold = k.toList) :
    expand o (whole.chars ++ fractionText fraction ++ (blanks ++ word))
      = numberCall w.constructor (whole.chars ++ fractionText fraction) := by
  obtain ⟨k, hk, hfold⟩ := hword
  have hspells : Spells word k.toList := ⟨isKeyword_words.2.2 w hw k hk, hfold⟩
  have hone : (span w).substitute (whole.chars ++ fractionText fraction ++ (blanks ++ word))
      = numberCall w.constructor (whole.chars ++ fractionText fraction) :=
    span_count hw hfraction hblanks hk hspells
  obtain ⟨hcall, hat⟩ : Untouched o (numberCall w.constructor (whole.chars ++ fractionText fraction)) ∧
      '@' ∉ numberCall w.constructor (whole.chars ++ fractionText fraction) :=
    untouched_numberCall (List.mem_append_right _ (List.mem_map_of_mem hw))
      fun c hc => isArgChar_of_mem_count hc
  have hcount : ∀ c ∈ whole.chars ++ fractionText fraction ++ blanks,
      isSmall (fold c) = false ∨ fold c = 'e' :=
    fun c hc => Or.inl (not_isSmall_of_count hblanks c hc)
  rw [← List.append_assoc] at hone ⊢
  generalize hs : whole.chars ++ fractionText fraction ++ blanks ++ word = s at hone ⊢
  -- a word that occurs in the text occurs in the word for the duration
  have hinside : ∀ {v : List Char}, IsWordOfTime v → v <:+: s.map fold → v <:+: k.toList := by
    intro v hv hin
    rw [← hs] at hin
    rw [← hfold]
    exact infix_of_count hv hcount hin
  have hmarks : ∀ c ∈ s, c ∉ marks := by
    intro c hc
    rw [← hs] at hc
    rcases List.mem_append.mp hc with hc | hc
    · rcases List.mem_append.mp hc with hc | hc
      · exact not_mem_marks_of_mem_count hc
      · exact not_mem_marks_of_isBlank (hblanks c hc)
    · exact hspells.not_mem_marks c hc
  have htrim : trim s = s := by
    rw [← hs, List.append_assoc whole.chars]
    exact trim_of_digits whole hspells.ne_nil hspells.isBlank
  have hquote : '"' ∉ s := fun hmem => hmarks _ hmem (by decide)
  have hclock : clockStage o.now s = s := by
    refine clockStage_eq_self o.now hquote (not_mem_clockWords fun v hv hin => ?_)
    exact (infix_words w hw k hk).2 v hv (hinside (Or.inl hv) hin)
  have hspan : spanStage s = numberCall w.constructor (whole.chars ++ fractionText fraction) := by
    refine spanStage_of_word hw hquote hone (fun w' hw' => hcall.span hw') fun w' hw' k' hk' hin => ?_
    exact (infix_words w hw k hk).1 w' hw' k' hk' (hinside (Or.inr ⟨w', hw', k', hk', rfl⟩) hin)
  rw [expand_of_marks o htrim hmarks, lateStages, hclock, hspan, hcall.units,
    stackStage_eq_self hat]

end Span

/-! ## Ratios -/

theorem ratio_whole (a b : Decimals) :
    ratio.substitute (a.chars ++ ':' :: b.chars)
      = numberCall "Fraction" (a.chars ++ [',', ' '] ++ b.chars) := by
  have hfirst : digits? (a.chars ++ ':' :: b.chars) = some (a.chars, ':' :: b.chars) := by
    refine digits?_append a ?_
    rintro c ⟨⟩
    decide
  refine Pattern.substitute_of_whole (by simp) ?_
  unfold ratio
  rw [if_pos (wordStart_of_ne_nil a.nonempty
    (fun d hd => isWordChar_of_isDecimal (a.decimal d hd)) _), hfirst]
  simp [digits?_self b, wordEnd, numberCall]

/-- A text without signs for operators that only begins and ends with what can be seen is expanded from
the rule for ratios on. -/
theorem expand_of_operatorMarks (o : Options) {s : List Char} (hs : ∀ c ∈ s, isOperatorMark c = false)
    (hfirst : ∀ c ∈ s.head?, isBlank c = false ∧ c ≠ functionMark)
    (hlast : ∀ c ∈ s.getLast?, isBlank c = false) :
    expand o s = lateStages o (decimals (substituteAll [ratio] s)) := by
  have htrim : trim s = s := trim_eq_self_of_ends (fun c hc => (hfirst c hc).1) hlast
  have hfunction : s.head? ≠ some functionMark := fun hhead => (hfirst _ hhead).2 rfl
  rw [expand_eq_expandStages o htrim hfunction, expandStages, operatorStage_eq_self hs]

theorem isOperatorMark_of_isDecimal {c : Char} (h : isDecimal c = true) : isOperatorMark c = false :=
  isOperatorMark_of_not_mem (not_mem_marks_of_isDecimal h)

theorem Decimals.not_mem (d : Decimals) {c : Char} (hc : isDecimal c = false) : c ∉ d.chars := by
  intro hmem
  rw [d.decimal c hmem] at hc
  cases hc

theorem Decimals.head (d : Decimals) : ∀ c ∈ d.chars.head?, isBlank c = false ∧ c ≠ functionMark := by
  intro c hc
  have hdecimal := d.decimal c (List.mem_of_mem_head? hc)
  refine ⟨isBlank_of_isDecimal hdecimal, ?_⟩
  rintro rfl
  exact absurd hdecimal (by decide)

theorem Decimals.last (d : Decimals) : ∀ c ∈ d.chars.getLast?, isBlank c = false :=
  fun c hc => isBlank_of_isDecimal (d.decimal c (List.mem_of_getLast? hc))

theorem Decimals.isArgChar_of_mem (d : Decimals) {c : Char} (hc : c ∈ d.chars) :
    isArgChar c = true := by
  rw [isArgChar, d.decimal c hc, Bool.true_or]

theorem isArgChar_of_mem_terms (a b : Decimals) {c : Char}
    (hc : c ∈ a.chars ++ [',', ' '] ++ b.chars) : isArgChar c = true := by
  simp only [List.mem_append, List.mem_cons, List.not_mem_nil, or_false] at hc
  rcases hc with (hc | rfl | rfl) | hc
  · exact a.isArgChar_of_mem hc
  · decide
  · decide
  · exact b.isArgChar_of_mem hc

theorem isOperatorMark_of_mem_ratio (a b : Decimals) {c : Char}
    (hc : c ∈ a.chars ++ ':' :: b.chars) : isOperatorMark c = false := by
  simp only [List.mem_append, List.mem_cons] at hc
  rcases hc with hc | rfl | hc
  · exact isOperatorMark_of_isDecimal (a.decimal c hc)
  · decide
  · exact isOperatorMark_of_isDecimal (b.decimal c hc)

theorem expand_ratio (o : Options) (a b : Decimals) :
    expand o (a.chars ++ ':' :: b.chars)
      = numberCall "Fraction" (a.chars ++ [',', ' '] ++ b.chars) := by
  obtain ⟨hcall, hat⟩ := untouched_numberCall (by decide : "Fraction" ∈ constructorNames)
    fun c hc => isArgChar_of_mem_terms a b hc
  -- the colon is gone, and with it what the rules for decimals look for
  have hcolon : ':' ∉ numberCall "Fraction" (a.chars ++ [',', ' '] ++ b.chars) := by
    simp [numberCall, a.not_mem (c := ':') (by decide), b.not_mem (c := ':') (by decide)]
  have hquote : '"' ∉ a.chars ++ ':' :: b.chars := by
    simp [a.not_mem (c := '"') (by decide), b.not_mem (c := '"') (by decide)]
  have hratio : substituteAll [ratio] (a.chars ++ ':' :: b.chars)
      = numberCall "Fraction" (a.chars ++ [',', ' '] ++ b.chars) := by
    unfold substituteAll
    rw [mapPlain_of_not_mem _ hquote]
    exact ratio_whole a b
  rw [expand_of_operatorMarks o fun c hc => isOperatorMark_of_mem_ratio a b hc, hratio,
    decimals_eq_self hcolon, hcall.lateStages hat]
  · obtain ⟨d, r, hd⟩ := List.exists_cons_of_ne_nil a.nonempty
    intro c hc
    refine a.head c ?_
    rw [hd] at hc ⊢
    exact hc
  · intro c hc
    refine b.last c ?_
    obtain ⟨d, r, hd⟩ := List.exists_cons_of_ne_nil b.nonempty
    rw [List.getLast?_append_of_ne_nil _ (by simp), hd] at hc
    rw [hd]
    exact hc

/-! ## Decimal fractions -/

theorem not_mem_of_isArgChar {c : Char} {s : List Char} (hs : ∀ d ∈ s, isArgChar d = true)
    (hc : isArgChar c = false) : c ∉ s := fun hmem => isArgChar_ne (hs c hmem) hc rfl

section Decimal

variable {d : List Char}

/-- Without a digit in front of a colon there is no ratio. -/
theorem ratio_of_colons {u : List Char} (hu : ∀ c ∈ u, isDecimal c = false) (hd : ':' ∉ d) :
    ratio.substitute (u ++ d) = u ++ d := by
  refine Pattern.substitute_eq_self_of_none fun pre c r hsplit => ?_
  cases hmatch : ratio pre.reverse (c :: r) with
  | none => rfl
  | some m =>
    obtain ⟨a, b, r', hfirst, -, -⟩ := ratio_eq_some hmatch
    obtain ⟨x, r'', hx, hdecimal⟩ := exists_of_digits? hfirst
    cases hx
    have hcolon : ':' ∈ c :: r := by
      rw [(eq_append_of_digits? hfirst).1]
      simp
    rcases List.append_eq_append_iff.mp hsplit with ⟨v, -, hv⟩ | ⟨v, hv, hr⟩
    · refine absurd ?_ hd
      rw [hv]
      exact List.mem_append_right v hcolon
    · cases v with
      | nil =>
        rw [List.nil_append] at hr
        exact absurd (by rw [← hr]; exact hcolon) hd
      | cons y v =>
        obtain ⟨rfl, -⟩ := List.cons.inj hr
        rw [hu c (by rw [hv]; simp)] at hdecimal
        cases hdecimal

theorem not_mem_of_decimal (hd : ∀ c ∈ d, isDigit c = true ∨ c = '.') {m : Char}
    (hm : isDigit m = false ∧ m ≠ '.') : m ∉ d := by
  intro hmem
  rcases hd m hmem with hdigit | rfl
  · rw [hm.1] at hdigit
    cases hdigit
  · exact hm.2 rfl

theorem colonDecimal?_append (colons : List Char) (hne : d ≠ [])
    (hd : ∀ c ∈ d, isDigit c = true ∨ c = '.') :
    colonDecimal? colons (colons ++ d) = some (d, []) := by
  have hrun : ∀ c ∈ d, (isDigit c || c == '.') = true := by simpa using hd
  have htake := List.takeWhile_eq_self_iff.mpr hrun
  have hdrop := List.dropWhile_eq_nil_iff.mpr hrun
  have hempty : d.isEmpty = false := by simpa using hne
  rw [colonDecimal?, strip?_eq_some_iff.mpr rfl, Option.bind_some]
  simp only [htake, hdrop, hempty, Bool.false_eq_true, if_false]

/-- A text in front of a literal and one behind it. -/
theorem lateStages_literal (o : Options) {u l v : List Char} (hu : Untouched o u ∧ '@' ∉ u)
    (hl : IsLiteral l) (hv : Untouched o v ∧ '@' ∉ v) : lateStages o (u ++ (l ++ v)) = u ++ (l ++ v) := by
  rw [(local_lateStages o).literal (closed_of_not_mem hu.1.quote) hl, hu.1.lateStages hu.2,
    hv.1.lateStages hv.2]

theorem operatorMark_of_colons {u : List Char} (hu : ∀ c ∈ u, c = ':')
    (hd : ∀ c ∈ d, isDigit c = true ∨ c = '.') : ∀ c ∈ u ++ d, isOperatorMark c = false := by
  intro c hc
  rcases List.mem_append.mp hc with hc | hc
  · rw [hu c hc]
    decide
  · rcases hd c hc with hdigit | rfl
    · exact isOperatorMark_of_isDecimal (isDecimal_of_isDigit hdigit)
    · decide

theorem isBlank_of_decimal (hd : ∀ c ∈ d, isDigit c = true ∨ c = '.') : ∀ c ∈ d, isBlank c = false := by
  intro c hc
  rcases hd c hc with hdigit | rfl
  · exact isBlank_of_isDecimal (isDecimal_of_isDigit hdigit)
  · decide

/-- No decimal behind colons has a quote in it. -/
theorem quote_not_mem_of_colons {u : List Char} (hu : ∀ c ∈ u, c = ':')
    (hd : ∀ c ∈ d, isDigit c = true ∨ c = '.') : '"' ∉ u ++ d := by
  refine List.not_mem_append (fun hmem => ?_) (not_mem_of_decimal hd (by decide))
  exact absurd (hu _ hmem) (by decide)

/-- The text behind the colons of a decimal reaches the rule for decimals as it is. -/
theorem expand_colons (o : Options) {u : List Char} (hne : d ≠ []) (hu : ∀ c ∈ u, c = ':')
    (hhead : u ≠ []) (hd : ∀ c ∈ d, isDigit c = true ∨ c = '.') :
    expand o (u ++ d) = lateStages o (decimals (u ++ d)) := by
  have hcolon : ':' ∉ d := not_mem_of_decimal hd (by decide)
  have hratio : substituteAll [ratio] (u ++ d) = u ++ d := by
    unfold substituteAll
    rw [mapPlain_of_not_mem _ (quote_not_mem_of_colons hu hd)]
    refine ratio_of_colons ?_ hcolon
    intro c hc
    rw [hu c hc]
    decide
  rw [expand_of_operatorMarks o (operatorMark_of_colons hu hd), hratio]
  · intro c hc
    rw [List.head?_append_of_ne_nil _ hhead] at hc
    rw [hu c (List.mem_of_mem_head? hc)]
    decide
  · intro c hc
    rw [List.getLast?_append_of_ne_nil _ hne] at hc
    exact isBlank_of_decimal hd c (List.mem_of_getLast? hc)

theorem quotedDecimal_whole {colons lead tail : List Char} (hcolons : colons ≠ []) (hne : d ≠ [])
    (hd : ∀ c ∈ d, isDigit c = true ∨ c = '.') :
    (quotedDecimal colons lead tail).substitute (colons ++ d) = lead ++ (inQuotes d ++ tail) := by
  refine Pattern.substitute_of_whole (by simp [hcolons]) ?_
  unfold quotedDecimal
  rw [colonDecimal?_append _ hne hd]
  simp

/-- What a decimal becomes is left alone by the rules behind the one for decimals. -/
theorem expand_quotedDecimal (o : Options) {u lead tail : List Char} (hne : d ≠ []) (hu : ∀ c ∈ u, c = ':')
    (hhead : u ≠ []) (hd : ∀ c ∈ d, isDigit c = true ∨ c = '.')
    (hlead : Untouched o lead ∧ '@' ∉ lead) (htail : Untouched o tail ∧ '@' ∉ tail)
    (hdecimals : decimals (u ++ d) = lead ++ (inQuotes d ++ tail)) :
    expand o (u ++ d) = lead ++ (inQuotes d ++ tail) := by
  rw [expand_colons o hne hu hhead hd, hdecimals,
    lateStages_literal o hlead (isLiteral_inQuotes_decimal hd) htail]

theorem expand_exactDecimal (o : Options) (hne : d ≠ [])
    (hd : ∀ c ∈ d, isDigit c = true ∨ c = '.') :
    expand o (':' :: ':' :: ':' :: d) = "Fraction(".toList ++ (inQuotes d ++ [')']) := by
  have hcolon : ':' ∉ "Fraction(".toList ++ (inQuotes d ++ [')']) := by
    simp [inQuotes, not_mem_of_decimal (m := ':') hd (by decide)]
  refine expand_quotedDecimal o (u := [':', ':', ':']) hne (by decide) (by decide) hd
    (untouched_call (by decide : "Fraction" ∈ constructorNames) (fun _ hc => by cases hc))
    ⟨untouched_of_isArgChar (by decide), by decide⟩ ?_
  unfold decimals
  rw [mapPlain_of_not_mem _ (quote_not_mem_of_colons (by decide) hd), exactDecimal_eq,
    quotedDecimal_whole (by decide) hne hd, mapPlain_of_colon nearDecimal_needs hcolon]

/-- Two colons are no three. -/
theorem exactDecimal_of_two (hd : ':' ∉ d) :
    exactDecimal.substitute (':' :: ':' :: d) = ':' :: ':' :: d := by
  refine Pattern.substitute_eq_self_of_none fun pre c r hsplit => ?_
  cases hmatch : exactDecimal pre.reverse (c :: r) with
  | none => rfl
  | some m =>
    obtain ⟨m', hm', -⟩ := Option.map_eq_some_iff.mp hmatch
    obtain ⟨t, ht, -⟩ := Option.bind_eq_some_iff.mp hm'
    rw [strip?_eq_some_iff] at ht
    rw [ht] at hsplit
    have hcount := congrArg (List.count ':') hsplit
    simp [List.count_eq_zero.mpr hd] at hcount
    omega

theorem expand_nearDecimal (o : Options) (hne : d ≠ [])
    (hd : ∀ c ∈ d, isDigit c = true ∨ c = '.') :
    expand o (':' :: ':' :: d) = "approximate(Fraction(".toList ++ (inQuotes d ++ [')', ')']) := by
  have hquote : '"' ∉ [':', ':'] ++ d := quote_not_mem_of_colons (by decide) hd
  have hexact : exactDecimal.substitute ([':', ':'] ++ d) = [':', ':'] ++ d :=
    exactDecimal_of_two (not_mem_of_decimal hd (by decide))
  have hinner : Untouched o ("Fraction".toList ++ '(' :: []) :=
    (untouched_call (by decide) (fun _ hc => by cases hc)).1
  obtain ⟨hname, hdigits⟩ := untouched_name (by decide : "approximate" ∈ constructorNames)
  refine expand_quotedDecimal o (u := [':', ':']) hne (by decide) (by decide) hd
    ⟨hname.call hdigits hinner, by decide⟩ ⟨untouched_of_isArgChar (by decide), by decide⟩ ?_
  unfold decimals
  rw [mapPlain_of_not_mem _ hquote, hexact, mapPlain_of_not_mem _ hquote, nearDecimal_eq,
    quotedDecimal_whole (by decide) hne hd]

end Decimal

/-! ## Factorials -/

section Factorial

variable {d : List Char}

theorem factorial_whole (hne : d ≠ []) (hd : ∀ c ∈ d, isDigit c = true) :
    factorial.substitute (d ++ ['!']) = numberCall "factorial" d := by
  have hname : ∀ c ∈ d, isNameChar c = true := fun c hc => isNameChar_of_isDigit (hd c hc)
  have hrest : ∀ c ∈ ['!'].head?, isNameChar c = false := by
    rintro c ⟨⟩
    decide
  have hempty : d.isEmpty = false := by simpa using hne
  refine Pattern.substitute_of_whole (by simp) ?_
  unfold factorial
  rw [takeWhile_run hname hrest, dropWhile_run hname hrest]
  simp [numberCall, hempty]

theorem isOperatorMark_of_factorialCall (hd : ∀ c ∈ d, isDigit c = true) {c : Char}
    (hc : c ∈ numberCall "factorial" d) : isOperatorMark c = false := by
  have hends : ∀ c ∈ "factorial(".toList ++ [')'], isOperatorMark c = false := by decide
  simp only [numberCall, List.mem_append, List.mem_cons, List.not_mem_nil, or_false] at hc
  rcases hc with hc | rfl | hc | rfl
  · exact hends c (List.mem_append_left _ (List.mem_append_left ['('] hc))
  · decide
  · exact isOperatorMark_of_isDecimal (isDecimal_of_isDigit (hd c hc))
  · decide

theorem trim_factorial (hd : ∀ c ∈ d, isDigit c = true) : trim (d ++ ['!']) = d ++ ['!'] := by
  refine trim_eq_self fun c hc => ?_
  rcases List.mem_append.mp hc with hc | hc
  · exact isBlank_of_isNameChar (isNameChar_of_isDigit (hd c hc))
  · rw [List.mem_singleton.mp hc]
    decide

theorem expand_factorial (o : Options) (hne : d ≠ []) (hd : ∀ c ∈ d, isDigit c = true) :
    expand o (d ++ ['!']) = numberCall "factorial" d := by
  have hargs : ∀ c ∈ d, isArgChar c = true := fun c hc => isArgChar_of_isDigit (hd c hc)
  obtain ⟨hcall, hat⟩ := untouched_numberCall (by decide : "factorial" ∈ constructorNames) hargs
  have hcolon : ':' ∉ numberCall "factorial" d := by
    simp [numberCall, not_mem_of_isArgChar (c := ':') hargs (by decide)]
  have hquote : '"' ∉ d ++ ['!'] := by
    simp [not_mem_of_isArgChar (c := '"') hargs (by decide)]
  have hfactorial : substituteAll [factorial] (d ++ ['!']) = numberCall "factorial" d := by
    unfold substituteAll
    rw [mapPlain_of_not_mem _ hquote]
    exact factorial_whole hne hd
  have hfunction : (d ++ ['!']).head? ≠ some functionMark := by
    rw [List.head?_append_of_ne_nil _ hne]
    intro hhead
    exact absurd (hd _ (List.mem_of_mem_head? hhead)) (by decide)
  -- the call has no sign for an operator, no colon and no sign of the stack: no later rule finds a place
  have hmarks : ∀ c ∈ numberCall "factorial" d, isOperatorMark c = false :=
    fun c hc => isOperatorMark_of_factorialCall hd hc
  rw [expand_eq_expandStages o (trim_factorial hd) hfunction, expandStages,
    operatorStage_of_factorial hfactorial hmarks, substituteAll_ratio hcolon,
    decimals_eq_self hcolon, hcall.lateStages hat]

end Factorial

/-! ## Elements of the stack -/

/-- The call that a reference to the stack becomes. -/
def elementCall (d : List Char) : List Char :=
  "stack_at(".toList ++ stackName.toList ++ ", ".toList ++ showInt (stackPosition d) ++ [')']

theorem untouched_element (o : Options) (d : Decimals) : Untouched o ('@' :: d.chars) := by
  refine untouched_of_no_letters fun c hc => ?_
  rcases List.mem_cons.mp hc with rfl | hc
  · decide
  · refine ⟨isSmall_fold_of_isDecimal (d.decimal c hc), ?_⟩
    rintro rfl
    exact d.not_mem (by decide) hc

theorem not_mem_elementCall (d : List Char) : '@' ∉ elementCall d := by
  have hname : '@' ∉ "stack_at(".toList ++ stackName.toList ++ ", ".toList := by decide
  have hposition : '@' ∉ showInt (stackPosition d) := not_mem_showInt (by decide) (by decide) _
  unfold elementCall
  exact List.not_mem_append (List.not_mem_append hname hposition) (by decide)

theorem stackElement_whole (d : Decimals) :
    stackElement.substitute ('@' :: d.chars) = elementCall d.chars := by
  refine Pattern.substitute_of_whole (by simp) ?_
  have hread : stackElement [] ('@' :: d.chars) = (digits? d.chars).map fun m =>
      (elementCall m.1, m.2) := rfl
  rw [hread, digits?_self, Option.map_some]

theorem stackStage_element {d : Decimals} (hquote : '"' ∉ '@' :: d.chars) :
    stackStage ('@' :: d.chars) = elementCall d.chars := by
  -- the rules for the whole stack and the last answer look for a sign that the call has not
  have hrest : ∀ p ∈ [wholeStack, lastAnswer], p.substitute (elementCall d.chars)
      = elementCall d.chars := by
    intro p hp
    refine (stackPatterns_need (List.mem_cons_of_mem _ hp)).substitute fun c hc => ?_
    refine beq_false_of_ne ?_
    rintro rfl
    exact not_mem_elementCall _ hc
  unfold stackStage substituteAll
  rw [mapPlain_of_not_mem _ hquote, List.foldl_cons, stackElement_whole]
  exact foldl_substitute_eq_self hrest

theorem expand_element (o : Options) (d : Decimals) : expand o ('@' :: d.chars) = elementCall d.chars := by
  have hcolon : ':' ∉ '@' :: d.chars := by simp [d.not_mem (c := ':') (by decide)]
  have huntouched := untouched_element o d
  rw [expand_of_operatorMarks, substituteAll_ratio hcolon, decimals_eq_self hcolon, lateStages,
    huntouched.clockStage, huntouched.spanStage, huntouched.units, stackStage_element huntouched.quote]
  · intro c hc
    rcases List.mem_cons.mp hc with rfl | hc
    · decide
    · exact isOperatorMark_of_isDecimal (d.decimal c hc)
  · rintro c ⟨⟩
    decide
  · intro c hc
    rw [List.getLast?_cons_of_ne_nil d.nonempty] at hc
    exact d.last c hc

/-! ## Units -/

/-- The symbols of units are found as they are. No word of time occurs in one of them, and none holds the
letter of an exponent. -/
theorem symbol_spec {u : MeasureUnit} (hu : u ∈ MeasureUnit.table) :
    stripUnit? u.symbol.toList = some (u.symbol.toList, []) ∧
      (∀ w ∈ spanTable, ∀ k ∈ w.words, ¬ k.toList <:+: u.symbol.toList.map fold) ∧
      (∀ v ∈ clockWords, ¬ v <:+: u.symbol.toList.map fold) ∧
      ∀ c ∈ u.symbol.toList, c ≠ 'e' ∧ c ≠ 'E' := by
  have hsymbols : ∀ s ∈ MeasureUnit.table.map fun u => u.symbol.toList,
      stripUnit? s = some (s, []) ∧
        (∀ w ∈ spanTable, ∀ k ∈ w.words, ¬ k.toList <:+: s.map fold) ∧
        (∀ v ∈ clockWords, ¬ v <:+: s.map fold) ∧
        ∀ c ∈ s, c ≠ 'e' ∧ c ≠ 'E' := by
    decide +kernel
  exact hsymbols _ (List.mem_map_of_mem hu)

theorem isSmall_of_mem_symbol {u : MeasureUnit} (hu : u ∈ MeasureUnit.table) :
    ∀ c ∈ u.symbol.toList, isSmall (fold c) = true :=
  fun c hc => isSmall_fold_iff.mpr (Or.inl ((isLetter_of_mem_symbol u hu).2 c hc))

theorem isNameChar_of_mem_symbol {u : MeasureUnit} (hu : u ∈ MeasureUnit.table) {c : Char}
    (hc : c ∈ u.symbol.toList) : isNameChar c = true :=
  isNameChar_of_isLetter ((isLetter_of_mem_symbol u hu).2 c hc)

theorem isBlank_of_mem_symbol {u : MeasureUnit} (hu : u ∈ MeasureUnit.table) :
    ∀ c ∈ u.symbol.toList, isBlank c = false :=
  fun _ hc => isBlank_of_isNameChar (isNameChar_of_mem_symbol hu hc)

theorem not_mem_marks_of_symbol {u : MeasureUnit} (hu : u ∈ MeasureUnit.table) :
    ∀ c ∈ u.symbol.toList, c ∉ marks :=
  fun c hc => not_mem_marks_of_isSmall_fold (isSmall_of_mem_symbol hu c hc)

/-- The characters of a number with an exponent. -/
theorem Numeral.mem_text {n : Numeral} {c : Char} (h : c ∈ n.text) :
    isDecimal c = true ∨ c ∈ ".eE+-".toList := by
  have hcount : ∀ d, d ∈ n.whole.chars ++ fractionText n.fraction →
      isDecimal d = true ∨ d ∈ ".eE+-".toList := fun d hd =>
    (mem_count hd).imp_right fun hpoint => by rw [hpoint]; decide
  rw [Numeral.text, ← List.append_assoc] at h
  rcases List.mem_append.mp h with h | h
  · exact hcount c h
  · cases hexponent : n.exponent with
    | none =>
      rw [hexponent] at h
      cases h
    | some e =>
      rw [hexponent] at h
      rcases List.mem_cons.mp h with rfl | h
      · right
        rcases e.letter_eq with hletter | hletter <;> rw [hletter] <;> decide
      · rcases List.mem_append.mp h with h | h
        · right
          rcases e.sign_eq c (Option.mem_toList.mp h) with rfl | rfl <;> decide
        · exact Or.inl (e.digits.decimal c h)

section Quantity

variable {n : Numeral} {blanks : List Char} {u : MeasureUnit}

/-- What a number and the symbol of a unit become. -/
def quantityCall (number symbol : List Char) : List Char :=
  '(' :: (number ++ " * unit(".toList) ++ (inQuotes symbol ++ [')', ')'])

/-- Neither a blank nor a symbol goes on with a number. -/
theorem stops_numeral (hblanks : ∀ c ∈ blanks, isBlank c = true) (hu : u ∈ MeasureUnit.table) :
    ∀ c ∈ (blanks ++ u.symbol.toList).head?, (isDecimal c = false ∧ c ≠ '.') ∧ c ≠ 'e' ∧ c ≠ 'E' := by
  refine forall_head?_append (fun c hc => ⟨stops_digits (Or.inl (hblanks c hc)), ?_⟩) fun c hc => ?_
  · constructor <;> rintro rfl <;> exact absurd (hblanks _ hc) (by decide)
  · have hmem := List.mem_of_mem_head? hc
    exact ⟨stops_digits (Or.inr (isSmall_of_mem_symbol hu c hmem)), (symbol_spec hu).2.2.2 c hmem⟩

theorem head?_exponentText {rest : List Char} (hrest : ∀ c ∈ rest.head?, isDecimal c = false ∧ c ≠ '.') :
    ∀ c ∈ (exponentText n.exponent ++ rest).head?, isDecimal c = false ∧ c ≠ '.' := by
  cases n.exponent with
  | none => exact hrest
  | some e =>
    rintro c ⟨⟩
    rcases e.letter_eq with hletter | hletter <;> rw [hletter] <;> decide

/-- The rule for quantities reads the number up to the blanks and the symbol behind them. -/
theorem quantityLiteral_whole (hblanks : ∀ c ∈ blanks, isBlank c = true)
    (hu : u ∈ MeasureUnit.table) :
    quantityLiteral [] (n.text ++ (blanks ++ u.symbol.toList))
      = some ((n.text, u.symbol.toList), []) := by
  have hbehind := stops_numeral hblanks hu
  have hexponent := head?_exponentText (n := n) fun c hc => (hbehind c hc).1
  have hdigits : digits? (n.text ++ (blanks ++ u.symbol.toList)) = some (n.whole.chars,
      fractionText n.fraction ++ (exponentText n.exponent ++ (blanks ++ u.symbol.toList))) := by
    rw [Numeral.text, List.append_assoc, List.append_assoc]
    exact digits?_append n.whole
      (isDecimal_head?_fraction n.fraction fun c hc => (hexponent c hc).1)
  have hnumber : extend (extend (n.whole.chars, fractionText n.fraction ++
      (exponentText n.exponent ++ (blanks ++ u.symbol.toList))) fractionPart?) exponentPart?
        = (n.text, blanks ++ u.symbol.toList) := by
    rw [extend_fraction _ _ hexponent, extend_exponent _ _ fun c hc =>
      ⟨(hbehind c hc).1.1, (hbehind c hc).2⟩, Numeral.text, List.append_assoc]
  have hsymbol : trimStart (blanks ++ u.symbol.toList) = u.symbol.toList :=
    trimStart_append hblanks fun c hc => isBlank_of_mem_symbol hu c (List.mem_of_mem_head? hc)
  have hstart : wordStart [] (n.text ++ (blanks ++ u.symbol.toList)) = true := by
    rw [Numeral.text, List.append_assoc]
    exact wordStart_of_ne_nil n.whole.nonempty
      (fun d hd => isWordChar_of_isDecimal (n.whole.decimal d hd)) _
  unfold quantityLiteral
  rw [if_pos hstart, hdigits, Option.bind_some]
  dsimp only
  rw [hnumber]
  dsimp only
  rw [hsymbol, (symbol_spec hu).1, Option.map_some]

theorem quantity_whole (hblanks : ∀ c ∈ blanks, isBlank c = true) (hu : u ∈ MeasureUnit.table) :
    quantity.substitute (n.text ++ (blanks ++ u.symbol.toList))
      = quantityCall n.text u.symbol.toList := by
  refine Pattern.substitute_of_whole (by simp [Numeral.text, n.whole.nonempty]) ?_
  unfold quantity
  rw [quantityLiteral_whole hblanks hu]
  simp [quantityCall, unitCall]

/-- In front of the literal the only letters are those of exponents and of the name of the function. -/
theorem bareUnit_quantityCall :
    bareUnit.substitute ('(' :: (n.text ++ " * unit(".toList))
      = '(' :: (n.text ++ " * unit(".toList) := by
  refine bareUnit_substitute_eq_self fun u hu hmem => ?_
  have hbehind : words (n.text ++ " * unit(".toList) = words n.text ++ words "* unit(".toList :=
    words_append_cons (by decide) n.text _
  have hall : words ('(' :: (n.text ++ " * unit(".toList))
      = words [] ++ (words n.text ++ words "* unit(".toList) := by
    rw [← hbehind]
    exact words_append_cons (by decide) [] _
  obtain ⟨hne, hletters⟩ := isLetter_of_mem_symbol u hu
  rw [hall] at hmem
  rcases List.mem_append.mp hmem with hmem | hmem
  · exact hne (List.mem_singleton.mp hmem)
  · rcases List.mem_append.mp hmem with hmem | hmem
    · obtain ⟨c, hc⟩ := List.exists_mem_of_ne_nil _ hne
      have hexponent := (symbol_spec hu).2.2.2 c hc
      have hletter := isSmall_fold_iff.mpr (Or.inl (hletters c hc))
      rcases Numeral.mem_text (subset_of_mem_words hmem hc) with hdecimal | hsign
      · rw [isSmall_fold_of_isDecimal hdecimal] at hletter
        cases hletter
      · have hsigns : ∀ c ∈ ".eE+-".toList, c ≠ 'e' ∧ c ≠ 'E' → isSmall (fold c) = false := by decide
        rw [hsigns c hsign hexponent] at hletter
        cases hletter
    · have hnone : ∀ s ∈ MeasureUnit.table.map fun u => u.symbol.toList,
          s ∉ words "* unit(".toList := by
        decide
      exact hnone _ (List.mem_map_of_mem hu) hmem

theorem bareUnit_parens : bareUnit.substitute [')', ')'] = [')', ')'] := by decide

theorem units_quantity {o : Options} (hnatural : o.naturalUnits = true)
    (hblanks : ∀ c ∈ blanks, isBlank c = true) (hu : u ∈ MeasureUnit.table)
    (hquote : '"' ∉ n.text ++ (blanks ++ u.symbol.toList)) :
    unitsWithin false o (n.text ++ (blanks ++ u.symbol.toList))
      = quantityCall n.text u.symbol.toList := by
  have hnumber : '"' ∉ n.text := fun hmem => hquote (List.mem_append_left _ hmem)
  have hfront : '"' ∉ '(' :: (n.text ++ " * unit(".toList) := by simp [hnumber]
  unfold unitsWithin
  rw [hnatural, mapPlain_of_not_mem _ hquote, quantity_whole hblanks hu, quantityCall]
  simp only [Bool.not_true, Bool.or_false, Bool.false_eq_true, if_false]
  rw [mapPlain_append_literal _ hfront (isLiteral_symbol hu), bareUnit_quantityCall,
    mapPlain_of_not_mem _ (by decide), bareUnit_parens]

theorem not_mem_marks_of_numeral : ∀ c ∈ n.text, c ∉ marks := by
  intro c hc
  rcases Numeral.mem_text hc with hdecimal | hsign
  · exact not_mem_marks_of_isDecimal hdecimal
  · have hsigns : ∀ c ∈ ".eE+-".toList, c ∉ marks := by decide
    exact hsigns c hsign

theorem not_mem_marks_of_quantity (hblanks : ∀ c ∈ blanks, isBlank c = true) (hu : u ∈ MeasureUnit.table) :
    ∀ c ∈ n.text ++ (blanks ++ u.symbol.toList), c ∉ marks := by
  intro c hc
  rcases List.mem_append.mp hc with hc | hc
  · exact not_mem_marks_of_numeral c hc
  · rcases List.mem_append.mp hc with hc | hc
    · exact not_mem_marks_of_isBlank (hblanks c hc)
    · exact not_mem_marks_of_symbol hu c hc

/-- A word of time that occurs in a quantity occurs in its symbol. -/
theorem infix_of_quantity (hblanks : ∀ c ∈ blanks, isBlank c = true) {v : List Char} (hv : IsWordOfTime v)
    (hin : v <:+: (n.text ++ (blanks ++ u.symbol.toList)).map fold) : v <:+: u.symbol.toList.map fold := by
  rw [← List.append_assoc] at hin
  refine infix_of_count hv (fun c hc => ?_) hin
  rcases List.mem_append.mp hc with hc | hc
  · rcases Numeral.mem_text hc with hdecimal | hsign
    · exact Or.inl (isSmall_fold_of_isDecimal hdecimal)
    · have hsigns : ∀ c ∈ ".eE+-".toList, isSmall (fold c) = false ∨ fold c = 'e' := by decide
      exact hsigns c hsign
  · exact Or.inl (isSmall_fold_of_isBlank (hblanks c hc))

/-- The rules for the clock and for durations find nothing in a quantity. -/
theorem timeStages_quantity (now : DateTime) (hblanks : ∀ c ∈ blanks, isBlank c = true)
    (hu : u ∈ MeasureUnit.table) :
    clockStage now (n.text ++ (blanks ++ u.symbol.toList)) = n.text ++ (blanks ++ u.symbol.toList) ∧
      spanStage (n.text ++ (blanks ++ u.symbol.toList)) = n.text ++ (blanks ++ u.symbol.toList) := by
  have hquote : '"' ∉ n.text ++ (blanks ++ u.symbol.toList) := fun hmem =>
    not_mem_marks_of_quantity hblanks hu _ hmem (by decide)
  constructor
  · refine clockStage_eq_self now hquote (not_mem_clockWords fun v hv hin => ?_)
    exact (symbol_spec hu).2.2.1 v hv (infix_of_quantity hblanks (Or.inl hv) hin)
  · refine spanStage_eq_self hquote fun w hw k hk hin => ?_
    exact (symbol_spec hu).2.1 w hw k hk (infix_of_quantity hblanks (Or.inr ⟨w, hw, k, hk, rfl⟩) hin)

theorem at_not_mem_quantityCall (hu : u ∈ MeasureUnit.table) : '@' ∉ quantityCall n.text u.symbol.toList := by
  have hnumber : '@' ∉ n.text := fun hmem => not_mem_marks_of_numeral _ hmem (by decide)
  have hsymbol : '@' ∉ u.symbol.toList := fun hmem => not_mem_marks_of_symbol hu _ hmem (by decide)
  simp [quantityCall, inQuotes, hnumber, hsymbol]

theorem expand_quantity (o : Options) (hnatural : o.naturalUnits = true)
    (hblanks : ∀ c ∈ blanks, isBlank c = true) (hu : u ∈ MeasureUnit.table) :
    expand o (n.text ++ (blanks ++ u.symbol.toList)) = quantityCall n.text u.symbol.toList := by
  have hmarks := not_mem_marks_of_quantity (n := n) hblanks hu
  have hquote : '"' ∉ n.text ++ (blanks ++ u.symbol.toList) := fun hmem => hmarks _ hmem (by decide)
  obtain ⟨hclock, hspan⟩ := timeStages_quantity (n := n) o.now hblanks hu
  have hne : u.symbol.toList ≠ [] := (isLetter_of_mem_symbol u hu).1
  have htrim : trim (n.text ++ (blanks ++ u.symbol.toList)) = n.text ++ (blanks ++ u.symbol.toList) := by
    rw [← List.append_assoc, Numeral.text, List.append_assoc n.whole.chars]
    exact trim_of_digits n.whole hne (isBlank_of_mem_symbol hu)
  rw [expand_of_marks o htrim hmarks, lateStages, hclock, hspan, units_quantity hnatural hblanks hu hquote,
    stackStage_eq_self (at_not_mem_quantityCall hu)]

end Quantity

theorem bareUnit_symbol {u : MeasureUnit} (hu : u ∈ MeasureUnit.table) :
    bareUnit.substitute u.symbol.toList = unitCall u.symbol.toList := by
  have hne := (isLetter_of_mem_symbol u hu).1
  have hstart : wordStart [] u.symbol.toList = true := by
    have hword : ∀ c ∈ u.symbol.toList, isWordChar c = true := fun c hc =>
      isWordChar_of_isNameChar (isNameChar_of_mem_symbol hu hc)
    simpa using wordStart_of_ne_nil hne hword []
  refine Pattern.substitute_of_whole hne ?_
  unfold bareUnit unitToken
  rw [if_pos hstart, (symbol_spec hu).1]
  simp [trimStart]

theorem units_symbol {o : Options} (hnatural : o.naturalUnits = true) {u : MeasureUnit}
    (hu : u ∈ MeasureUnit.table) : unitsWithin false o u.symbol.toList = unitCall u.symbol.toList := by
  have hletters := (isLetter_of_mem_symbol u hu).2
  have hquote : '"' ∉ u.symbol.toList := fun hmem => absurd (hletters _ hmem) (by decide)
  have hquantity : quantity.substitute u.symbol.toList = u.symbol.toList := by
    refine Pattern.substitute_eq_self_of_none fun pre c r hsplit => ?_
    cases hmatch : quantity pre.reverse (c :: r) with
    | none => rfl
    | some m =>
      obtain ⟨⟨-, d, t, hd, hdecimal⟩, -⟩ := exists_of_quantity hmatch
      cases hd
      have hsmall := isSmall_of_mem_symbol hu c (by rw [hsplit]; simp)
      rw [isSmall_fold_of_isDecimal hdecimal] at hsmall
      cases hsmall
  unfold unitsWithin
  rw [hnatural, mapPlain_of_not_mem _ hquote, hquantity, mapPlain_of_not_mem _ hquote, bareUnit_symbol hu]
  rfl

theorem expand_unit (o : Options) (hnatural : o.naturalUnits = true) {u : MeasureUnit}
    (hu : u ∈ MeasureUnit.table) : expand o u.symbol.toList = unitCall u.symbol.toList := by
  have hmarks := not_mem_marks_of_symbol hu
  have hquote : '"' ∉ u.symbol.toList := fun hmem => hmarks _ hmem (by decide)
  have htrim : trim u.symbol.toList = u.symbol.toList := trim_eq_self (isBlank_of_mem_symbol hu)
  have hat : '@' ∉ unitCall u.symbol.toList := by
    have hsymbol : '@' ∉ u.symbol.toList := fun hmem => hmarks _ hmem (by decide)
    simp [unitCall, inQuotes, hsymbol]
  rw [expand_of_marks o htrim hmarks, lateStages,
    clockStage_eq_self o.now hquote (not_mem_clockWords (symbol_spec hu).2.2.1),
    spanStage_eq_self hquote (symbol_spec hu).2.1, units_symbol hnatural hu, stackStage_eq_self hat]

end Worksheet.Notation
