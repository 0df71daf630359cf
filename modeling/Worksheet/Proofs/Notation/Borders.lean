import Worksheet.Proofs.Declaration.Calls
import Worksheet.Proofs.Notation.Pieces

/-!
# Borders of operands

Behind an operand a formula goes on with blanks and a sign, or ends. None of the patterns of the notation
reads across such a border, so that what stands in front of it is rewritten by itself.

* **`Bordered`** — a pattern that fits at no blank, sign or parenthesis, and does not look past a sign at
  what stands in front of it.
* **`StopsBehind`** — a text that the pattern reads as if nothing followed it, whatever stands behind the
  border; one lemma for each pattern.
* **`Bordered.mapPlain_append`** — a text in front of a border is rewritten by itself.
* **`Bordered.mapPlain_cons`** — so is what stands behind a blank, a sign or an opening parenthesis.
-/

namespace Worksheet.Notation

open Text

/-! ## Borders -/

/-- The signs that a formula goes on with behind an operand, and a function's parameters behind a name. -/
def borderSigns : List Char := ['+', '-', '*', '/', ')', ',', '|']

/-- The signs that an operand stands behind, and the parenthesis that opens one. -/
def openingSigns : List Char := ['+', '-', '*', '/', '(']

/-- The signs that a name stands behind in a formula or among the parameters of a function. -/
def leadingSigns : List Char := ',' :: '|' :: openingSigns

/-- Does a text begin with a border: is there a sign behind its blanks, if there is anything? -/
def Border (rest : List Char) : Prop := ∀ c ∈ (trimStart rest).head?, c ∈ borderSigns

theorem border_nil : Border [] := by simp [Border, trimStart]

theorem border_cons {c : Char} (hc : c ∈ borderSigns) (r : List Char) : Border (c :: r) := by
  have hblank : ∀ d ∈ borderSigns, isBlank d = false := by decide
  intro d hd
  rw [trimStart, List.dropWhile_cons_of_neg (by simp [hblank c hc])] at hd
  cases hd
  exact hc

theorem Border.append_blanks {blanks rest : List Char} (hblanks : ∀ c ∈ blanks, isBlank c = true)
    (hrest : Border rest) : Border (blanks ++ rest) := by
  unfold Border trimStart
  rwa [List.dropWhile_append_of_pos hblanks]

/-- No blank is a character of a word. -/
theorem isWordChar_of_isBlank {c : Char} (h : isBlank c = true) : isWordChar c = false := by
  have hcodes : ∀ n ∈ [0x85, 0xA0, 0x1680, 0x2000, 0x2001, 0x2002, 0x2003, 0x2004, 0x2005, 0x2006, 0x2007,
      0x2008, 0x2009, 0x200A, 0x2028, 0x2029, 0x202F, 0x205F, 0x3000], inRanges wordRanges n = false := by
    decide +kernel
  unfold isWordChar
  split
  · rw [Bool.eq_false_iff]
    intro hname
    rw [isBlank_of_isNameChar hname] at h
    cases h
  · next hascii =>
    refine hcodes _ ?_
    simp only [isBlank, Bool.or_eq_true, Bool.and_eq_true, decide_eq_true_eq, beq_iff_eq] at h
    simp only [List.mem_cons, List.not_mem_nil, or_false]
    omega

/-- What a text with a border begins with goes on with no word, no number and no call. -/
theorem Border.head {rest : List Char} (hrest : Border rest) : ∀ c ∈ rest.head?,
    isWordChar c = false ∧ isDecimal c = false ∧ c ≠ '.' ∧ c ≠ '(' ∧ c ≠ '"' := by
  have hsigns : ∀ c ∈ borderSigns, isWordChar c = false ∧ isDecimal c = false ∧ c ≠ '.' ∧ c ≠ '(' ∧ c ≠ '"' := by
    decide
  intro c hc
  obtain ⟨r, rfl⟩ := List.head?_eq_some_iff.mp hc
  by_cases hblank : isBlank c = true
  · refine ⟨isWordChar_of_isBlank hblank, ?_, ?_, ?_, ?_⟩
    · rw [Bool.eq_false_iff]
      intro hdecimal
      rw [isBlank_of_isDecimal hdecimal] at hblank
      cases hblank
    all_goals
      rintro rfl
      exact absurd hblank (by decide)
  · refine hsigns c (hrest c ?_)
    rw [trimStart, List.dropWhile_cons_of_neg hblank]
    rfl

theorem isSmall_fold_of_isWordChar {c : Char} (h : isWordChar c = false) : isSmall (fold c) = false := by
  rw [Bool.eq_false_iff]
  intro hsmall
  rw [isWordChar_of_isSmall_fold hsmall] at h
  cases h

/-- Blanks at the end of a text belong to the border behind it. -/
theorem Border.trimStart {rest : List Char} (hrest : Border rest) : Border (trimStart rest) := by
  have htwice : Text.trimStart (Text.trimStart rest) = Text.trimStart rest := by
    cases h : Text.trimStart rest with
    | nil => rfl
    | cons c r => exact List.dropWhile_cons_of_neg (by simp [isBlank_of_trimStart_eq_cons h])
  unfold Border
  rwa [htwice]

theorem trimStart_append_border (x rest : List Char) :
    (trimStart x = [] ∧ trimStart (x ++ rest) = trimStart rest) ∨
      trimStart (x ++ rest) = trimStart x ++ rest := by
  unfold trimStart
  rw [List.dropWhile_append]
  cases hx : x.dropWhile isBlank with
  | nil => exact Or.inl ⟨rfl, rfl⟩
  | cons c r => exact Or.inr rfl

/-! ## Reading in front of a border -/

/-- Does a text begin with no character of a word? -/
def EndsWord (rest : List Char) : Prop := ∀ c ∈ rest.head?, isWordChar c = false

theorem Border.endsWord {rest : List Char} (hrest : Border rest) : EndsWord rest :=
  fun c hc => (hrest.head c hc).1

section Reading

variable {rest : List Char}

theorem takeWhile_append_stop {p : Char → Bool} (hrest : ∀ c ∈ rest.head?, p c = false) (b : List Char) :
    (b ++ rest).takeWhile p = b.takeWhile p := by
  induction b with
  | nil => exact takeWhile_run (s := []) (by simp) hrest
  | cons c b ih =>
    rw [List.cons_append, List.takeWhile_cons, List.takeWhile_cons, ih]

theorem dropWhile_append_stop {p : Char → Bool} (hrest : ∀ c ∈ rest.head?, p c = false) (b : List Char) :
    (b ++ rest).dropWhile p = b.dropWhile p ++ rest := by
  induction b with
  | nil => exact dropWhile_run (s := []) (by simp) hrest
  | cons c b ih =>
    rw [List.cons_append, List.dropWhile_cons, List.dropWhile_cons, ih]
    split <;> rfl

theorem digits?_append_stop (hrest : EndsWord rest) (b : List Char) :
    digits? (b ++ rest) = (digits? b).map fun m => (m.1, m.2 ++ rest) := by
  have hstop : ∀ c ∈ rest.head?, isDecimal c = false := by
    intro c hc
    rw [Bool.eq_false_iff]
    intro hdecimal
    have hword := hrest c hc
    rw [isWordChar_of_isDecimal hdecimal] at hword
    cases hword
  unfold digits?
  rw [takeWhile_append_stop hstop, dropWhile_append_stop hstop]
  split <;> rfl

theorem fractionPart?_append_border (hrest : Border rest) (b : List Char) :
    fractionPart? (b ++ rest) = (fractionPart? b).map fun m => (m.1, m.2 ++ rest) := by
  have hother : ∀ c r, c ≠ '.' → fractionPart? (c :: r) = none := by
    intro c r hc
    unfold fractionPart?
    split
    · next heq => exact absurd (List.cons.inj heq).1 hc
    · rfl
  cases b with
  | nil =>
    cases rest with
    | nil => rfl
    | cons c r => exact hother c r (hrest.head c rfl).2.2.1
  | cons c b =>
    by_cases hc : c = '.'
    · subst hc
      show (digits? (b ++ rest)).map _ = ((digits? b).map _).map _
      rw [digits?_append_stop hrest.endsWord, Option.map_map, Option.map_map]
      rfl
    · rw [List.cons_append, hother c _ hc, hother c _ hc]
      rfl

/-- Alone in front of a border, the letter of an exponent takes the sign behind it for its own. -/
theorem exponentPart?_append_stop (hrest : EndsWord rest) {b : List Char} (hb : b ∉ [['e'], ['E']]) :
    exponentPart? (b ++ rest) = (exponentPart? b).map fun m => (m.1, m.2 ++ rest) := by
  have hother : ∀ e r, e ≠ 'e' → e ≠ 'E' → exponentPart? (e :: r) = none := by
    intro e r hsmall hcapital
    simp [exponentPart?, hsmall, hcapital]
  cases b with
  | nil =>
    cases rest with
    | nil => rfl
    | cons c r =>
      have hword := hrest c rfl
      refine hother c r ?_ ?_
      all_goals
        rintro rfl
        exact absurd hword (by decide)
  | cons e b =>
    cases b with
    | nil =>
      simp only [List.mem_cons, List.cons.injEq, and_true, List.not_mem_nil, or_false, not_or] at hb
      rw [List.cons_append, hother e _ hb.1 hb.2, hother e _ hb.1 hb.2]
      rfl
    | cons c b =>
      -- the character behind the letter is a sign or the first of the digits, and they end at the border
      have hwhole := digits?_append_stop hrest (c :: b)
      have hbehind := digits?_append_stop hrest b
      simp only [List.cons_append] at hwhole hbehind ⊢
      unfold exponentPart?
      dsimp only
      split
      · split
        · rw [hbehind, Option.map_map, Option.map_map]
          rfl
        · rw [hwhole, Option.map_map, Option.map_map]
          rfl
      · rfl

theorem extend_append {part : List Char → Option (List Char × List Char)} {numeral : List Char × List Char}
    (hpart : part (numeral.2 ++ rest) = (part numeral.2).map fun m => (m.1, m.2 ++ rest)) :
    extend (numeral.1, numeral.2 ++ rest) part = ((extend numeral part).1, (extend numeral part).2 ++ rest) := by
  unfold extend
  dsimp only
  rw [hpart]
  cases part numeral.2 <;> rfl

theorem wordStart_append (before : List Char) {b : List Char} (hb : b ≠ []) (rest : List Char) :
    wordStart before (b ++ rest) = wordStart before b := by
  obtain ⟨c, r, rfl⟩ := List.exists_cons_of_ne_nil hb
  rfl

theorem wordEnd_append_stop (hrest : EndsWord rest) (b : List Char) : wordEnd (b ++ rest) = wordEnd b := by
  cases b with
  | nil =>
    cases rest with
    | nil => rfl
    | cons c r => simp [wordEnd, hrest c rfl]
  | cons c b => rfl

theorem stripKeyword?_append_stop {word : List Char} (hword : ∀ k ∈ word, isSmall k = true)
    (hrest : EndsWord rest) (b : List Char) :
    stripKeyword? word (b ++ rest) = (stripKeyword? word b).map (· ++ rest) := by
  induction word generalizing b with
  | nil => simp [stripKeyword?]
  | cons k word ih =>
    cases b with
    | nil =>
      cases rest with
      | nil => rfl
      | cons c r =>
        have hletter : matchesLetter k c = false := by
          rw [Bool.eq_false_iff]
          intro hmatch
          have hfold := (matchesLetter_iff (hword k List.mem_cons_self)).mp hmatch
          have hsmall := isSmall_fold_of_isWordChar (hrest c rfl)
          rw [hfold, hword k List.mem_cons_self] at hsmall
          cases hsmall
        simp [stripKeyword?, hletter]
    | cons c b =>
      have hmore := ih (fun d hd => hword d (List.mem_cons_of_mem k hd)) b
      rw [List.cons_append]
      unfold stripKeyword?
      rw [hmore]
      split <;> rfl

theorem strip?_append_stop {lead : List Char} (hlead : ∀ k ∈ lead, isWordChar k = true)
    (hrest : EndsWord rest) (b : List Char) : strip? lead (b ++ rest) = (strip? lead b).map (· ++ rest) := by
  induction lead generalizing b with
  | nil => simp [strip?]
  | cons k lead ih =>
    cases b with
    | nil =>
      cases rest with
      | nil => rfl
      | cons c r =>
        have hne : k ≠ c := by
          rintro rfl
          have hword := hrest k rfl
          rw [hlead k List.mem_cons_self] at hword
          cases hword
        simp [strip?, hne]
    | cons c b =>
      have hmore := ih (fun d hd => hlead d (List.mem_cons_of_mem k hd)) b
      rw [List.cons_append]
      unfold strip?
      rw [hmore]
      split <;> rfl

theorem findSome?_append {ι α : Type} {l : List ι} {f g : ι → Option α} {h : α → α}
    (hfg : ∀ i ∈ l, g i = (f i).map h) : l.findSome? g = (l.findSome? f).map h := by
  induction l with
  | nil => rfl
  | cons i l ih =>
    rw [List.findSome?_cons, List.findSome?_cons, hfg i List.mem_cons_self,
      ih fun j hj => hfg j (List.mem_cons_of_mem i hj)]
    cases f i <;> rfl

theorem stripWord?_append_stop {ws : List String} (hws : ∀ w ∈ ws, IsKeyword w.toList) (hrest : EndsWord rest)
    (b : List Char) : stripWord? ws (b ++ rest) = (stripWord? ws b).map (· ++ rest) := by
  refine findSome?_append fun w hw => ?_
  rw [stripKeyword?_append_stop (hws w hw).small hrest]
  cases stripKeyword? w.toList b with
  | none => rfl
  | some r =>
    simp only [Option.map_some, Option.bind_some, wordEnd_append_stop hrest]
    split <;> rfl

theorem stripUnit?_append_stop (hrest : EndsWord rest) (b : List Char) :
    stripUnit? (b ++ rest) = (stripUnit? b).map fun m => (m.1, m.2 ++ rest) := by
  refine findSome?_append fun u hu => ?_
  have hword : ∀ k ∈ u.symbol.toList, isWordChar k = true := fun k hk =>
    isWordChar_of_isNameChar (isNameChar_of_isLetter ((isLetter_of_mem_symbol u hu).2 k hk))
  rw [strip?_append_stop hword hrest]
  cases strip? u.symbol.toList b with
  | none => rfl
  | some r =>
    simp only [Option.map_some, Option.bind_some, wordEnd_append_stop hrest]
    split <;> rfl

/-- A reader that finds nothing at the end of a text reads behind blanks as if the text ended there too. -/
theorem read_trimStart_append_border {α : Type} {f : List Char → Option α} {h : List Char → α → α}
    (hnil : f [] = none) (hf : ∀ {r}, Border r → ∀ b, f (b ++ r) = (f b).map (h r)) (hrest : Border rest)
    (b : List Char) : f (trimStart (b ++ rest)) = (f (trimStart b)).map (h rest) := by
  rcases trimStart_append_border b rest with ⟨hempty, hblanks⟩ | hsplit
  · have hbehind := hf hrest.trimStart []
    rw [List.nil_append, hnil] at hbehind
    rw [hblanks, hempty, hbehind, hnil]
    rfl
  · rw [hsplit, hf hrest]

theorem stripWord?_nil {ws : List String} (hws : ∀ w ∈ ws, IsKeyword w.toList) : stripWord? ws [] = none := by
  refine List.findSome?_eq_none_iff.mpr fun w hw => ?_
  obtain ⟨k, v, hv⟩ := List.exists_cons_of_ne_nil (hws w hw).nonempty
  rw [hv]
  rfl

theorem stripUnit?_nil : stripUnit? [] = none := by
  decide

end Reading

/-! ## Patterns at borders -/

/-- What the patterns look at in front of a place: whether a word ends there, whether a point stands
there, and, if a number or a parenthesis ends there, whether blanks stand behind it. -/
def outlook (before : List Char) : Bool × Bool × Option Bool :=
  (endsInWord before.head?, before.head? == some '.',
    match trimStart before with
    | [] => none
    | c :: _ =>
      if isDigit c || c == ')' || c == '.' then some ((before.head?.map isBlank).getD false) else none)

theorem outlook_cons (c : Char) {before before' : List Char} (h : outlook before = outlook before') :
    outlook (c :: before) = outlook (c :: before') := by
  by_cases hc : isBlank c = true
  · have hskip : ∀ b : List Char, trimStart (c :: b) = trimStart b := fun b =>
      List.dropWhile_cons_of_pos hc
    unfold outlook at h ⊢
    obtain ⟨-, h⟩ := Prod.mk.inj h
    obtain ⟨-, h⟩ := Prod.mk.inj h
    rw [hskip, hskip]
    simp only [List.head?_cons, Option.map_some, hc, Option.getD_some]
    refine congrArg _ (congrArg _ ?_)
    revert h
    cases trimStart before with
    | nil =>
      cases trimStart before' with
      | nil => exact fun _ => rfl
      | cons d r => split <;> simp_all
    | cons d r =>
      cases trimStart before' with
      | nil => split <;> simp_all
      | cons d' r' =>
        dsimp only
        split <;> split <;> simp_all
  · have hstop : ∀ b : List Char, trimStart (c :: b) = c :: b := fun b =>
      List.dropWhile_cons_of_neg hc
    unfold outlook
    rw [hstop, hstop]
    rfl

/-- A pattern that fits at no blank, sign or parenthesis and looks at nothing else in front of a place. -/
structure Bordered (p : Pattern (List Char)) : Prop where
  mark : ∀ before c r, isBlank c = true ∨ c ∈ '(' :: borderSigns → p before (c :: r) = none
  look : ∀ before before' s, outlook before = outlook before' → p before s = p before' s

/-- The pattern reads the text as if nothing followed it, whatever stands behind a border. -/
def StopsBehind (p : Pattern (List Char)) (a : List Char) : Prop :=
  ∀ pre b rest, b ≠ [] → a = pre ++ b → Border rest →
    p pre.reverse (b ++ rest) = (p pre.reverse b).map fun m => (m.1, m.2 ++ rest)

namespace Bordered

variable {p : Pattern (List Char)}

theorem scanFrom_congr (hp : Bordered p) {before before' : List Char}
    (h : outlook before = outlook before') (s : List Char) :
    Pattern.scanFrom p before 0 s = Pattern.scanFrom p before' 0 s :=
  Pattern.scanFrom_congr (fun c _ _ => outlook_cons c) hp.look h 0 s

/-- It does not matter what stands in front of a border. -/
theorem scanFrom_border (hp : Bordered p) (before before' : List Char) {rest : List Char}
    (hrest : Border rest) : Pattern.scanFrom p before 0 rest = Pattern.scanFrom p before' 0 rest := by
  induction rest generalizing before before' with
  | nil => rfl
  | cons c r ih =>
    by_cases hc : isBlank c = true
    · have hr : Border r := by
        unfold Border Text.trimStart at hrest
        rwa [List.dropWhile_cons_of_pos hc] at hrest
      rw [Pattern.scanFrom_of_none (hp.mark _ c r (.inl hc)), Pattern.scanFrom_of_none (hp.mark _ c r (.inl hc)),
        ih _ (c :: before') hr]
    · have hstop : ∀ b : List Char, Text.trimStart (c :: b) = c :: b := fun b =>
        List.dropWhile_cons_of_neg hc
      have hsign : c ∈ borderSigns := hrest c (by rw [hstop]; rfl)
      have hnone := fun before => hp.mark before c r (.inr (List.mem_cons_of_mem _ hsign))
      have hlook : outlook (c :: before) = outlook (c :: before') := by
        unfold outlook
        rw [hstop, hstop]
        rfl
      rw [Pattern.scanFrom_of_none (hnone _), Pattern.scanFrom_of_none (hnone _), hp.scanFrom_congr hlook]

theorem substitute_append (hp : Bordered p) {a rest : List Char} (ha : StopsBehind p a)
    (hrest : Border rest) : p.substitute (a ++ rest) = p.substitute a ++ p.substitute rest := by
  have hborder : ∀ pre b, b ≠ [] → a = pre ++ b → p (pre.reverse ++ []) (b ++ rest)
      = (p (pre.reverse ++ []) b).map fun m => (m.1, m.2 ++ rest) := by
    intro pre b hb hsplit
    rw [List.append_nil]
    exact ha pre b rest hb hsplit hrest
  unfold Pattern.substitute
  rw [Pattern.scanFrom_append hborder 0 (Nat.zero_le _), List.flatMap_append,
    hp.scanFrom_border (a.reverse ++ []) [] hrest]

theorem substitute_cons (hp : Bordered p) {c : Char} (hc : isBlank c = true ∨ c ∈ leadingSigns)
    (r : List Char) : p.substitute (c :: r) = c :: p.substitute r := by
  have hmark : isBlank c = true ∨ c ∈ '(' :: borderSigns := by
    have hsigns : ∀ d ∈ leadingSigns, d ∈ '(' :: borderSigns := by decide
    exact hc.imp_right (hsigns c)
  have hlook : outlook [c] = outlook [] := by
    rcases hc with hblank | hsign
    · have hpoint : c ≠ '.' := by
        rintro rfl
        exact absurd hblank (by decide)
      simp [outlook, endsInWord, isWordChar_of_isBlank hblank, hpoint, Text.trimStart, hblank]
    · have hsigns : ∀ d ∈ leadingSigns, outlook [d] = outlook [] := by decide
      exact hsigns c hsign
  unfold Pattern.substitute
  rw [Pattern.scanFrom_of_none (hp.mark [] c r hmark), List.flatMap_cons, hp.scanFrom_congr hlook]
  rfl

theorem substitute_marks (hp : Bordered p) {u : List Char} (hu : ∀ c ∈ u, isBlank c = true ∨ c ∈ leadingSigns)
    (r : List Char) : p.substitute (u ++ r) = u ++ p.substitute r := by
  induction u with
  | nil => rfl
  | cons c u ih =>
    rw [List.cons_append, hp.substitute_cons (hu c List.mem_cons_self), ih fun d hd => hu d (List.mem_cons_of_mem c hd)]
    rfl

/-! ## Texts with literals -/

/-- A border in front of a literal has a sign, which stands in front of the literal too. -/
theorem border_of_quote {q r : List Char} (h : Border (q ++ '"' :: r)) : Border q := by
  rcases trimStart_append_border q ('"' :: r) with ⟨hnil, -⟩ | hsplit
  · rw [Border, hnil]
    simp
  · unfold Border at h ⊢
    intro c hc
    refine h c ?_
    rw [hsplit, List.head?_append, Option.mem_def.mp hc]
    rfl

/-- **A text in front of a border is rewritten by itself.** -/
theorem mapPlain_append (hp : Bordered p) {a rest : List Char} (ha : StopsBehind p a) (hquote : '"' ∉ a)
    (hrest : Border rest) :
    mapPlain p.substitute (a ++ rest) = p.substitute a ++ mapPlain p.substitute rest := by
  rcases plain_or_quote rest with hplain | ⟨q, r, hq, rfl⟩
  · have hall : '"' ∉ a ++ rest := List.not_mem_append hquote hplain
    rw [mapPlain_of_not_mem _ hall, mapPlain_of_not_mem _ hplain, hp.substitute_append ha hrest]
  · have hall : '"' ∉ a ++ q := List.not_mem_append hquote hq
    rw [← List.append_assoc, mapPlain_append_quote _ hall, mapPlain_append_quote _ hq,
      hp.substitute_append ha (border_of_quote hrest), List.append_assoc]

theorem mapPlain_cons (hp : Bordered p) {c : Char} (hc : isBlank c = true ∨ c ∈ leadingSigns)
    (r : List Char) : mapPlain p.substitute (c :: r) = c :: mapPlain p.substitute r := by
  have hquote : '"' ≠ c := by
    rintro rfl
    exact absurd hc (by decide)
  rcases plain_or_quote r with hplain | ⟨q, u, hq, rfl⟩
  · have hall : '"' ∉ c :: r := by simp [hquote, hplain]
    rw [mapPlain_of_not_mem _ hall, mapPlain_of_not_mem _ hplain, hp.substitute_cons hc]
  · have hall : '"' ∉ c :: q := by simp [hquote, hq]
    rw [← List.cons_append, mapPlain_append_quote _ hall, mapPlain_append_quote _ hq,
      hp.substitute_cons hc]
    rfl

end Bordered

/-! ## The patterns of the notation -/

section Patterns

theorem endsWord_mark {c : Char} (hc : isBlank c = true ∨ c ∈ '(' :: borderSigns) (r : List Char) :
    EndsWord (c :: r) ∧ c ≠ '.' := by
  have hsigns : ∀ d ∈ '(' :: borderSigns, isWordChar d = false ∧ d ≠ '.' := by decide
  have hboth : isWordChar c = false ∧ c ≠ '.' := by
    rcases hc with hblank | hsign
    · refine ⟨isWordChar_of_isBlank hblank, ?_⟩
      rintro rfl
      exact absurd hblank (by decide)
    · exact hsigns c hsign
  refine ⟨?_, hboth.2⟩
  rintro d ⟨⟩
  exact hboth.1

theorem wordStart_congr {before before' : List Char} (h : outlook before = outlook before') (s : List Char) :
    wordStart before s = wordStart before' s := by
  have hword : endsInWord before.head? = endsInWord before'.head? := congrArg Prod.fst h
  unfold wordStart wordEdge
  exact congrArg (fun w => w != _) hword

theorem digits?_mark {c : Char} (hc : isBlank c = true ∨ c ∈ '(' :: borderSigns) (r : List Char) :
    digits? (c :: r) = none :=
  digits?_append_stop (endsWord_mark hc r).1 []

/-! ### Words of the clock -/

section Clock

variable {word : List Char} (hword : IsKeyword word) (out : List Char)

include hword

theorem bordered_clockWord : Bordered (clockWord word out) where
  mark before c r hc := by
    have hstrip := stripKeyword?_append_stop hword.small (endsWord_mark hc r).1 []
    obtain ⟨k, v, hv⟩ := List.exists_cons_of_ne_nil hword.nonempty
    have hnone : stripKeyword? word (c :: r) = none := by
      rw [List.nil_append] at hstrip
      rw [hstrip, hv]
      rfl
    unfold clockWord
    rw [hnone]
    split <;> rfl
  look before before' s h := by
    unfold clockWord
    rw [wordStart_congr h]

theorem stopsBehind_clockWord (a : List Char) : StopsBehind (clockWord word out) a := by
  intro pre b rest hb _ hrest
  unfold clockWord
  rw [wordStart_append _ hb, stripKeyword?_append_stop hword.small hrest.endsWord]
  split
  · cases stripKeyword? word b with
    | none => rfl
    | some r =>
      dsimp only [Option.map_some]
      rw [wordEnd_append_stop hrest.endsWord]
      split <;> rfl
  · rfl

end Clock

/-! ### Spans of time -/

theorem bordered_span (w : SpanWords) : Bordered (span w) where
  mark before c r hc := by
    unfold span
    rw [digits?_mark hc]
    split <;> rfl
  look before before' s h := by
    unfold span
    rw [wordStart_congr h]

theorem stopsBehind_span {w : SpanWords} (hw : w ∈ spanTable) (a : List Char) : StopsBehind (span w) a := by
  intro pre b rest hb _ hrest
  have hwords := isKeyword_words.2.2 w hw
  unfold span
  rw [wordStart_append _ hb, digits?_append_stop hrest.endsWord]
  split
  · cases digits? b with
    | none => rfl
    | some whole =>
      -- the count ends in front of the border, with a fraction and without one
      have hcount : (if w.fractional then extend (whole.1, whole.2 ++ rest) fractionPart? else (whole.1, whole.2 ++ rest))
          = ((if w.fractional then extend whole fractionPart? else whole).1,
            (if w.fractional then extend whole fractionPart? else whole).2 ++ rest) := by
        split
        · exact extend_append (fractionPart?_append_border hrest whole.2)
        · rfl
      simp only [Option.map_some, Option.bind_some, hcount]
      rw [read_trimStart_append_border (stripWord?_nil hwords) (fun hr => stripWord?_append_stop hwords hr.endsWord) hrest,
        Option.map_map, Option.map_map]
      rfl
  · rfl

/-! ### Quantities -/

theorem bordered_quantity : Bordered quantity where
  mark before c r hc := by
    unfold quantity quantityLiteral
    rw [digits?_mark hc]
    split <;> rfl
  look before before' s h := by
    unfold quantity quantityLiteral
    rw [wordStart_congr h]

/-- A parenthesis that stands behind a unit stands in front of the border. -/
theorem head?_append_border {rest : List Char} (hrest : Border rest) (r : List Char) :
    ((r ++ rest).head? == some '(') = (r.head? == some '(') := by
  cases r with
  | nil =>
    cases rest with
    | nil => rfl
    | cons c u => simp [(hrest.head c rfl).2.2.2.1]
  | cons c r => rfl

/-- A text that does not end in the letter of an exponent. -/
theorem stopsBehind_quantity {a : List Char} (hlast : ∀ c ∈ a.getLast?, c ∉ ['e', 'E']) :
    StopsBehind quantity a := by
  rintro pre b rest hb rfl hrest
  have hend : ∀ {n u : List Char}, b = n ++ u → u ∉ [['e'], ['E']] := by
    rintro n u rfl hu
    have hletter : ∀ c, u = [c] → c ∉ ['e', 'E'] := by
      rintro c rfl
      refine hlast c ?_
      simp
    simp only [List.mem_cons, List.not_mem_nil, or_false] at hu
    rcases hu with hu | hu <;> exact hletter _ hu (by simp)
  have hliteral : quantityLiteral pre.reverse (b ++ rest)
      = (quantityLiteral pre.reverse b).map fun m => (m.1, m.2 ++ rest) := by
    unfold quantityLiteral
    rw [wordStart_append _ hb, digits?_append_stop hrest.endsWord]
    split
    · cases hdigits : digits? b with
      | none => rfl
      | some whole =>
        have hsplit := eq_append_of_extend (eq_append_of_digits? hdigits).1 eq_append_of_fractionPart?
        simp only [Option.map_some, Option.bind_some, extend_append (fractionPart?_append_border hrest whole.2),
          extend_append (exponentPart?_append_stop hrest.endsWord (hend hsplit))]
        rw [read_trimStart_append_border stripUnit?_nil (fun hr => stripUnit?_append_stop hr.endsWord) hrest, Option.map_map,
          Option.map_map]
        rfl
    · rfl
  unfold quantity
  rw [hliteral, Option.map_map, Option.map_map]
  congr 1
  funext m
  simp only [Function.comp_apply, head?_append_border hrest, covered_append_append]
  split <;> rfl

/-! ### Units by themselves -/

/-- What is written in front of a unit by itself. -/
def unitSign (before : List Char) : List Char :=
  match (outlook before).2.2 with
  | none => []
  | some true => ['*', ' ']
  | some false => [' ', '*', ' ']

theorem bareUnit_eq (before after : List Char) :
    bareUnit before after = (unitToken before after).map fun m =>
      if before.head? == some '.' || m.2.head? == some '(' then m
      else (unitSign before ++ unitCall m.1, m.2) := by
  unfold bareUnit
  congr 1
  funext m
  dsimp only
  split
  · rfl
  · refine congrArg (fun sign => (sign ++ unitCall m.1, m.2)) ?_
    unfold unitSign outlook
    cases before with
    | nil => rfl
    | cons d u =>
      dsimp only
      cases trimStart (d :: u) with
      | nil => rfl
      | cons c v =>
        dsimp only
        by_cases hfactor : (isDigit c || c == ')' || c == '.') = true
        · by_cases hd : isBlank d = true <;> simp [hfactor, hd]
        · simp [hfactor]

theorem bordered_bareUnit : Bordered bareUnit where
  mark before c r hc := by
    have hstrip : stripUnit? (c :: r) = none := by
      have hstop := stripUnit?_append_stop (endsWord_mark hc r).1 []
      rw [stripUnit?_nil] at hstop
      exact hstop
    rw [bareUnit_eq, unitToken, hstrip, ite_self]
    rfl
  look before before' s h := by
    have hpoint : (before.head? == some '.') = (before'.head? == some '.') :=
      congrArg (fun o => o.2.1) h
    have hsign : unitSign before = unitSign before' := by
      unfold unitSign
      rw [h]
    rw [bareUnit_eq, bareUnit_eq, unitToken, unitToken, wordStart_congr h, hpoint, hsign]

theorem stopsBehind_bareUnit (a : List Char) : StopsBehind bareUnit a := by
  intro pre b rest hb _ hrest
  have htoken : unitToken pre.reverse (b ++ rest)
      = (unitToken pre.reverse b).map fun m => (m.1, m.2 ++ rest) := by
    unfold unitToken
    rw [wordStart_append _ hb, stripUnit?_append_stop hrest.endsWord]
    split <;> rfl
  rw [bareUnit_eq, bareUnit_eq, htoken, Option.map_map, Option.map_map]
  congr 1
  funext m
  simp only [Function.comp_apply, head?_append_border hrest]
  split <;> rfl

/-! ### Calls -/

theorem callSite?_mark (before : List Char) {rest : List Char} (hrest : EndsWord rest) :
    callSite? before rest = none := by
  cases rest with
  | nil => rfl
  | cons c r =>
    have hstart : isNameStart c = false := by
      rw [Bool.eq_false_iff]
      intro hname
      have hword := hrest c rfl
      rw [isWordChar_of_isNameChar (isNameChar_of_isNameStart hname)] at hword
      cases hword
    simp [callSite?, hstart]

/-- A name with the text behind the parenthesis that opens behind it. -/
def opened (name : List Char) : List Char → Option (List Char × List Char)
  | '(' :: rest => some (name, rest)
  | _ => none

theorem opened_of_head (name : List Char) {u : List Char} (hu : ∀ c ∈ u.head?, c ≠ '(') : opened name u = none := by
  cases u with
  | nil => rfl
  | cons d u => simp [opened, hu d rfl]

theorem opened_cons_append (name : List Char) (d : Char) (u rest : List Char) :
    opened name (d :: u ++ rest) = (opened name (d :: u)).map fun m => (m.1, m.2 ++ rest) := by
  by_cases hd : d = '('
  · subst hd
    rfl
  · simp [opened, hd]

/-- A call is read as if nothing followed what goes on with no word and, behind blanks, opens no parenthesis. -/
theorem callSite?_append_stop (before : List Char) {rest : List Char} (hword : EndsWord rest)
    (hparen : ∀ c ∈ (Text.trimStart rest).head?, c ≠ '(') (b : List Char) :
    callSite? before (b ++ rest) = (callSite? before b).map fun m => (m.1, m.2 ++ rest) := by
  cases b with
  | nil => exact callSite?_mark before hword
  | cons c b =>
    have hstop : ∀ d ∈ rest.head?, isNameChar d = false := fun d hd =>
      isNameChar_of_not_isWordChar (hword d hd)
    have hstart := wordStart_append before (List.cons_ne_nil c b) rest
    have htake := takeWhile_append_stop hstop (c :: b)
    have hdrop := dropWhile_append_stop hstop (c :: b)
    rw [List.cons_append] at hstart htake hdrop ⊢
    unfold callSite?
    dsimp only
    rw [htake, hdrop, hstart]
    split
    · show opened _ (Text.trimStart _) = (opened _ (Text.trimStart _)).map _
      generalize (c :: b).dropWhile isNameChar = v
      unfold Text.trimStart at hparen ⊢
      rw [List.dropWhile_append]
      cases v.dropWhile isBlank with
      | nil => exact opened_of_head _ hparen
      | cons d u => exact opened_cons_append _ d u rest
    · rfl

theorem boundCall_append_stop (isFunction : String → Bool) (before : List Char) {rest : List Char}
    (hword : EndsWord rest) (hparen : ∀ c ∈ (Text.trimStart rest).head?, c ≠ '(') {b : List Char} (hb : b ≠ []) :
    boundCall isFunction before (b ++ rest)
      = (boundCall isFunction before b).map fun m => (m.1, m.2 ++ rest) :=
  boundCall_append_of_callSite isFunction hb (callSite?_append_stop before hword hparen b) fun r _ =>
    callSite?_append_stop ('.' :: before) hword hparen r

theorem bordered_boundCall (isFunction : String → Bool) : Bordered (boundCall isFunction) where
  mark before c r hc := by
    obtain ⟨hword, hpoint⟩ := endsWord_mark hc r
    rw [boundCall_of_ne isFunction before hpoint, callSite?_mark before hword]
    rfl
  look before before' s h := boundCall_congr isFunction before before' s (congrArg Prod.fst h)

theorem stopsBehind_boundCall (isFunction : String → Bool) (a : List Char) :
    StopsBehind (boundCall isFunction) a := by
  intro pre b rest hb _ hrest
  have hparen : ∀ c ∈ borderSigns, c ≠ '(' := by decide
  exact boundCall_append_stop isFunction _ hrest.endsWord (fun c hc => hparen c (hrest c hc)) hb

end Patterns

end Worksheet.Notation
