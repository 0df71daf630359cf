import Worksheet.Proofs.Notation.Formula
import Worksheet.Proofs.Notation.Kept

/-!
# Percent signs that are operators

An expression of integers, names, parentheses and operators has none of the marks that the rules of the
notation look for, with one exception: the percent sign is an operator and the mark of a percentage. The
rules for percentages look at what stands in front of the sign only.

* **`PlainExpr`** — the expressions, with blanks wherever they may stand.
* **`HoldsPercentage`** — a sign, an operand and a percent sign in a text, as the rules for percentages look
  for them; `LooksFor.substitute_eq_self`.
* **`Calm`** — a text in which the rules for the clock and for spans of time find nothing; `calm_text`.
* **`UsesUp`** — a rule that takes a character away wherever it fits; `UsesUp.count_lt`.
* **`expand_plain_iff`** — an expression is left alone exactly if it holds no percentage.
-/

namespace Worksheet.Notation

open Text Expression

/-! ## Plain expressions -/

/-- A name that is no word of the clock, in whatever letter case. -/
structure PlainName where
  /-- Its characters. -/
  chars : List Char
  start : ∀ c ∈ chars.head?, isNameStart c = true
  run : IsRun isNameChar chars
  timeless : chars.map fold ∉ clockWords

/-- A character behind the first one of an integer. -/
def isDigitOrBar (c : Char) : Bool := isDigit c || c == '_'

/-- An integer; its digits may be set off by low lines. -/
structure PlainInteger where
  /-- Its characters. -/
  chars : List Char
  run : IsRun isDigitOrBar chars

/-- A binary operator. -/
inductive PlainOperator where
  | add
  | sub
  | mul
  | div
  | mod
  | pow

/-- How the operator is written. -/
def PlainOperator.symbol : PlainOperator → List Char
  | add => ['+']
  | sub => ['-']
  | mul => ['*']
  | div => ['/']
  | mod => ['%']
  | pow => ['*', '*']

/-- An expression as it is written, from its first character to its last one. -/
inductive PlainExpr where
  | integer (n : PlainInteger)
  | name (w : PlainName)
  | group (front : Blanks) (inside : PlainExpr) (behind : Blanks)
  | join (left : PlainExpr) (behind : Blanks) (op : PlainOperator) (front : Blanks) (right : PlainExpr)

/-- The text of an expression. -/
def PlainExpr.text : PlainExpr → List Char
  | integer n => n.chars
  | name w => w.chars
  | group front inside behind => '(' :: (front.chars ++ (inside.text ++ behind.chars) ++ [')'])
  | join left behind op front right =>
    left.text ++ behind.chars ++ (op.symbol ++ (front.chars ++ right.text))

/-! ## Percentages in a text -/

/-- The signs that a percentage may stand behind. -/
def percentSigns : List Char := ['*', '/', '+', '-']

/-- Is there a sign and, behind blanks, an operand with a percent sign directly behind it? -/
def HoldsPercentage (s : List Char) : Prop :=
  ∃ pre sign blanks operand rest, s = pre ++ sign :: (blanks ++ (operand ++ '%' :: rest)) ∧
    sign ∈ percentSigns ∧ (∀ c ∈ blanks, isBlank c = true) ∧ IsRun isOperandChar operand

section Percentages

variable {signs s : List Char} {p : Pattern (List Char)}

/-- Where no percentage stands the rules for percentages find nothing. -/
theorem LooksFor.substitute_eq_self (hp : LooksFor signs p) (hsigns : signs ⊆ percentSigns)
    (hs : ¬ HoldsPercentage s) : p.substitute s = s := by
  refine Pattern.substitute_eq_self_of_none fun pre c r hsplit => ?_
  rw [hp.none_iff]
  cases hread : percentage? signs (c :: r) with
  | none => rfl
  | some m =>
    obtain ⟨hsign, hoperand, blanks, hblanks, hafter⟩ := percentage?_eq_some_iff.mp hread
    exact absurd ⟨pre, m.1, blanks, m.2.1, m.2.2, by rw [hsplit, hafter], hsigns hsign, hblanks, hoperand⟩ hs

/-! ## Characters that are used up -/

/-- The same text, or one with less characters `m`. -/
def SameOrFewer (m : Char) (s t : List Char) : Prop := t = s ∨ t.count m < s.count m

theorem SameOrFewer.le {m : Char} {t : List Char} (h : SameOrFewer m s t) : t.count m ≤ s.count m := by
  rcases h with rfl | hlt
  · exact Nat.le_refl _
  · exact Nat.le_of_lt hlt

theorem partwise_sameOrFewer (m : Char) : Partwise (SameOrFewer m) where
  refl _ := .inl rfl
  trans hst htu := by
    rcases hst with rfl | hlt
    · exact htu
    · exact .inr (Nat.lt_of_le_of_lt htu.le hlt)
  append ha hb := by
    have hle := And.intro ha.le hb.le
    unfold SameOrFewer
    rw [List.count_append, List.count_append]
    rcases ha with rfl | ha
    · rcases hb with rfl | hb
      · exact .inl rfl
      · exact .inr (Nat.add_lt_add_left hb _)
    · exact .inr (Nat.add_lt_add_of_lt_of_le ha hle.2)

/-- Wherever it fits the pattern writes less characters `m` than it covers. -/
def UsesUp (m : Char) (p : Pattern (List Char)) : Prop :=
  Keeps (fun covered out => out.count m < covered.count m) p

theorem UsesUp.keeps {m : Char} (hp : UsesUp m p) : Keeps (SameOrFewer m) p := by
  intro before after out rest h
  obtain ⟨covered, hne, hsplit, hlt⟩ := hp h
  exact ⟨covered, hne, hsplit, .inr hlt⟩

/-- A rule that fits somewhere takes a character away, if not there, as it has passed over the place, then in
front of it. -/
theorem UsesUp.count_lt {m : Char} (hp : UsesUp m p) {pre r before : List Char} {c : Char}
    (hfit : p (pre.reverse ++ before) (c :: r) ≠ none) :
    (substituteFrom p before (pre ++ c :: r)).count m < (pre ++ c :: r).count m := by
  have hkeeps := fun before s => (hp.keeps.substituteFrom (partwise_sameOrFewer m) before s).le
  -- at the first place where the rule fits it takes a character away
  have hfirst : ∀ {before s found}, p before s = some found →
      (substituteFrom p before s).count m < s.count m := by
    intro before s found h
    obtain ⟨covered, hne, rfl, hlt⟩ := hp h
    rw [substituteFrom_of_fit hne h, List.count_append, List.count_append]
    exact Nat.add_lt_add_of_lt_of_le hlt (hkeeps _ _)
  induction pre generalizing before with
  | nil =>
    obtain ⟨found, hfound⟩ := Option.ne_none_iff_exists'.mp hfit
    exact hfirst hfound
  | cons d pre ih =>
    rw [List.cons_append]
    cases hd : p before (d :: (pre ++ c :: r)) with
    | some found => exact hfirst hd
    | none =>
      rw [List.reverse_cons, List.append_assoc] at hfit
      have hrest := ih hfit
      rw [substituteFrom_of_none hd, List.count_cons, List.count_cons]
      exact Nat.add_lt_add_right hrest _

theorem LooksFor.usesUp (hp : LooksFor signs p) : UsesUp '%' p := by
  intro before after out rest h
  obtain ⟨sign, operand, hread, lead, hlead, rfl⟩ := hp.out h
  obtain ⟨-, hoperand, blanks, hblanks, rfl⟩ := percentage?_eq_some_iff.mp hread
  have hmem : '%' ∉ operand := by
    intro hmem
    exact absurd (hoperand.all _ hmem) (by decide)
  have hsigns : ∀ c ∈ leadChars, c ≠ '%' := by decide
  have hnone : '%' ∉ lead ++ operand ++ "/100)".toList := by
    rw [List.mem_append, List.mem_append, not_or, not_or]
    exact ⟨⟨fun h => hsigns _ (hlead _ h) rfl, hmem⟩, by decide⟩
  have hone : '%' ∈ sign :: (blanks ++ (operand ++ ['%'])) := by simp
  refine ⟨sign :: (blanks ++ (operand ++ ['%'])), by simp, by simp, ?_⟩
  exact (List.count_eq_zero.mpr hnone).trans_lt (List.count_pos_iff.mpr hone)

/-- A percentage behind one of its signs is found by the rule, or the rule finds another one. -/
theorem LooksFor.count_lt (hp : LooksFor signs p) {pre blanks operand rest : List Char} {sign : Char}
    (hsign : sign ∈ signs) (hblanks : ∀ c ∈ blanks, isBlank c = true) (hoperand : IsRun isOperandChar operand) :
    (p.substitute (pre ++ sign :: (blanks ++ (operand ++ '%' :: rest)))).count '%'
      < (pre ++ sign :: (blanks ++ (operand ++ '%' :: rest))).count '%' := by
  refine hp.usesUp.count_lt ?_
  rw [ne_eq, hp.none_iff, percentage?_eq_some_iff.mpr ⟨hsign, hoperand, blanks, hblanks, rfl⟩]
  exact Option.some_ne_none _

/-- The rules for percentages use up a percent sign of every text that holds a percentage. -/
theorem count_percentages_lt (hs : HoldsPercentage s) :
    (percentStep.substitute (percentOf.substitute s)).count '%' < s.count '%' := by
  have hsame := partwise_sameOrFewer '%'
  have hstep := fun t => (looksFor_percentStep.usesUp.keeps.substitute hsame t).le
  obtain ⟨pre, sign, blanks, operand, rest, rfl, hsign, hblanks, hoperand⟩ := hs
  have hcases : ∀ c ∈ percentSigns, c ∈ ['*', '/'] ∨ c ∈ ['+', '-'] := by decide
  rcases hcases sign hsign with hfactor | hsummand
  · exact Nat.lt_of_le_of_lt (hstep _) (looksFor_percentOf.count_lt hfactor hblanks hoperand)
  · -- the other rule comes first, but what it does not find it does not change
    rcases looksFor_percentOf.usesUp.keeps.substitute hsame _ with heq | hlt
    · rw [heq]
      exact looksFor_percentStep.count_lt hsummand hblanks hoperand
    · exact Nat.lt_of_le_of_lt (hstep _) hlt

end Percentages

/-! ## Texts without words to replace -/

/-- A text in which no word is one of the clock and no letter follows a number, not even behind blanks. -/
structure Calm (s : List Char) : Prop where
  clock : ∀ v ∈ words s, v.map fold ∉ clockWords
  span : ∀ pre c u d r, s = pre ++ c :: (u ++ d :: r) → isDecimal c = true →
    (∀ e ∈ pre.getLast?, isWordChar e = false) →
    (∀ e ∈ u, isDecimal e = true ∨ e = '.' ∨ isBlank e = true) → isSmall (fold d) = false

/-- The characters that may stand between integers and names, apart from blanks. -/
def plainMarks : List Char := "+-*/%()".toList

theorem plainMarks_spec : ∀ m ∈ plainMarks, isDecimal m = false ∧ m ≠ '.' ∧ isBlank m = false ∧
    isWordChar m = false ∧ isSmall (fold m) = false := by
  decide

section Calm

variable {s t : List Char}

/-- Nothing is read across an operator or a parenthesis. -/
theorem Calm.append_cons {m : Char} (hm : m ∈ plainMarks) (hs : Calm s) (ht : Calm t) : Calm (s ++ m :: t) := by
  obtain ⟨hdecimal, hpoint, hblank, hword, hsmall⟩ := plainMarks_spec m hm
  refine ⟨fun v hv => ?_, fun pre c u d r hsplit hc hedge hu => ?_⟩
  · rw [words_append_cons hword] at hv
    exact (List.mem_append.mp hv).elim (hs.clock v) (ht.clock v)
  rcases cut_cases hsplit with ⟨a, rfl, hrest⟩ | ⟨-, rfl, -⟩ | ⟨a, rfl, hta⟩
  · rcases cut_cases hrest.symm with ⟨b, rfl, -⟩ | ⟨-, rfl, -⟩ | ⟨b, rfl, -⟩
    · -- all of it stands in front of the mark
      exact hs.span pre c u d b rfl hc hedge hu
    · exact hsmall
    · -- the mark would be one of the characters between the number and the letter
      have hmark := hu m (by simp)
      rw [hdecimal, hblank] at hmark
      simp [hpoint] at hmark
  · rw [hdecimal] at hc
    cases hc
  · -- all of it stands behind the mark
    refine ht.span a c u d r hta hc (fun e he => hedge e ?_) hu
    rw [List.getLast?_append, List.getLast?_cons, Option.mem_def.mp he]
    rfl

theorem words_cons_blank {c : Char} (hc : isBlank c = true) (s : List Char) : words (c :: s) = [] :: words s := by
  have hcons := words_append_cons (isWordChar_of_isBlank hc) [] s
  rwa [words_eq_singleton (w := []) (by simp)] at hcons

theorem eq_nil_of_mem_words_blanks {b v : List Char} (hb : ∀ c ∈ b, isBlank c = true)
    (hv : v ∈ words b) : v = [] := by
  induction b with
  | nil => simpa [words_eq_singleton (w := [])] using hv
  | cons c b ih =>
    obtain ⟨hc, hb⟩ := List.forall_mem_cons.mp hb
    rw [words_cons_blank hc] at hv
    exact (List.mem_cons.mp hv).elim id (ih hb)

/-- A word with blanks around it is the only one. -/
theorem mem_words_of_blanks {front w behind v : List Char} (hfront : ∀ c ∈ front, isBlank c = true)
    (hw : ∀ c ∈ w, isWordChar c = true) (hbehind : ∀ c ∈ behind, isBlank c = true)
    (hv : v ∈ words (front ++ (w ++ behind))) : v = [] ∨ v = w := by
  induction front with
  | cons c front ih =>
    obtain ⟨hc, hfront⟩ := List.forall_mem_cons.mp hfront
    rw [List.cons_append, words_cons_blank hc] at hv
    exact (List.mem_cons.mp hv).elim .inl (ih hfront)
  | nil =>
    rw [List.nil_append] at hv
    cases behind with
    | nil =>
      rw [List.append_nil, words_eq_singleton hw] at hv
      exact .inr (List.mem_singleton.mp hv)
    | cons c behind =>
      obtain ⟨hc, hbehind⟩ := List.forall_mem_cons.mp hbehind
      rw [words_append_cons (isWordChar_of_isBlank hc), words_eq_singleton hw] at hv
      exact (List.mem_cons.mp hv).elim .inr fun h => .inl (eq_nil_of_mem_words_blanks hbehind h)

/-- A word is calm with blanks around it, unless it is one of the clock or has letters behind a digit that it
begins with. -/
theorem calm_word {front w behind : List Char} (hfront : ∀ c ∈ front, isBlank c = true)
    (hw : ∀ c ∈ w, isWordChar c = true) (hbehind : ∀ c ∈ behind, isBlank c = true) (hclock : w.map fold ∉ clockWords)
    (hletters : (∀ c ∈ w.head?, isDecimal c = false) ∨ ∀ c ∈ w, isSmall (fold c) = false) :
    Calm (front ++ (w ++ behind)) where
  clock v hv := by
    rcases mem_words_of_blanks hfront hw hbehind hv with rfl | rfl
    · decide
    · exact hclock
  span := by
    intro pre c u d r hsplit hc hedge hu
    rcases hletters with hfirst | hsmall
    · -- a digit in the word stands behind another character of it
      exfalso
      have hblank : ∀ {b : List Char}, (∀ e ∈ b, isBlank e = true) → c ∉ b := by
        intro b hb hmem
        have hc' := hb c hmem
        rw [isBlank_of_isDecimal hc] at hc'
        cases hc'
      obtain ⟨a, b, rfl, rfl⟩ := exists_of_split hsplit (hblank hfront) (hblank hbehind)
      cases a using List.reverseRecOn with
      | nil =>
        rw [hfirst c rfl] at hc
        cases hc
      | append_singleton a e =>
        have hword := hw e (by simp)
        rw [hedge e (by rw [← List.append_assoc]; exact List.getLast?_concat)] at hword
        cases hword
    · have hd : d ∈ front ++ (w ++ behind) := by
        rw [hsplit]
        simp
      rw [List.mem_append, List.mem_append] at hd
      rcases hd with hd | hd | hd
      · exact isSmall_fold_of_isBlank (hfront d hd)
      · exact hsmall d hd
      · exact isSmall_fold_of_isBlank (hbehind d hd)

theorem Calm.clockStage (hs : Calm s) (hquote : '"' ∉ s) (now : DateTime) : clockStage now s = s :=
  clockStage_eq_self now hquote hs.clock

theorem Calm.spanStage (hs : Calm s) (hquote : '"' ∉ s) : spanStage s = s := by
  unfold Notation.spanStage substituteAll
  rw [mapPlain_of_not_mem _ hquote]
  refine foldl_substitute_eq_self fun p hp => ?_
  obtain ⟨w, hw, rfl⟩ := List.mem_map.mp hp
  refine Pattern.substitute_eq_self_of_none fun pre c r hsplit => ?_
  cases hmatch : Notation.span w pre.reverse (c :: r) with
  | none => rfl
  | some m =>
    obtain ⟨count, blanks, v, hcount, -, hblanks, ⟨k, hk, hv⟩, hafter, hstart, -⟩ := covered_span hw hmatch
    have hkeyword := isKeyword_words.2.2 w hw k hk
    obtain ⟨d, v, rfl⟩ : ∃ d v', v = d :: v' := by
      refine List.exists_cons_of_ne_nil ?_
      rintro rfl
      exact hkeyword.nonempty hv.symm
    have hsmall : isSmall (fold d) = true := hkeyword.small _ (by rw [← hv]; exact List.mem_cons_self)
    -- the match would be a digit at the edge of a word, with the letter of a word for a span behind the count
    have hall := hcount.forall_mem
    obtain ⟨digits, more, hdigits, rfl, -⟩ := hcount.digits
    obtain ⟨e, digits, rfl⟩ := List.exists_cons_of_ne_nil hdigits.nonempty
    obtain ⟨rfl, rfl⟩ := List.cons.inj hafter
    have hc := hdigits.all c List.mem_cons_self
    have hletter := hs.span pre c (digits ++ more ++ blanks) d (v ++ m.2) (by rw [hsplit]; simp) hc
      (edge_of_wordStart hstart (isWordChar_of_isDecimal hc)) fun e he => by
        rcases List.mem_append.mp he with he | he
        · exact (hall e (List.mem_cons_of_mem c he)).imp_right .inl
        · exact .inr (.inr (hblanks e he))
    rw [hletter] at hsmall
    cases hsmall

end Calm

/-! ## Plain expressions are calm -/

theorem plainOperator_symbol (op : PlainOperator) : ∃ m ∈ plainMarks, op.symbol = [m] ∨ op.symbol = [m, m] := by
  cases op
  · exact ⟨'+', by decide, .inl rfl⟩
  · exact ⟨'-', by decide, .inl rfl⟩
  · exact ⟨'*', by decide, .inl rfl⟩
  · exact ⟨'/', by decide, .inl rfl⟩
  · exact ⟨'%', by decide, .inl rfl⟩
  · exact ⟨'*', by decide, .inr rfl⟩

theorem isDigitOrBar_spec {c : Char} (h : isDigitOrBar c = true) :
    isSmall (fold c) = false ∧ isNameChar c = true := by
  rw [isDigitOrBar, Bool.or_eq_true, beq_iff_eq] at h
  rcases h with hdigit | rfl
  · exact ⟨isSmall_fold_of_isDecimal (isDecimal_of_isDigit hdigit), isNameChar_of_isDigit hdigit⟩
  · decide

theorem calm_blanks {blanks : List Char} (h : ∀ c ∈ blanks, isBlank c = true) : Calm blanks := by
  have hnil : ∀ c ∈ ([] : List Char), isBlank c = true := by simp
  have hword := calm_word (w := []) h (by simp) hnil (by decide) (.inl (by simp))
  rwa [List.nil_append, List.append_nil] at hword

theorem calm_text (e : PlainExpr) {front behind : List Char} (hfront : ∀ c ∈ front, isBlank c = true)
    (hbehind : ∀ c ∈ behind, isBlank c = true) : Calm (front ++ (e.text ++ behind)) := by
  induction e generalizing front behind with
  | integer n =>
    have hchar := fun c hc => isDigitOrBar_spec (n.run.all c hc)
    -- the words of the clock are of letters, and none stands in an integer
    refine calm_word hfront (fun c hc => isWordChar_of_isNameChar (hchar c hc).2) hbehind (fun hclock => ?_)
      (.inr fun c hc => (hchar c hc).1)
    have hkeywords : ∀ w ∈ clockWords, IsKeyword w := by decide
    obtain ⟨c, hc⟩ := List.exists_mem_of_ne_nil _ n.run.nonempty
    have hsmall := (hkeywords _ hclock).small _ (List.mem_map_of_mem hc)
    rw [(hchar c hc).1] at hsmall
    cases hsmall
  | name w =>
    refine calm_word hfront (fun c hc => isWordChar_of_isNameChar (w.run.all c hc)) hbehind w.timeless (.inl ?_)
    exact fun c hc => isDecimal_of_isNameStart (w.start c hc)
  | group f inside b ih =>
    have hinside := (ih f.blank b.blank).append_cons (m := ')') (by decide) (calm_blanks hbehind)
    have hgroup := (calm_blanks hfront).append_cons (m := '(') (by decide) hinside
    simpa [PlainExpr.text] using hgroup
  | join left b op f right ihl ihr =>
    have hleft := ihl hfront b.blank
    have hright := ihr f.blank hbehind
    have hnil : Calm [] := calm_blanks (by simp)
    -- an operator is one mark or the same mark twice, with nothing in between
    obtain ⟨m, hm, hsymbol | hsymbol⟩ := plainOperator_symbol op
    · have hjoin := hleft.append_cons hm hright
      simpa [PlainExpr.text, hsymbol] using hjoin
    · have hjoin := hleft.append_cons hm (hnil.append_cons hm hright)
      simpa [PlainExpr.text, hsymbol] using hjoin

/-! ## The characters of plain expressions -/

/-- A character of a plain expression. -/
def isPlainChar (c : Char) : Bool := isNameChar c || isBlank c || plainMarks.contains c

theorem isPlainChar_of_mem_text (e : PlainExpr) : ∀ c ∈ e.text, isPlainChar c = true := by
  have hmarks : ∀ c ∈ plainMarks, isPlainChar c = true := by decide
  have hblanks : ∀ {b : Blanks}, ∀ c ∈ b.chars, isPlainChar c = true := fun {b} c hc => by
    simp [isPlainChar, b.blank c hc]
  induction e with
  | integer n =>
    intro c hc
    simp [isPlainChar, (isDigitOrBar_spec (n.run.all c hc)).2]
  | name w =>
    intro c hc
    have hname : isNameChar c = true := w.run.all c hc
    simp [isPlainChar, hname]
  | group f inside b ih =>
    simp only [PlainExpr.text, List.forall_mem_cons, List.forall_mem_append]
    exact ⟨hmarks _ (by decide), ⟨hblanks, ih, hblanks⟩, hmarks _ (by decide), by simp⟩
  | join left b op f right ihl ihr =>
    simp only [PlainExpr.text, List.forall_mem_append]
    refine ⟨⟨ihl, hblanks⟩, fun c hc => hmarks c ?_, hblanks, ihr⟩
    obtain ⟨m, hm, hsymbol | hsymbol⟩ := plainOperator_symbol op
    all_goals
      rw [hsymbol] at hc
      simp only [List.mem_cons, List.not_mem_nil, or_false, or_self] at hc
      rw [hc]
      exact hm

theorem not_mem_text_of_plain (e : PlainExpr) {c : Char} (hc : isPlainChar c = false) : c ∉ e.text := by
  intro hmem
  rw [isPlainChar_of_mem_text e c hmem] at hc
  cases hc

/-- An expression begins and ends with something else than a blank. -/
theorem ends_of_text (e : PlainExpr) : (∃ c r, e.text = c :: r ∧ isBlank c = false) ∧
    ∃ u c, e.text = u ++ [c] ∧ isBlank c = false := by
  have hrun : ∀ {s : List Char}, IsRun isNameChar s → (∃ c r, s = c :: r ∧ isBlank c = false) ∧
      ∃ u c, s = u ++ [c] ∧ isBlank c = false := by
    intro s hs
    have hblank := fun c hc => isBlank_of_isNameChar (hs.all c hc)
    obtain ⟨c, r, hfirst⟩ := List.exists_cons_of_ne_nil hs.nonempty
    obtain ⟨u, d, hlast⟩ := (List.eq_nil_or_concat s).resolve_left hs.nonempty
    rw [List.concat_eq_append] at hlast
    exact ⟨⟨c, r, hfirst, hblank c (by simp [hfirst])⟩, u, d, hlast, hblank d (by simp [hlast])⟩
  induction e with
  | integer n => exact hrun (n.run.mono fun c hc => (isDigitOrBar_spec hc).2)
  | name w => exact hrun w.run
  | group f inside b ih =>
    exact ⟨⟨'(', _, rfl, by decide⟩, '(' :: (f.chars ++ (inside.text ++ b.chars)), ')', rfl, by decide⟩
  | join left b op f right ihl ihr =>
    obtain ⟨c, r, hfirst, hc⟩ := ihl.1
    obtain ⟨u, d, hlast, hd⟩ := ihr.2
    refine ⟨⟨c, _, by rw [PlainExpr.text, hfirst]; rfl, hc⟩, ?_⟩
    refine ⟨left.text ++ b.chars ++ (op.symbol ++ (f.chars ++ u)), d, ?_, hd⟩
    simp [PlainExpr.text, hlast]

theorem trim_blanks_text (e : PlainExpr) (lead trail : Blanks) :
    trim (lead.chars ++ (e.text ++ trail.chars)) = e.text := by
  obtain ⟨⟨c, r, hfirst, hc⟩, u, d, hlast, hd⟩ := ends_of_text e
  have hstart : trimStart (lead.chars ++ (e.text ++ trail.chars)) = e.text ++ trail.chars := by
    rw [trimStart, List.dropWhile_append_of_pos lead.blank, hfirst]
    exact List.dropWhile_cons_of_neg (by simp [hc])
  have htrail : trimEnd trail.chars = [] := by
    rw [trimEnd, List.reverse_eq_nil_iff, List.dropWhile_eq_nil_iff]
    exact fun c hc => trail.blank c (List.mem_reverse.mp hc)
  rw [trim, hstart, trimEnd_append (by rw [hlast, List.getLast?_concat]) hd, htrail, List.append_nil]

theorem trim_text (e : PlainExpr) : trim e.text = e.text := by
  have hblanks := trim_blanks_text e ⟨[], by simp⟩ ⟨[], by simp⟩
  rwa [List.nil_append, List.append_nil] at hblanks

/-! ## Expanding plain expressions -/

theorem expand_eq_foldl (o : Options) (s : List Char) :
    expand o s = (Rule.all.drop 5).foldl (fun s r => r.apply o s) (operatorStage (trim s)) := by
  have hfront : (Rule.all.take 5).foldl (fun s r => r.apply o s) (trim s) = operatorStage (trim s) := rfl
  rw [← hfront, ← List.foldl_append, List.take_append_drop]
  rfl

section Expand

variable {o : Options} (e : PlainExpr)

/-- Of the rules for operators only those for percentages look for something that an expression can hold. -/
theorem operatorStage_text : operatorStage e.text = percentStep.substitute (percentOf.substitute e.text) := by
  have hmarks : ∀ m ∈ signMarks, isPlainChar m = false := by decide
  have hsigns : ∀ c ∈ e.text, isSignMark c = false := by
    intro c hc
    rw [Bool.eq_false_iff]
    exact fun hmark => not_mem_text_of_plain e (hmarks c (List.contains_iff_mem.mp hmark)) hc
  have hquote : '"' ∉ e.text := not_mem_text_of_plain e (by decide)
  rw [operatorStage_of_signMarks hsigns]
  unfold substituteAll
  rw [mapPlain_of_not_mem _ hquote]
  exact mapPlain_of_not_mem _ (percentOf_quoteless.substitute hquote)

theorem operatorStage_of_not_holdsPercentage (h : ¬ HoldsPercentage e.text) : operatorStage e.text = e.text := by
  rw [operatorStage_text, looksFor_percentOf.substitute_eq_self (by decide) h,
    looksFor_percentStep.substitute_eq_self (by decide) h]

/-- The other rules find nothing in an expression, as long as no units are looked for. -/
theorem expand_text_of_not_holdsPercentage (hunits : o.naturalUnits = false) (h : ¬ HoldsPercentage e.text) :
    expand o e.text = e.text := by
  have hnone : ∀ {c : Char}, isPlainChar c = false → c ∉ e.text := not_mem_text_of_plain e
  have hcalm : Calm e.text := by
    have hnil : ∀ c ∈ ([] : List Char), isBlank c = true := by simp
    have htext := calm_text e hnil hnil
    rwa [List.nil_append, List.append_nil] at htext
  have hlate : lateStages o e.text = e.text := by
    have hwithin : unitsWithin false o e.text = e.text := by
      unfold unitsWithin
      rw [hunits]
      rfl
    unfold lateStages
    rw [hcalm.clockStage (hnone (by decide)), hcalm.spanStage (hnone (by decide)), hwithin,
      stackStage_eq_self (hnone (by decide))]
  have hmark : e.text.head? ≠ some functionMark := fun hhead =>
    hnone (c := functionMark) (by decide) (List.mem_of_mem_head? hhead)
  rw [expand_eq_expandStages o (trim_text e) hmark, expandStages, operatorStage_of_not_holdsPercentage e h,
    substituteAll_ratio (hnone (by decide)), decimals_eq_self (hnone (by decide)), hlate]

/-- What is taken for a percentage does not come back. -/
theorem expand_text_ne_of_holdsPercentage (h : HoldsPercentage e.text) :
    (expand o e.text).count '%' < e.text.count '%' := by
  -- the later rules leave the marks of operators alone, so those behind the operator stage are counted
  have hsame := sameOf_foldl (fun r hr => operandRules_spare hr) o (operatorStage e.text)
  rw [← List.count_filter (p := isOperatorMark) (by decide), expand_eq_foldl, trim_text,
    show ((Rule.all.drop 5).foldl (fun s r => r.apply o s) (operatorStage e.text)).filter isOperatorMark
      = (operatorStage e.text).filter isOperatorMark from hsame, List.count_filter (by decide), operatorStage_text]
  exact count_percentages_lt h

/-- **A plain expression is left alone, apart from the blanks around it, exactly if it holds no percentage.**
A remainder whose left operand is a single integer or name behind one of the other operators, with the
percent sign directly behind it, is taken for one. -/
theorem expand_plain_iff (hunits : o.naturalUnits = false) (lead trail : Blanks) :
    expand o (lead.chars ++ (e.text ++ trail.chars)) = e.text ↔ ¬ HoldsPercentage e.text := by
  have htrimmed : expand o (lead.chars ++ (e.text ++ trail.chars)) = expand o e.text := by
    rw [expand_eq_foldl, expand_eq_foldl, trim_blanks_text, trim_text]
  rw [htrimmed]
  constructor
  · intro heq hholds
    have hlt := expand_text_ne_of_holdsPercentage (o := o) e hholds
    rw [heq] at hlt
    exact absurd hlt (Nat.lt_irrefl _)
  · exact expand_text_of_not_holdsPercentage e hunits

/-- A remainder with nothing in front of it is left alone. -/
theorem expand_plain_iff_remainder :
    let o : Options := ⟨.midnight ⟨2024, 1, 31, by decide⟩, false⟩
    o.naturalUnits = false ∧ expand o " 7%3".toList = "7%3".toList := by
  intro o
  let e : PlainExpr := .join (.integer ⟨['7'], by decide, by decide⟩) ⟨[], by simp⟩ .mod ⟨[], by simp⟩
    (.integer ⟨['3'], by decide, by decide⟩)
  refine ⟨rfl, (expand_plain_iff (o := o) e rfl ⟨[' '], by decide⟩ ⟨[], by simp⟩).mpr ?_⟩
  rintro ⟨pre, sign, blanks, operand, rest, hsplit, hsign, -⟩
  have hmem : sign ∈ "7%3".toList := by
    rw [show "7%3".toList = pre ++ sign :: (blanks ++ (operand ++ '%' :: rest)) from hsplit]
    simp
  have hnone : ∀ c ∈ percentSigns, c ∉ "7%3".toList := by decide
  exact hnone sign hsign hmem

/-- Behind a plus sign the same remainder is taken for a percentage. -/
theorem expand_remainder_behind_plus :
    let o : Options := ⟨.midnight ⟨2024, 1, 31, by decide⟩, false⟩
    let ten : PlainExpr := .integer ⟨"10".toList, by decide, by decide⟩
    let remainder : PlainExpr := .join (.integer ⟨['7'], by decide, by decide⟩) ⟨[], by simp⟩ .mod ⟨[], by simp⟩
      (.integer ⟨['3'], by decide, by decide⟩)
    let sum : PlainExpr := .join ten ⟨[' '], by decide⟩ .add ⟨[' '], by decide⟩ remainder
    sum.text = "10 + 7%3".toList ∧ expand o sum.text = "10 *(1+7/100)3".toList := by
  exact ⟨rfl, by decide +kernel⟩

end Expand

end Worksheet.Notation
