import Mathlib.Data.List.DropRight
import Mathlib.Data.List.TakeWhile
import Worksheet.Text.Class

/-!
# Names, digits and blanks

The characters of names are ASCII, so that no blank is one of them and every one of them is a word
character; digits of any script are word characters and no blanks either. An identifier is therefore
left as it is by trimming (`trimmed_of_identifier`), and what is trimmed once is trimmed
(`trim_trim`).
-/

namespace Worksheet.Text

/-- What is said of all characters of a text is decided by going through the text. Batteries has an
instance for `∀ c : Char`, which goes through all characters there are and hides this one. -/
instance (priority := high) decidableForallMem {p : Char → Prop} [DecidablePred p]
    (s : List Char) : Decidable (∀ c ∈ s, p c) :=
  List.decidableBAll p s

theorem toNat_of_isNameChar {c : Char} (h : isNameChar c = true) :
    (97 ≤ c.toNat ∧ c.toNat ≤ 122) ∨ (65 ≤ c.toNat ∧ c.toNat ≤ 90) ∨
      (48 ≤ c.toNat ∧ c.toNat ≤ 57) ∨ c.toNat = 95 := by
  have hlow : ∀ d : Char, d ≤ c ↔ d.toNat ≤ c.toNat := fun d => Iff.rfl
  have hhigh : ∀ d : Char, c ≤ d ↔ c.toNat ≤ d.toNat := fun d => Iff.rfl
  simp only [isNameChar, isLetter, isDigit, Bool.or_eq_true, Bool.and_eq_true, decide_eq_true_eq,
    beq_iff_eq, hlow, hhigh] at h
  rcases h with ((h | h) | h) | rfl
  · exact Or.inl h
  · exact Or.inr (Or.inl h)
  · exact Or.inr (Or.inr (Or.inl h))
  · exact Or.inr (Or.inr (Or.inr rfl))

theorem isBlank_of_isNameChar {c : Char} (h : isNameChar c = true) : isBlank c = false := by
  have hcode := toNat_of_isNameChar h
  simp only [isBlank, Bool.or_eq_false_iff, Bool.and_eq_false_iff, decide_eq_false_iff_not,
    beq_eq_false_iff_ne]
  omega

theorem isWordChar_of_isNameChar {c : Char} (h : isNameChar c = true) : isWordChar c = true := by
  have hcode := toNat_of_isNameChar h
  rw [isWordChar, if_pos (by omega), h]

/-- A blank goes on with no name. -/
theorem isNameChar_of_isBlank {c : Char} (h : isBlank c = true) : isNameChar c = false := by
  rw [Bool.eq_false_iff]
  intro hname
  rw [isBlank_of_isNameChar hname] at h
  cases h

/-- What goes on with no word goes on with no name. -/
theorem isNameChar_of_not_isWordChar {c : Char} (h : isWordChar c = false) : isNameChar c = false := by
  rw [Bool.eq_false_iff]
  intro hname
  rw [isWordChar_of_isNameChar hname] at h
  cases h

theorem isNameChar_of_isLetter {c : Char} (h : isLetter c = true) : isNameChar c = true := by
  simp [isNameChar, h]

theorem isNameChar_of_isNameStart {c : Char} (h : isNameStart c = true) : isNameChar c = true := by
  simp only [isNameStart, isNameChar, Bool.or_eq_true] at h ⊢
  rcases h with h | h
  · exact Or.inl (Or.inl h)
  · exact Or.inr h

/-! ## Digits of all scripts -/

theorem toNat_of_isDigit {c : Char} (h : isDigit c = true) : 48 ≤ c.toNat ∧ c.toNat ≤ 57 := by
  simp only [isDigit, Bool.and_eq_true, decide_eq_true_eq] at h
  exact h

theorem ne_of_isDigit {c d : Char} (hc : isDigit c = true) (hd : isDigit d = false) : c ≠ d := by
  rintro rfl
  rw [hc] at hd
  cases hd

theorem isNameChar_of_isDigit {c : Char} (h : isDigit c = true) : isNameChar c = true := by
  simp [isNameChar, h]

theorem isDecimal_of_isDigit {c : Char} (h : isDigit c = true) : isDecimal c = true := by
  have hcode := toNat_of_isDigit h
  rw [isDecimal, if_pos (by omega)]
  exact h

/-- The ranges of digits hold no blanks. -/
theorem digitRanges_spec : ∀ r ∈ digitRanges, 0x660 ≤ r.1 ∧
    (∀ b ∈ [0x1680, 0x2028, 0x2029, 0x202F, 0x205F, 0x3000], ¬ (r.1 ≤ b ∧ b ≤ r.2)) ∧
    (r.2 < 0x2000 ∨ 0x200A < r.1) := by
  decide +kernel

theorem digitRanges_wordRanges : (digitRanges.all fun r =>
    wordRanges.any fun w => Nat.ble w.1 r.1 && Nat.ble r.2 w.2) = true := by
  decide +kernel

theorem exists_range_of_isDecimal {c : Char} (h : isDecimal c = true) (hdigit : isDigit c = false) :
    ∃ r ∈ digitRanges, r.1 ≤ c.toNat ∧ c.toNat ≤ r.2 := by
  unfold isDecimal at h
  split at h
  · rw [hdigit] at h
    cases h
  · simpa [inRanges] using h

theorem le_toNat_of_isDecimal {c : Char} (h : isDecimal c = true) (hdigit : isDigit c = false) :
    0x660 ≤ c.toNat := by
  obtain ⟨r, hr, hlow, -⟩ := exists_range_of_isDecimal h hdigit
  exact Nat.le_trans (digitRanges_spec r hr).1 hlow

theorem isBlank_of_isDecimal {c : Char} (h : isDecimal c = true) : isBlank c = false := by
  rw [Bool.eq_false_iff]
  intro hblank
  simp only [isBlank, Bool.or_eq_true, Bool.and_eq_true, decide_eq_true_eq, beq_iff_eq] at hblank
  cases hdigit : isDigit c with
  | true =>
    have hcode := toNat_of_isDigit hdigit
    omega
  | false =>
    obtain ⟨r, hr, hlow, hhigh⟩ := exists_range_of_isDecimal h hdigit
    obtain ⟨hfirst, hsingle, hspaces⟩ := digitRanges_spec r hr
    simp only [List.mem_cons, List.not_mem_nil, or_false, forall_eq_or_imp, forall_eq] at hsingle
    omega

theorem isWordChar_of_isDecimal {c : Char} (h : isDecimal c = true) : isWordChar c = true := by
  cases hdigit : isDigit c with
  | true => exact isWordChar_of_isNameChar (isNameChar_of_isDigit hdigit)
  | false =>
    obtain ⟨r, hr, hlow, hhigh⟩ := exists_range_of_isDecimal h hdigit
    obtain ⟨w, hw, hcovers⟩ := List.any_eq_true.mp (List.all_eq_true.mp digitRanges_wordRanges r hr)
    rw [Bool.and_eq_true, Nat.ble_eq, Nat.ble_eq] at hcovers
    have hfirst := (digitRanges_spec r hr).1
    rw [isWordChar, if_neg (by omega), inRanges, List.any_eq_true]
    refine ⟨w, hw, ?_⟩
    rw [Bool.and_eq_true, decide_eq_true_eq, decide_eq_true_eq]
    omega

/-! ## Runs of characters -/

section Runs

variable {p : Char → Bool} {s rest : List Char}

theorem takeWhile_run (hs : ∀ c ∈ s, p c = true) (hrest : ∀ c ∈ rest.head?, p c = false) :
    (s ++ rest).takeWhile p = s := by
  rw [List.takeWhile_append_of_pos hs]
  cases rest with
  | nil => simp
  | cons c r => simp [hrest c rfl]

theorem dropWhile_run (hs : ∀ c ∈ s, p c = true) (hrest : ∀ c ∈ rest.head?, p c = false) :
    (s ++ rest).dropWhile p = rest := by
  rw [List.dropWhile_append_of_pos hs]
  cases rest with
  | nil => rfl
  | cons c r => simp [hrest c rfl]

end Runs

/-! ## Two places of a text -/

/-- Of two characters that a text is cut at, one is behind the other, or they are at the same place. -/
theorem cut_cases {u v pre r : List Char} {m c : Char} (h : u ++ m :: v = pre ++ c :: r) :
    (∃ a, u = pre ++ c :: a ∧ r = a ++ m :: v) ∨ (u = pre ∧ m = c ∧ v = r) ∨
      ∃ a, pre = u ++ m :: a ∧ v = a ++ c :: r := by
  rcases List.append_eq_append_iff.mp h with ⟨a, rfl, ha⟩ | ⟨a, rfl, ha⟩
  · cases a with
    | nil =>
      obtain ⟨rfl, rfl⟩ := List.cons.inj ha
      exact .inr (.inl ⟨(List.append_nil u).symm, rfl, rfl⟩)
    | cons x a =>
      obtain ⟨rfl, rfl⟩ := List.cons.inj ha
      exact .inr (.inr ⟨a, rfl, rfl⟩)
  · cases a with
    | nil =>
      obtain ⟨rfl, rfl⟩ := List.cons.inj ha
      exact .inr (.inl ⟨List.append_nil pre, rfl, rfl⟩)
    | cons x a =>
      obtain ⟨rfl, rfl⟩ := List.cons.inj ha
      exact .inl ⟨a, rfl, rfl⟩

/-! ## Texts without blanks -/

theorem trim_eq_self_of_ends {s : List Char} (hfirst : ∀ c ∈ s.head?, isBlank c = false)
    (hlast : ∀ c ∈ s.getLast?, isBlank c = false) : trim s = s := by
  have hdrop : ∀ t : List Char, (∀ c ∈ t.head?, isBlank c = false) → t.dropWhile isBlank = t :=
    fun t ht => dropWhile_run (s := []) (by simp) ht
  have hreverse : ∀ c ∈ s.reverse.head?, isBlank c = false := by
    rw [List.head?_reverse]
    exact hlast
  rw [trim, trimStart, trimEnd, hdrop s hfirst, hdrop s.reverse hreverse, List.reverse_reverse]

theorem trim_eq_self {s : List Char} (h : ∀ c ∈ s, isBlank c = false) : trim s = s :=
  trim_eq_self_of_ends (fun c hc => h c (List.mem_of_mem_head? hc))
    fun c hc => h c (List.mem_of_getLast? hc)

/-! ## Cutting blanks off at the end -/

theorem trimEnd_isPrefix (s : List Char) : trimEnd s <+: s := by
  have hsuffix : s.reverse.dropWhile isBlank <:+ s.reverse := List.dropWhile_suffix isBlank
  have hprefix := List.reverse_prefix.mpr hsuffix
  rwa [List.reverse_reverse] at hprefix

/-- Blanks are cut off behind what is not blank only. -/
theorem trimEnd_append {s : List Char} {c : Char} (hlast : s.getLast? = some c)
    (hc : isBlank c = false) (t : List Char) : trimEnd (s ++ t) = s ++ trimEnd t := by
  have hs : s.reverse.dropWhile isBlank = s.reverse := by
    have hhead : s.reverse.head? = some c := by rw [List.head?_reverse, hlast]
    cases hrev : s.reverse with
    | nil => rfl
    | cons d r =>
      rw [hrev] at hhead
      cases hhead
      exact List.dropWhile_cons_of_neg (by simp [hc])
  unfold trimEnd
  rw [List.reverse_append, List.dropWhile_append, hs]
  split
  · next hnil =>
    rw [List.isEmpty_iff.mp hnil, List.reverse_nil, List.append_nil, List.reverse_reverse]
  · rw [List.reverse_append, List.reverse_reverse]

theorem trimEnd_cons {c : Char} (hc : isBlank c = false) (s : List Char) :
    trimEnd (c :: s) = c :: trimEnd s :=
  trimEnd_append (s := [c]) rfl hc s

theorem isBlank_of_trimStart_eq_cons {s r : List Char} {c : Char} (h : trimStart s = c :: r) :
    isBlank c = false := by
  have hhead := List.head?_dropWhile_not isBlank s
  rw [show s.dropWhile isBlank = c :: r from h] at hhead
  simpa using hhead

/-- It does not matter which end is trimmed first. -/
theorem trimStart_trimEnd (s : List Char) : trimStart (trimEnd s) = trim s := by
  obtain ⟨blanks, hblanks, hsplit⟩ :
      ∃ blanks, (∀ c ∈ blanks, isBlank c = true) ∧ s = blanks ++ trimStart s :=
    ⟨s.takeWhile isBlank, List.all_eq_true.mp List.all_takeWhile,
      List.takeWhile_append_dropWhile.symm⟩
  unfold trim
  cases hrest : trimStart s with
  | nil =>
    -- nothing but blanks, which are all cut off
    rw [hrest, List.append_nil] at hsplit
    have hnil : trimEnd s = [] := by
      have hends : (blanks.reverse ++ []).dropWhile isBlank = [] :=
        List.dropWhile_append_of_pos fun c hc => hblanks c (List.mem_reverse.mp hc)
      rw [List.append_nil] at hends
      rw [hsplit, trimEnd, hends, List.reverse_nil]
    rw [hnil]
    rfl
  | cons c r =>
    have hc := isBlank_of_trimStart_eq_cons hrest
    rw [hrest, List.append_cons] at hsplit
    rw [hsplit, trimEnd_append List.getLast?_concat hc, trimEnd_cons hc, List.append_assoc,
      trimStart, List.dropWhile_append_of_pos hblanks]
    exact List.dropWhile_cons_of_neg (by simp [hc])

theorem trimStart_trim (s : List Char) : trimStart (trim s) = trim s := by
  unfold trim
  cases hrest : trimStart s with
  | nil => rfl
  | cons c r =>
    have hc := isBlank_of_trimStart_eq_cons hrest
    rw [trimEnd_cons hc]
    exact List.dropWhile_cons_of_neg (by simp [hc])

theorem trim_trimStart (s : List Char) : trim (trimStart s) = trim s := by
  rw [trim, trimStart, trimStart, List.dropWhile_idempotent]
  rfl

theorem trim_trim (s : List Char) : trim (trim s) = trim s := by
  have hend : trimEnd (trimEnd (trimStart s)) = trimEnd (trimStart s) := by
    simp only [trimEnd, List.reverse_reverse]
    generalize (trimStart s).reverse = t
    cases ht : t.dropWhile isBlank with
    | nil => rfl
    | cons c r =>
      have hc := isBlank_of_trimStart_eq_cons ht
      rw [List.dropWhile_cons_of_neg (by simp [hc])]
  rw [trim, trimStart_trim]
  exact hend

/-- In front of a trimmed text and behind it blanks have been cut off. -/
theorem exists_trim (s : List Char) :
    ∃ front back, (∀ c ∈ front, isBlank c = true) ∧ s = front ++ (trim s ++ back) := by
  obtain ⟨back, hback⟩ := trimEnd_isPrefix (trimStart s)
  refine ⟨s.takeWhile isBlank, back, List.all_eq_true.mp List.all_takeWhile, ?_⟩
  rw [trim, hback]
  exact List.takeWhile_append_dropWhile.symm

theorem mem_trim_of_mem {s : List Char} {c : Char} (hc : c ∈ s) (hblank : isBlank c = false) :
    c ∈ trim s := by
  have hdrop : ∀ {t : List Char}, c ∈ t → c ∈ t.dropWhile isBlank := by
    intro t ht
    rw [← List.takeWhile_append_dropWhile (p := isBlank) (l := t)] at ht
    rcases List.mem_append.mp ht with ht | ht
    · rw [List.mem_takeWhile_imp ht] at hblank
      cases hblank
    · exact ht
  rw [trim, trimEnd, List.mem_reverse]
  exact hdrop (List.mem_reverse.mpr (hdrop hc))

/-- What a text begins with behind its blanks is not cut off at the end. -/
theorem head?_trim (s : List Char) : (trim s).head? = (trimStart s).head? := by
  unfold trim
  cases hrest : trimStart s with
  | nil => rfl
  | cons c r =>
    rw [trimEnd_cons (isBlank_of_trimStart_eq_cons hrest)]
    rfl

/-- Where the text in front is not blank, nor the last character behind, only the blanks in front are
cut off. -/
theorem trim_append {s t : List Char} (hs : trimStart s ≠ []) (ht : t ≠ [])
    (hlast : ∀ c ∈ t, isBlank c = false) : trim (s ++ t) = trimStart s ++ t := by
  have hstart : trimStart (s ++ t) = trimStart s ++ t := by
    have hempty : (s.dropWhile isBlank).isEmpty = false := List.isEmpty_eq_false_iff.mpr hs
    rw [trimStart, List.dropWhile_append, hempty]
    rfl
  have hc := hlast _ (List.getLast_mem ht)
  have hend := trimEnd_append (s := trimStart s ++ t) (c := t.getLast ht)
    (by rw [List.getLast?_append, List.getLast?_eq_some_getLast ht]; rfl) hc []
  rw [List.append_nil] at hend
  rw [trim, hstart, hend]
  exact List.append_nil _

/-! ## Identifiers -/

theorem ne_nil_of_isIdentifier {s : List Char} (h : isIdentifier s = true) : s ≠ [] := by
  rintro rfl
  cases h

theorem isNameChar_of_mem_identifier {s : List Char} (h : isIdentifier s = true) :
    ∀ c ∈ s, isNameChar c = true := by
  cases s with
  | nil => cases h
  | cons c s =>
    obtain ⟨hletter, hrest⟩ := Bool.and_eq_true_iff.mp h
    intro d hd
    rcases List.mem_cons.mp hd with rfl | hd
    · exact isNameChar_of_isLetter hletter
    · exact List.all_eq_true.mp hrest d hd

theorem trimmed_of_identifier {n : String} (h : isIdentifier n.toList = true) : trimmed n = n := by
  have hblank := fun c hc => isBlank_of_isNameChar (isNameChar_of_mem_identifier h c hc)
  rw [trimmed, trim_eq_self hblank, String.ofList_toList]

theorem trimmed_trimmed (s : String) : trimmed (trimmed s) = trimmed s := by
  rw [trimmed, trimmed, String.toList_ofList, trim_trim]

end Worksheet.Text
