import Mathlib.Data.List.Infix
import Worksheet.Proofs.Text.Class
import Worksheet.Proofs.Text.Lines
import Worksheet.Proofs.Text.Parts

/-!
# Keywords in a text

A keyword is found in any letter case, which means that it is found as it is in a text whose letters are
all small.

* **`stripKeyword?_eq_some_iff`** — a text that begins with a keyword, said with `fold`.
* **`infix_of_append_left`** — a keyword does not begin in a text without its first letter.
* **`words`** — the words of a text; `mem_words` says that what stands between two edges is one.
-/

namespace Worksheet.Text

/-! ## Letter case -/

/-- The small letter that a character counts as; a character that is no letter counts as itself. -/
def fold (c : Char) : Char :=
  if c = '\u017F' then 's' else if c = '\u212A' then 'k' else lower c

/-- A small letter. -/
def isSmall (c : Char) : Bool := 'a' ≤ c && c ≤ 'z'

theorem matchesLetter_iff {k c : Char} (hk : isSmall k = true) :
    matchesLetter k c = true ↔ fold c = k := by
  have hlong : k ≠ '\u017F' := by
    rintro rfl
    exact absurd hk (by decide)
  have hkelvin : k ≠ '\u212A' := by
    rintro rfl
    exact absurd hk (by decide)
  have hlongLower : (lower '\u017F' == k) = false := beq_false_of_ne hlong.symm
  have hkelvinLower : (lower '\u212A' == k) = false := beq_false_of_ne hkelvin.symm
  have hdiffer : ('\u017F' == '\u212A') = false ∧ ('\u212A' == '\u017F') = false := by decide
  unfold matchesLetter fold
  split
  · next hc =>
    subst hc
    simp only [hlongLower, hdiffer.1, beq_self_eq_true, Bool.false_or, Bool.and_true, Bool.and_false,
      Bool.or_false, beq_iff_eq]
    exact eq_comm
  · split
    · next hc =>
      subst hc
      simp only [hkelvinLower, hdiffer.2, beq_self_eq_true, Bool.false_or, Bool.and_true,
        Bool.and_false, beq_iff_eq]
      exact eq_comm
    · next hs hk => simp [hs, hk]

/-- The characters that count as small letters. -/
theorem isSmall_fold_iff {c : Char} :
    isSmall (fold c) = true ↔ isLetter c = true ∨ c = '\u017F' ∨ c = '\u212A' := by
  unfold fold
  split
  · next hc => simp [hc, isSmall]
  · split
    · next hc => simp [hc, isSmall]
    · next hs hk =>
      simp only [hs, hk, or_false]
      unfold lower
      split
      · next hupper =>
        have hletter : isLetter c = true := by
          unfold isLetter
          rw [hupper, Bool.or_true]
        simp only [Bool.and_eq_true, decide_eq_true_eq] at hupper
        have hlow : 65 ≤ c.toNat := hupper.1
        have hhigh : c.toNat ≤ 90 := hupper.2
        have hcode : (Char.ofNat (c.toNat + 32)).toNat = c.toNat + 32 := by
          rw [Char.ofNat, dif_pos (Or.inl (by omega))]
          rfl
        refine iff_of_true ?_ hletter
        simp only [isSmall, Bool.and_eq_true, decide_eq_true_eq]
        constructor
        · show 97 ≤ (Char.ofNat (c.toNat + 32)).toNat
          omega
        · show (Char.ofNat (c.toNat + 32)).toNat ≤ 122
          omega
      · next hupper => simp [isSmall, isLetter, hupper]

theorem isWordChar_of_isSmall_fold {c : Char} (h : isSmall (fold c) = true) :
    isWordChar c = true := by
  rcases isSmall_fold_iff.mp h with hletter | rfl | rfl
  · exact isWordChar_of_isNameChar (isNameChar_of_isLetter hletter)
  · decide +kernel
  · decide +kernel

theorem isSmall_fold_of_isDecimal {c : Char} (h : isDecimal c = true) : isSmall (fold c) = false := by
  rw [Bool.eq_false_iff]
  intro hsmall
  rcases isSmall_fold_iff.mp hsmall with hletter | rfl | rfl
  · have hcode := toNat_of_isNameChar (isNameChar_of_isLetter hletter)
    have hlow : ∀ d : Char, d ≤ c ↔ d.toNat ≤ c.toNat := fun d => Iff.rfl
    rw [isDecimal, if_pos (by omega)] at h
    have hdigit := toNat_of_isDigit h
    simp only [isLetter, Bool.or_eq_true, Bool.and_eq_true, decide_eq_true_eq, hlow] at hletter
    have hsmall : 97 ≤ c.toNat ∨ 65 ≤ c.toNat := hletter.imp And.left And.left
    omega
  · exact absurd h (by decide +kernel)
  · exact absurd h (by decide +kernel)

theorem isSmall_fold_of_isBlank {c : Char} (h : isBlank c = true) : isSmall (fold c) = false := by
  rw [Bool.eq_false_iff]
  intro hsmall
  rcases isSmall_fold_iff.mp hsmall with hletter | rfl | rfl
  · rw [isBlank_of_isNameChar (isNameChar_of_isLetter hletter)] at h
    cases h
  · exact absurd h (by decide)
  · exact absurd h (by decide)

/-! ## Keywords -/

/-- A text of small letters, of which there is at least one. -/
structure IsKeyword (w : List Char) : Prop where
  nonempty : w ≠ []
  small : ∀ k ∈ w, isSmall k = true

instance (w : List Char) : Decidable (IsKeyword w) :=
  decidable_of_iff (w ≠ [] ∧ ∀ k ∈ w, isSmall k = true) ⟨fun h => ⟨h.1, h.2⟩, fun h => ⟨h.1, h.2⟩⟩

theorem stripKeyword?_eq_some_iff {w s rest : List Char} (hw : ∀ k ∈ w, isSmall k = true) :
    stripKeyword? w s = some rest ↔ ∃ a, s = a ++ rest ∧ a.map fold = w := by
  induction w generalizing s with
  | nil => simp [stripKeyword?]
  | cons k w ih =>
    cases s with
    | nil => simp [stripKeyword?]
    | cons c s =>
      have hk := matchesLetter_iff (c := c) (hw k List.mem_cons_self)
      have hrest := ih (s := s) fun d hd => hw d (List.mem_cons_of_mem k hd)
      unfold stripKeyword?
      split
      · -- the letter fits, and the rest of the word is stripped off the rest of the text
        next hmatch =>
        rw [hrest]
        constructor
        · rintro ⟨a, rfl, rfl⟩
          exact ⟨c :: a, rfl, by rw [List.map_cons, hk.mp hmatch]⟩
        · rintro ⟨a, hs, ha⟩
          cases a with
          | nil => cases ha
          | cons d a =>
            obtain ⟨rfl, rfl⟩ := List.cons.inj hs
            exact ⟨a, rfl, (List.cons.inj ha).2⟩
      · next hmatch =>
        refine iff_of_false (by simp) ?_
        rintro ⟨a, hs, ha⟩
        cases a with
        | nil => cases ha
        | cons d a =>
          obtain ⟨rfl, rfl⟩ := List.cons.inj hs
          exact hmatch (hk.mpr (List.cons.inj ha).1)

/-! ## Texts in which a keyword does not occur -/

theorem infix_of_append_left {k : Char} {w u v : List Char} (h : k :: w <:+: u ++ v) (hu : k ∉ u) :
    k :: w <:+: v := by
  obtain ⟨a, b, hab⟩ := h
  rw [List.append_assoc, List.append_eq_append_iff] at hab
  rcases hab with ⟨c, rfl, hc⟩ | ⟨c, rfl, hc⟩
  · cases c with
    | nil => exact ⟨[], b, by simpa using hc⟩
    | cons d c =>
      obtain ⟨rfl, -⟩ := List.cons.inj hc
      exact absurd (by simp) hu
  · exact ⟨c, b, by simpa using hc.symm⟩

/-! ## Words -/

/-- The words of a text, and empty ones between two characters that belong to no word. -/
def words (s : List Char) : List (List Char) := splitAt (fun c => !isWordChar c) s

theorem words_append_cons {c : Char} (hc : isWordChar c = false) (a b : List Char) :
    words (a ++ c :: b) = words a ++ words b :=
  splitAt_append_cons (by simp [hc]) a b

theorem words_eq_singleton {w : List Char} (hw : ∀ c ∈ w, isWordChar c = true) : words w = [w] :=
  splitAt_eq_singleton fun c hc => by simp [hw c hc]

theorem subset_of_mem_words {w s : List Char} (h : w ∈ words s) : w ⊆ s := subset_of_mem_splitAt h

theorem infix_of_mem_words {w s : List Char} (h : w ∈ words s) : w <:+: s := infix_of_mem_splitAt h

theorem mem_words {pre w post : List Char} (hpre : ∀ c ∈ pre.getLast?, isWordChar c = false)
    (hw : ∀ c ∈ w, isWordChar c = true) (hpost : ∀ c ∈ post.head?, isWordChar c = false) :
    w ∈ words (pre ++ (w ++ post)) := by
  have hbehind : w ∈ words (w ++ post) := by
    cases post with
    | nil =>
      rw [List.append_nil, words_eq_singleton hw]
      exact List.mem_singleton_self w
    | cons c post =>
      rw [words_append_cons (hpost c rfl), words_eq_singleton hw]
      exact List.mem_cons_self
  cases pre using List.reverseRecOn with
  | nil => exact hbehind
  | append_singleton pre c =>
    rw [List.append_assoc, List.singleton_append,
      words_append_cons (hpre c List.getLast?_concat)]
    exact List.mem_append_right _ hbehind

end Worksheet.Text
