import Worksheet.Proofs.Declaration.Binding
import Worksheet.Proofs.Notation.Kept

/-!
# Marks that the notation does not know

A mark that no pattern covers or writes by itself stays where it is, and so does whether anything stands between
two marks. Only the rule for roots takes them up, in the parentheses of an operand, and writes them again as they
are.

* **`skeleton`** — the marks of a text and the gaps between them; `skeleton_append`, `skeleton_append_cons` and,
  back from the skeleton to the text, `exists_of_skeleton`.
* **`SameSkeleton`** — a relation that goes from parts to the whole; `Within.keeps_skeleton`,
  `roots_keeps_skeleton`.
* **`skeleton_expand`**, **`skeleton_bindCalls`** — the marks behind the whole expansion, and behind the binding of
  calls.
-/

namespace Worksheet.Notation

open Text

/-! ## Skeletons -/

/-- With a gap in front, unless there is one already. -/
def gap : List (Option Char) → List (Option Char)
  | none :: r => none :: r
  | r => none :: r

/-- The characters of a kind in a text, with a gap wherever something else stands in front, between or behind. -/
def skeleton (f : Char → Bool) : List Char → List (Option Char)
  | [] => []
  | c :: r => if f c then some c :: skeleton f r else gap (skeleton f r)

/-- One skeleton behind another one: two gaps that meet are one. -/
def fuse : List (Option Char) → List (Option Char) → List (Option Char)
  | [], t => t
  | some c :: s, t => some c :: fuse s t
  | none :: s, t => gap (fuse s t)

theorem gap_gap (s : List (Option Char)) : gap (gap s) = gap s := by
  cases s with
  | nil => rfl
  | cons a r => cases a <;> rfl

theorem fuse_gap (s t : List (Option Char)) : fuse (gap s) t = gap (fuse s t) := by
  cases s with
  | nil => rfl
  | cons a r =>
    cases a with
    | none => exact (gap_gap (fuse r t)).symm
    | some c => rfl

theorem gap_append_cons (s : List (Option Char)) (c : Char) (t : List (Option Char)) :
    gap (s ++ some c :: t) = gap s ++ some c :: t := by
  cases s with
  | nil => rfl
  | cons a r => cases a <;> rfl

theorem exists_of_gap {s x y : List (Option Char)} {c : Char} (h : gap s = x ++ some c :: y) :
    ∃ x', s = x' ++ some c :: y ∧ gap x' = x := by
  cases x with
  | nil =>
    cases s with
    | nil => cases h
    | cons a r => cases a <;> cases h
  | cons b x =>
    cases s with
    | nil =>
      have hnil : x ++ some c :: y = [] := (List.cons.inj h).2.symm
      simp at hnil
    | cons a r =>
      cases a with
      | none =>
        obtain ⟨rfl, hr⟩ := List.cons.inj h
        exact ⟨none :: x, congrArg (none :: ·) hr, rfl⟩
      | some d =>
        obtain ⟨rfl, hr⟩ := List.cons.inj h
        refine ⟨x, hr, ?_⟩
        cases x with
        | nil => rfl
        | cons e x =>
          obtain ⟨rfl, -⟩ := List.cons.inj hr
          rfl

section Skeleton

variable {f : Char → Bool} {c : Char} {s t : List Char}

theorem skeleton_append (f : Char → Bool) (s t : List Char) :
    skeleton f (s ++ t) = fuse (skeleton f s) (skeleton f t) := by
  induction s with
  | nil => rfl
  | cons c r ih =>
    rw [List.cons_append, skeleton, skeleton, ih]
    split
    · rfl
    · exact (fuse_gap _ _).symm

theorem skeleton_append_cons (hc : f c = true) (s t : List Char) :
    skeleton f (s ++ c :: t) = skeleton f s ++ some c :: skeleton f t := by
  induction s with
  | nil =>
    show (if f c then some c :: skeleton f t else gap (skeleton f t)) = some c :: skeleton f t
    rw [if_pos hc]
  | cons d r ih =>
    rw [List.cons_append, skeleton, skeleton, ih]
    split
    · rfl
    · exact gap_append_cons _ c _

/-- A text without marks is nothing but a gap. -/
theorem skeleton_of_free (hne : s ≠ []) (hs : Free f s) : skeleton f s = [none] := by
  induction s with
  | nil => exact absurd rfl hne
  | cons c r ih =>
    obtain ⟨hc, hr⟩ := free_cons_iff.mp hs
    rw [skeleton, hc, if_neg Bool.false_ne_true]
    cases r with
    | nil => rfl
    | cons d r =>
      rw [ih (List.cons_ne_nil d r) hr]
      rfl

theorem eq_nil_of_skeleton (h : skeleton f s = []) : s = [] := by
  cases s with
  | nil => rfl
  | cons c r =>
    rw [skeleton] at h
    split at h
    · cases h
    · generalize skeleton f r = t at h
      cases t with
      | nil => cases h
      | cons a t => cases a <;> cases h

/-- The mark of a skeleton stands in the text, and cuts both in the same parts. -/
theorem exists_of_skeleton {x y : List (Option Char)} (h : skeleton f s = x ++ some c :: y) :
    ∃ a b, s = a ++ c :: b ∧ f c = true ∧ skeleton f a = x ∧ skeleton f b = y := by
  induction s generalizing x with
  | nil => simp [skeleton] at h
  | cons d r ih =>
    rw [skeleton] at h
    split at h
    · next hd =>
      cases x with
      | nil =>
        obtain ⟨heq, hr⟩ := List.cons.inj h
        obtain rfl := Option.some.inj heq
        exact ⟨[], r, rfl, hd, rfl, hr⟩
      | cons a x =>
        obtain ⟨rfl, hr⟩ := List.cons.inj h
        obtain ⟨a, b, rfl, hc, rfl, hb⟩ := ih hr
        exact ⟨d :: a, b, rfl, hc, by rw [skeleton, if_pos hd], hb⟩
    · next hd =>
      obtain ⟨x', hr, rfl⟩ := exists_of_gap h
      obtain ⟨a, b, rfl, hc, rfl, hb⟩ := ih hr
      exact ⟨d :: a, b, rfl, hc, by rw [skeleton, if_neg hd], hb⟩

/-- Texts with the same skeleton have the same marks. -/
theorem mem_of_skeleton_eq (h : skeleton f t = skeleton f s) (hc : f c = true) (hmem : c ∈ t) : c ∈ s := by
  obtain ⟨a, b, rfl⟩ := List.append_of_mem hmem
  rw [skeleton_append_cons hc] at h
  obtain ⟨a', b', rfl, -⟩ := exists_of_skeleton h.symm
  exact List.mem_append_right _ List.mem_cons_self

/-- So they have what stands behind a mark and is one. -/
theorem infix_of_skeleton_eq {d : Char} (h : skeleton f t = skeleton f s) (hc : f c = true) (hd : f d = true)
    (hpart : [c, d] <:+: t) : [c, d] <:+: s := by
  obtain ⟨a, b, rfl⟩ := hpart
  have hsplit : skeleton f s = skeleton f a ++ some c :: some d :: skeleton f b := by
    rw [← h, List.append_assoc, List.cons_append, skeleton_append_cons hc, List.cons_append, List.nil_append, skeleton,
      if_pos hd]
  obtain ⟨a', r, rfl, -, -, hr⟩ := exists_of_skeleton hsplit
  obtain ⟨u, b', rfl, -, hu, -⟩ := exists_of_skeleton (x := []) hr
  obtain rfl := eq_nil_of_skeleton hu
  exact ⟨a', b', by simp⟩

end Skeleton

/-! ## What keeps it -/

/-- Two texts with the same skeleton, unless a mark in the first one is a blank. -/
def SameSkeleton (f : Char → Bool) (s t : List Char) : Prop :=
  (∀ c ∈ s, isBlank c = true → f c = false) → skeleton f t = skeleton f s

theorem partwise_sameSkeleton (f : Char → Bool) : Partwise (SameSkeleton f) where
  refl _ _ := rfl
  trans {s t u} hst htu hs := by
    have hskeleton := hst hs
    refine (htu fun c hc hblank => ?_).trans hskeleton
    rw [Bool.eq_false_iff]
    intro hmark
    have hkept := hs c (mem_of_skeleton_eq hskeleton hmark hc) hblank
    rw [hmark] at hkept
    cases hkept
  append ha hb hs := by
    obtain ⟨hleft, hright⟩ := List.forall_mem_append.mp hs
    rw [skeleton_append, skeleton_append, ha hleft, hb hright]

/-- A character that the patterns cover and write, but for those in the operands of roots. -/
def isNotationChar (c : Char) : Bool := isTermChar c || isOperatorMark c

section Patterns

variable {f g : Char → Bool} {p : Pattern (List Char)}

theorem Within.keeps_skeleton (hp : Within g p) (hf : ∀ c, f c = true → g c = false) : Keeps (SameSkeleton f) p := by
  have hfree : ∀ {s u : List Char}, (∀ c ∈ u, isBlank c = true → f c = false) →
      (∀ c ∈ s, g c = true ∨ isBlank c = true ∧ c ∈ u) → Free f s := by
    intro s u hu hs c hc
    rw [Bool.eq_false_iff]
    intro hmark
    rcases hs c hc with h | ⟨hblank, hmem⟩
    · rw [hf c hmark] at h
      cases h
    · rw [hu c hmem hblank] at hmark
      cases hmark
  intro before after out rest h
  obtain ⟨covered, hne, hout, hsplit, hcovered, hwritten⟩ := hp h
  refine ⟨covered, hne, hsplit, fun hblanks => ?_⟩
  rw [skeleton_of_free hne (hfree hblanks fun c hc => (hcovered c hc).imp_right fun hblank => ⟨hblank, hc⟩),
    skeleton_of_free hout (hfree hblanks hwritten)]

theorem factorial_within : Within isNotationChar factorial := by
  intro before after out rest h
  obtain ⟨operand, hoperand, rfl, hout⟩ := covered_factorial h
  have hchars : ∀ c ∈ operand, isNotationChar c = true := fun c hc => by
    rw [isNotationChar, isTermText_name hoperand.all c hc, Bool.true_or]
  have hmarked : ∀ c ∈ operand ++ ['!'], isNotationChar c = true :=
    List.forall_mem_append.mpr ⟨hchars, by decide⟩
  refine ⟨operand ++ ['!'], by simp, ?_, by simp, fun c hc => .inl (hmarked c hc), fun c hc => .inl ?_⟩
  · rcases hout with ⟨-, rfl⟩ | ⟨-, rfl⟩ <;> simp
  · rcases hout with ⟨-, rfl⟩ | ⟨-, rfl⟩
    · exact hmarked c hc
    · have hcall : ∀ c ∈ "factorial(".toList ++ operand ++ [')'], isNotationChar c = true :=
        List.forall_mem_append.mpr ⟨List.forall_mem_append.mpr ⟨by decide, hchars⟩, by decide⟩
      exact hcall c hc

theorem signs_within : Within isNotationChar signs := by
  have hmarks : ∀ c ∈ "÷×⋅·⁻⁰¹²³⁴⁵⁶⁷⁸⁹".toList, isNotationChar c = true := by decide
  have hsub : "⁰¹²³⁴⁵⁶⁷⁸⁹".toList ⊆ "÷×⋅·⁻⁰¹²³⁴⁵⁶⁷⁸⁹".toList := by decide
  intro before after out rest h
  rcases covered_signs h with ⟨c, hc, rfl, hout⟩ | ⟨marks, digits, hrun, hdigits, hforms⟩
  · have hsigns : "÷×⋅·".toList ⊆ "÷×⋅·⁻⁰¹²³⁴⁵⁶⁷⁸⁹".toList := by decide
    refine ⟨[c], by simp, ?_, rfl, fun d hd => .inl ?_, fun d hd => .inl ?_⟩
    · rcases hout with rfl | rfl <;> simp
    · rw [List.mem_singleton.mp hd]
      exact hmarks c (hsigns hc)
    · rcases hout with rfl | rfl <;> (rw [List.mem_singleton.mp hd]; decide)
  · have hsuperscripts : ∀ c ∈ marks, isNotationChar c = true := fun c hc =>
      hmarks c (hsub (mem_of_isSuperscript (hrun.all c hc)))
    have hnumber : ∀ c ∈ digits, isNotationChar c = true := fun c hc => by
      rw [isNotationChar, isTermText_digits hdigits c hc, Bool.true_or]
    rcases hforms with ⟨rfl, rfl⟩ | ⟨rfl, rfl⟩
    · have hcovered : ∀ c ∈ '⁻' :: marks, isNotationChar c = true :=
        List.forall_mem_cons.mpr ⟨by decide, hsuperscripts⟩
      have hout : ∀ c ∈ "**(-".toList ++ digits ++ [')'], isNotationChar c = true :=
        List.forall_mem_append.mpr ⟨List.forall_mem_append.mpr ⟨by decide, hnumber⟩, by decide⟩
      exact ⟨'⁻' :: marks, by simp, by simp, rfl, fun c hc => .inl (hcovered c hc), fun c hc => .inl (hout c hc)⟩
    · have hout : ∀ c ∈ ['*', '*'] ++ digits, isNotationChar c = true :=
        List.forall_mem_append.mpr ⟨by decide, hnumber⟩
      exact ⟨marks, hrun.nonempty, by simp, rfl, fun c hc => .inl (hsuperscripts c hc), fun c hc => .inl (hout c hc)⟩

theorem boundCall_within (isFunction : String → Bool) : Within isTermChar (boundCall isFunction) := by
  intro before after out rest h
  obtain ⟨name, blanks, hsite, hforms⟩ := boundCall_eq_some h
  have hname := isTermText_name hsite.chars
  have hopen : isTermChar '(' = true := by decide
  have hpoint : isTermChar '.' = true := by decide
  have hcovered : ∀ c ∈ name ++ (blanks ++ ['(']), isTermChar c = true ∨ isBlank c = true :=
    List.forall_mem_append.mpr ⟨fun c hc => .inl (hname c hc), List.forall_mem_append.mpr
      ⟨fun c hc => .inr (hsite.blank c hc), List.forall_mem_singleton.mpr (.inl hopen)⟩⟩
  have hkept : ∀ {u : List Char}, (∀ c ∈ u, isTermChar c = true ∨ isBlank c = true) →
      ∀ c ∈ u, isTermChar c = true ∨ isBlank c = true ∧ c ∈ u :=
    fun hu c hc => (hu c hc).imp_right fun hblank => ⟨hblank, hc⟩
  rcases hforms with ⟨rfl, rfl⟩ | ⟨-, rfl, rfl⟩
  · have hmethod : ∀ c ∈ '.' :: (name ++ (blanks ++ ['('])), isTermChar c = true ∨ isBlank c = true :=
      List.forall_mem_cons.mpr ⟨.inl hpoint, hcovered⟩
    exact ⟨'.' :: (name ++ (blanks ++ ['('])), by simp, by simp, by simp, hmethod, hkept hmethod⟩
  · refine ⟨name ++ (blanks ++ ['(']), by simp, ?_, by simp, hcovered, ?_⟩
    · unfold callText
      split <;> simp
    · unfold callText
      split
      · have hcall : IsTermText (name ++ ".call(".toList) := hname.append (by decide)
        exact fun c hc => .inl (hcall c hc)
      · exact hkept hcovered

/-- The operand of a root is written as it is. -/
theorem roots_keeps_skeleton (hf : ∀ c, f c = true → isNotationChar c = false) : Keeps (SameSkeleton f) roots := by
  have hpartwise := partwise_sameSkeleton f
  -- a stretch of the notation for another one
  have hsame : ∀ {s t : List Char}, s ≠ [] → t ≠ [] → (∀ c ∈ s, isNotationChar c = true) → (∀ c ∈ t, isNotationChar c = true) →
      SameSkeleton f s t := fun hs ht hs' ht' _ =>
    (skeleton_of_free ht (free_of_kind hf ht')).trans (skeleton_of_free hs (free_of_kind hf hs')).symm
  intro before after out rest h
  obtain ⟨sign, degree, operand, hdegree, rfl, hform⟩ := covered_roots h
  have hends : isNotationChar sign = true ∧ isNotationChar degree = true := by
    unfold rootDegree? at hdegree
    split at hdegree <;> cases hdegree <;> decide
  have hclose : ∀ c ∈ ")**(1/".toList ++ [degree, ')'], isNotationChar c = true :=
    List.forall_mem_append.mpr ⟨by decide, List.forall_mem_cons.mpr ⟨hends.2, by decide⟩⟩
  rcases hform with ⟨hoperand, rfl⟩ | ⟨-, rfl⟩
  · have hchars : ∀ c ∈ operand, isNotationChar c = true := fun c hc => by
      rw [isNotationChar, isTermText_operand hoperand c hc, Bool.true_or]
    refine ⟨sign :: operand, by simp, rfl, hsame (by simp) (by simp) ?_ ?_⟩
    · exact List.forall_mem_cons.mpr ⟨hends.1, hchars⟩
    · rw [List.append_assoc]
      exact List.forall_mem_append.mpr ⟨List.forall_mem_append.mpr ⟨by decide, hchars⟩, hclose⟩
  · have hopen : SameSkeleton f [sign, '('] ['('] :=
      hsame (by simp) (by simp) (List.forall_mem_cons.mpr ⟨hends.1, by decide⟩) (by decide)
    have hback : SameSkeleton f [')'] (")**(1/".toList ++ [degree, ')']) := hsame (by simp) (by simp) (by decide) hclose
    have hwhole := hpartwise.append hopen (hpartwise.append (hpartwise.refl operand) hback)
    refine ⟨[sign, '('] ++ (operand ++ [')']), by simp, by simp, ?_⟩
    simpa using hwhole

end Patterns

/-! ## Whole texts -/

section Texts

variable {f : Char → Bool} (hf : ∀ c, f c = true → isNotationChar c = false)

include hf

/-- No pattern changes the skeleton of a text. -/
theorem patterns_keep_skeleton {o : Options} {p : Pattern (List Char)} (hp : p ∈ patterns o) :
    Keeps (SameSkeleton f) p := by
  have hterm : ∀ c, f c = true → isTermChar c = false := fun c hc => (Bool.or_eq_false_iff.mp (hf c hc)).1
  have hpercent : ∀ c, f c = true → isPercentChar c = false := by
    intro c hc
    rw [isPercentChar, hterm c hc, Bool.false_or, beq_eq_false_iff_ne]
    rintro rfl
    have hother := hf '%' hc
    cases hother
  simp only [patterns, List.mem_append, List.mem_cons, List.not_mem_nil, or_false] at hp
  rcases hp with (rfl | rfl | rfl | rfl | rfl) | hoperand
  · exact factorial_within.keeps_skeleton hf
  · exact signs_within.keeps_skeleton hf
  · exact roots_keeps_skeleton hf
  · exact (looksFor_percentOf.within (by decide)).keeps_skeleton hpercent
  · exact (looksFor_percentStep.within (by decide)).keeps_skeleton hpercent
  · exact (operandPatterns_within hoperand).keeps_skeleton hterm

/-- The expansion of a text has the marks of the text, with gaps between the same ones. -/
theorem skeleton_expand (o : Options) {s : List Char} (hs : ∀ c ∈ s, isBlank c = true → f c = false) :
    skeleton f (expand o s) = skeleton f (trim s) :=
  foldl_keeps (partwise_sameSkeleton f) (fun _ => patterns_keep_skeleton hf) (List.Subset.refl Rule.all) (trim s)
    fun c hc => hs c (trim_subset s hc)

/-- So it is with the text in which the calls of functions are bound. -/
theorem skeleton_bindCalls (isFunction : String → Bool) {s : List Char} (hs : ∀ c ∈ s, isBlank c = true → f c = false) :
    skeleton f (bindCalls isFunction s) = skeleton f s :=
  ((boundCall_within isFunction).keeps_skeleton fun c hc => (Bool.or_eq_false_iff.mp (hf c hc)).1).mapPlain
    (partwise_sameSkeleton f) s hs

end Texts

end Worksheet.Notation
