import Mathlib.Order.Bounds.Basic
import Worksheet.Proofs.Display.Form

/-!
# Fields that are filled up with zeros

By the usual meaning of a specification the zero flag asks for zeros in the place of spaces, whatever
the alignment, and zeros between the sign and the digits are digits themselves: they are parted into
groups like the others, and no separator begins them. Here the flag only counts without an
alignment, and zeros are put in front of digits that have been parted before. This module says where
that makes a difference.

* **`zeroFilled`**, **`Form.standard`** — the usual meaning; **`isLeast_zeros`** — the fewest zeros.
* **`zeroFilled_eq_iff`** — zeros in front of the groups are right if they fit into the first group.
* **`formatValue_standard_iff`** — the headline: when a specification has its usual meaning.
* **`zeros_not_standard`** — zeros in front of a group that is full, and spaces where zeros are asked for.
-/

namespace Worksheet.Display

open Text

/-! ## The usual meaning -/

/-- Digits filled up with zeros: to the width, or if separators part them, to the fewest digits that
take up the width. -/
def zeroFilled (separator : Option Char) (every width : Nat) (digits : List Char) : List Char :=
  match separator with
  | none => List.replicate (width - digits.length) '0' ++ digits
  | some sep =>
    let zeros := width - (width - 1) / (every + 1) - digits.length
    Spec.groupDigits sep every (List.replicate zeros '0' ++ digits)

namespace Form

/-- What the field should be filled with: the fill character, or else what the zero flag says. -/
def standardFilling (f : Form) : Char :=
  match f.alignment with
  | some (some fill, _) => fill
  | some (none, _) | none => if f.zero then '0' else ' '

/-- An integer as the specification is usually understood. -/
def standard (f : Form) (n : Int) : List Char :=
  if f.placement = .inner ∧ f.standardFilling = '0' then
    f.lead n ++ zeroFilled f.separator f.radix.groupLength (f.minWidth - (f.lead n).length) (f.digits n)
  else f.placement.place f.standardFilling f.minWidth (f.lead n) (f.grouped n)

/-- How many characters are filled in. -/
def gap (f : Form) (n : Int) : Nat := f.minWidth - ((f.lead n).length + (f.grouped n).length)

/-- The zero flag stands behind an alignment without a fill character. -/
def AlignedZero (f : Form) : Prop := f.zero = true ∧ ∃ a, f.alignment = some (none, a)

/-- Zeros are filled in between the sign and groups of digits. -/
def ZerosBeforeGroups (f : Form) : Prop :=
  f.placement = .inner ∧ f.filling = '0' ∧ f.separator.isSome

end Form

/-! ## Zeros in front of groups -/

section Zeros

variable {sep : Char} {every width : Nat} {digits : List Char}

theorem length_groupDigits_zeros (sep : Char) (every zeros : Nat) (hdigits : digits ≠ []) :
    (Spec.groupDigits sep every (List.replicate zeros '0' ++ digits)).length
      = zeros + digits.length + (zeros + digits.length - 1) / every := by
  rw [Spec.length_groupDigits sep every (by simp [hdigits]), List.length_append, List.length_replicate]

/-- With these zeros the width is taken up, and with fewer it is not. -/
theorem isLeast_zeros (sep : Char) (r : Radix) (hdigits : digits ≠ []) (width : Nat) :
    IsLeast {zeros | width ≤
        (Spec.groupDigits sep r.groupLength (List.replicate zeros '0' ++ digits)).length}
      (width - (width - 1) / (r.groupLength + 1) - digits.length) := by
  have hpos := List.length_pos_iff.mpr hdigits
  have hlength := fun zeros => length_groupDigits_zeros sep r.groupLength zeros hdigits
  constructor
  · show width ≤ _
    rw [hlength]
    rcases r.groupLength_eq with h | h <;> rw [h] <;> omega
  · intro zeros hzeros
    have hzeros : width ≤ _ := hzeros
    rw [hlength] at hzeros
    rcases r.groupLength_eq with h | h <;> rw [h] at hzeros ⊢ <;> omega

/-- No zeros where the digits take up the width. -/
theorem zeroFilled_of_le (r : Radix) (hdigits : digits ≠ [])
    (h : width ≤ (Spec.groupDigits sep r.groupLength digits).length) :
    zeroFilled (some sep) r.groupLength width digits = Spec.groupDigits sep r.groupLength digits := by
  have hzeros : _ ≤ 0 := (isLeast_zeros sep r hdigits width).2 h
  rw [zeroFilled, Nat.le_zero.mp hzeros]
  rfl

/-- Zeros in front of the groups, exactly if they fit into the first one. -/
theorem zeroFilled_eq_iff (r : Radix) (hdigits : digits ≠ []) (hsep : sep ∉ digits) (hzero : sep ≠ '0')
    {gap : Nat} (hgap : gap = width - (Spec.groupDigits sep r.groupLength digits).length) (hpos : gap ≠ 0) :
    List.replicate gap '0' ++ Spec.groupDigits sep r.groupLength digits
        = zeroFilled (some sep) r.groupLength width digits ↔
      (digits.length - 1) % r.groupLength + gap < r.groupLength := by
  have hdigit := List.length_pos_iff.mpr hdigits
  have hzeros : ∀ k, sep ∉ List.replicate k '0' := fun k h => hzero (List.eq_of_mem_replicate h)
  rw [Spec.length_groupDigits sep _ hdigits] at hgap
  rw [zeroFilled]
  generalize hm : width - (width - 1) / (r.groupLength + 1) - digits.length = zeros
  constructor
  · intro h
    -- without separators the zeros must be as many, and then the separators must be as many
    have hsame : zeros = gap := by
      have hfilter := congrArg (List.filter (· != sep)) h
      rw [List.filter_append, Spec.filter_groupDigits _ hsep, Spec.filter_groupDigits _ (by simp [hsep, hzeros]),
        List.filter_eq_self.mpr (by simp [Ne.symm hzero])] at hfilter
      have hlength := congrArg List.length hfilter
      simp only [List.length_append, List.length_replicate] at hlength
      omega
    have hlength := congrArg List.length h
    rw [length_groupDigits_zeros sep _ _ hdigits, List.length_append, List.length_replicate,
      Spec.length_groupDigits sep _ hdigits, hsame] at hlength
    rcases r.groupLength_eq with h | h <;> rw [h] at hlength ⊢ <;> omega
  · intro hfits
    have hsame : zeros = gap := by
      rcases r.groupLength_eq with h | h <;> rw [h] at hm hgap hfits <;> omega
    rw [hsame, Spec.groupDigits_append sep hdigits (by rwa [List.length_replicate])]

end Zeros

/-! ## Fields -/

/-- Two fillings of a gap show whether they are the same. -/
theorem Align.eq_of_place {a : Align} {c d : Char} {width : Nat} {sign body : List Char}
    (hgap : width - (sign.length + body.length) ≠ 0)
    (h : a.place c width sign body = a.place d width sign body) : c = d := by
  have hreplicate : ∀ k, k ≠ 0 → List.replicate k c = List.replicate k d → c = d := by
    intro k hk h
    cases k with
    | zero => exact absurd rfl hk
    | succ k => exact (List.cons.inj h).1
  unfold place at h
  generalize width - (sign.length + body.length) = gap at hgap h
  cases a with
  | left => exact hreplicate _ hgap (List.append_cancel_left h)
  | right => exact hreplicate _ hgap (List.append_cancel_right (List.append_cancel_right h))
  | center =>
    -- an odd gap is wider on the right, so there is something on the right
    have hright : gap - gap / 2 ≠ 0 := by omega
    exact hreplicate _ hright (List.append_inj' h (by simp)).2
  | inner =>
    exact hreplicate _ hgap (List.append_cancel_left (List.append_cancel_right h))

namespace Form

variable {f : Form} {n : Int}

theorem filling_eq_iff : f.filling = f.standardFilling ↔ ¬f.AlignedZero := by
  unfold filling standardFilling AlignedZero
  rcases halignment : f.alignment with _ | ⟨_ | fill, a⟩ <;> cases hzero : f.zero <;> simp

/-- Where nothing is filled in, the zeros have no part in it. -/
theorem zeroFilled_of_gap (hgap : f.gap n = 0) :
    zeroFilled f.separator f.radix.groupLength (f.minWidth - (f.lead n).length) (f.digits n)
      = f.grouped n := by
  unfold gap at hgap
  cases hsep : f.separator with
  | none =>
    rw [grouped_of_none hsep] at hgap ⊢
    have hnone : f.minWidth - (f.lead n).length - (f.digits n).length = 0 := by omega
    rw [zeroFilled, hnone]
    rfl
  | some sep =>
    rw [grouped_of_some hsep] at hgap ⊢
    exact zeroFilled_of_le f.radix digits_ne_nil (by omega)

theorem shown_eq_standard_of_gap (hgap : f.gap n = 0) : f.shown n = f.standard n := by
  have hle : f.minWidth ≤ (f.lead n).length + (f.grouped n).length := by
    unfold gap at hgap
    omega
  rw [shown, Align.place_of_le _ _ hle, standard]
  split
  · rw [zeroFilled_of_gap hgap]
  · rw [Align.place_of_le _ _ hle]

theorem space_not_mem_zeroFilled (width : Nat) :
    ' ' ∉ zeroFilled f.separator f.radix.groupLength width (f.digits n) := by
  have hdigits : ' ' ∉ f.digits n := not_mem_digits (by decide)
  have hzeros : ∀ k, ' ' ∉ List.replicate k '0' ++ f.digits n := by
    intro k
    simp [hdigits]
  unfold zeroFilled
  split
  · exact hzeros _
  · next sep hsep =>
    intro h
    rcases Spec.mem_groupDigits h with hspace | h
    · rcases separator_cases hsep with rfl | rfl <;> exact absurd hspace (by decide)
    · exact hzeros _ h

/-- Behind an alignment spaces stand in the place of zeros. -/
theorem shown_ne_standard (hgap : f.gap n ≠ 0) (hzero : f.AlignedZero) : f.shown n ≠ f.standard n := by
  obtain ⟨hflag, a, halignment⟩ := hzero
  have hplacement : f.placement = a := by rw [placement, halignment]
  have hspace : f.filling = ' ' := by rw [filling, halignment]; rfl
  have hstandard : f.standardFilling = '0' := by rw [standardFilling, halignment]; simp [hflag]
  rw [shown, standard, hplacement, hspace, hstandard]
  split
  · next hinner =>
    -- between the sign and the digits there are spaces, which are no digits
    rw [hinner.1]
    intro h
    have hbehind := List.append_cancel_left ((List.append_assoc ..).symm.trans h)
    refine space_not_mem_zeroFilled _ (hbehind ▸ List.mem_append_left _ ?_)
    exact List.mem_replicate.mpr ⟨hgap, rfl⟩
  · exact fun h => absurd (Align.eq_of_place hgap h) (by decide)

/-- Zeros that are filled in are right if they fit into the first group. -/
theorem inner_eq_zeroFilled_iff (hgap : f.gap n ≠ 0) :
    List.replicate (f.gap n) '0' ++ f.grouped n
        = zeroFilled f.separator f.radix.groupLength (f.minWidth - (f.lead n).length) (f.digits n) ↔
      (f.separator.isSome →
        ((f.digits n).length - 1) % f.radix.groupLength + f.gap n < f.radix.groupLength) := by
  cases hsep : f.separator with
  | none =>
    rw [gap, grouped_of_none hsep, zeroFilled, Nat.sub_add_eq]
    simp
  | some sep =>
    have hgrouped := grouped_of_some (n := n) hsep
    have hzero : sep ≠ '0' := by rcases separator_cases hsep with rfl | rfl <;> decide
    rw [hgrouped, zeroFilled_eq_iff f.radix digits_ne_nil (separator_not_mem_digits hsep) hzero ?_ hgap]
    · simp
    · rw [gap, hgrouped, Nat.sub_add_eq]

theorem shown_eq_standard_iff : f.shown n = f.standard n ↔
    f.gap n = 0 ∨ ¬f.AlignedZero ∧ (f.ZerosBeforeGroups →
      ((f.digits n).length - 1) % f.radix.groupLength + f.gap n < f.radix.groupLength) := by
  by_cases hgap : f.gap n = 0
  · exact iff_of_true (shown_eq_standard_of_gap hgap) (Or.inl hgap)
  by_cases hzero : f.AlignedZero
  · exact iff_of_false (shown_ne_standard hgap hzero) (by simp [hgap, hzero])
  have hfilling := filling_eq_iff.mpr hzero
  rw [or_iff_right hgap, and_iff_right hzero, ZerosBeforeGroups, shown, standard, ← hfilling]
  by_cases hinner : f.placement = .inner ∧ f.filling = '0'
  · rw [if_pos hinner, hinner.1, hinner.2]
    have hplace : Align.inner.place '0' f.minWidth (f.lead n) (f.grouped n)
        = f.lead n ++ (List.replicate (f.gap n) '0' ++ f.grouped n) := List.append_assoc ..
    rw [hplace, List.append_right_inj, inner_eq_zeroFilled_iff hgap]
    simp
  · rw [if_neg hinner]
    exact iff_of_true rfl fun h => absurd ⟨h.1, h.2.1⟩ hinner

end Form

/-- **When a specification has its usual meaning.** An integer is shown with its digits in groups, on the
side that the alignment says, or behind zeros if there is a zero flag and no alignment. That is what
is usually meant exactly if nothing is filled in, or else the zero flag does not stand behind an
alignment without a fill character, and zeros in front of groups fit into the first one. -/
theorem formatValue_standard_iff (style : Style) (n : Int64) (f : Form) :
    (formatValue style f.text (.int n) = if f.minWidth < 0x10000000000000000 then .ok (f.shown n.toInt)
      else .error (.invalidSpec (String.ofList f.text))) ∧
    (formatValue style f.text (.int n) = .ok (f.standard n.toInt) ↔
      f.minWidth < 0x10000000000000000 ∧ (f.gap n.toInt = 0 ∨ ¬f.AlignedZero ∧ (f.ZerosBeforeGroups →
        ((f.digits n.toInt).length - 1) % f.radix.groupLength + f.gap n.toInt < f.radix.groupLength))) ∧
    ((∀ a, f.alignment ≠ some (some '\x7d', a)) →
      fill style (.int n) (field f.text) = formatValue style f.text (.int n)) := by
  have hshown := f.formatValue_text style n
  refine ⟨hshown, ?_, fun hfill => fill_field_alone (Form.brace_not_mem_text hfill)⟩
  rw [hshown, ← Form.shown_eq_standard_iff]
  by_cases hwidth : f.minWidth < 0x10000000000000000
  · rw [if_pos hwidth, Except.ok.injEq, and_iff_right hwidth]
  · rw [if_neg hwidth]
    exact iff_of_false nofun fun h => hwidth h.1

/-- A zero that fits into the first group. -/
theorem formatValue_standard_iff_fitting :
    ∃ f : Form, f.radix = .decimal ∧ f.text = "+08,d".toList ∧ (∀ a, f.alignment ≠ some (some '\x7d', a)) ∧
      f.standard 12345 = "+012,345".toList ∧
      fill .plain (.int 12345) (field f.text) = .ok "+012,345".toList := by
  let f : Form := {
    alignment := none
    sign := some .plus
    alternate := false
    zero := true
    width := ['8']
    grouping := some .comma
    radix := .decimal
    width_digits := by decide
    width_head := nofun }
  have hfill : ∀ a, f.alignment ≠ some (some '\x7d', a) := nofun
  obtain ⟨-, hstandard, htemplate⟩ := formatValue_standard_iff .plain 12345 f
  have hplain : ¬f.AlignedZero := by
    rintro ⟨-, a, ha⟩
    cases ha
  have hshown := hstandard.mpr ⟨by decide, Or.inr ⟨hplain, fun _ => by decide⟩⟩
  have hmeaning : f.standard 12345 = "+012,345".toList := by decide
  refine ⟨f, rfl, by decide, hfill, hmeaning, ?_⟩
  rw [htemplate hfill, hshown, ← hmeaning]
  rfl

/-- **Zeros that are not grouped, and zeros that are not filled in.** -/
theorem zeros_not_standard :
    (∃ f : Form, f.radix = .decimal ∧ f.text = "08,d".toList ∧
      formatValue .plain f.text (.int 1234) = .ok "0001,234".toList ∧ f.standard 1234 = "0,001,234".toList) ∧
    ∃ f : Form, f.radix = .decimal ∧ f.text = "<05d".toList ∧
      formatValue .plain f.text (.int 42) = .ok "42   ".toList ∧ f.standard 42 = "42000".toList := by
  refine ⟨⟨?_, ?_⟩, ⟨?_, ?_⟩⟩
  · exact ⟨none, none, false, true, ['8'], some .comma, .decimal, by decide, nofun⟩
  · exact ⟨rfl, by decide, by decide, by decide⟩
  · exact ⟨some (none, .left), none, false, true, ['5'], none, .decimal, by decide, nofun⟩
  · exact ⟨rfl, by decide, by decide, by decide⟩

end Worksheet.Display
