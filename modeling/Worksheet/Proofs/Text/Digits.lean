import Mathlib.Algebra.Ring.Nat
import Worksheet.Text.Digits

/-!
# Numerals as they are written and read

* **`isDigit_of_mem_showNat`** — a natural number is written with decimal digits only.
* **`not_mem_showInt`** — so a character that is neither a digit nor a minus does not occur in an
  integer.
* **`readDigits_append`**, **`readDigits_lt`** — the number that digits denote.
* **`readDigits_showNat`**, **`readDigits_showPadded`**, **`readInt?_showInt`** — what is written is read
  back.
* **`newline_not_mem_toDigits`** — no numeral holds a line feed, in whatever base it is written.
-/

namespace Worksheet.Text

theorem isDigit_of_mem_showNat {n : Nat} {c : Char} (h : c ∈ showNat n) : isDigit c = true := by
  have hdigit := Nat.isDigit_of_mem_toDigits (by decide) (by decide) h
  simp only [Char.isDigit, Bool.and_eq_true, decide_eq_true_eq] at hdigit
  simp only [isDigit, Bool.and_eq_true, decide_eq_true_eq]
  exact hdigit

theorem not_mem_showNat {c : Char} (hc : isDigit c = false) (n : Nat) : c ∉ showNat n := by
  intro h
  rw [isDigit_of_mem_showNat h] at hc
  cases hc

theorem not_mem_showInt {c : Char} (hc : isDigit c = false) (hminus : c ≠ '-') (n : Int) :
    c ∉ showInt n := by
  unfold showInt
  split
  · simp [hminus, not_mem_showNat hc]
  · exact not_mem_showNat hc _

theorem showNat_ne_nil (n : Nat) : showNat n ≠ [] := Nat.toDigits_ne_nil

theorem isDigit_of_mem_replicate {k : Nat} {c : Char} (h : c ∈ List.replicate k '0') :
    isDigit c = true := by
  rw [List.eq_of_mem_replicate h]
  decide

theorem isDigit_of_mem_showPadded {width n : Nat} {c : Char} (h : c ∈ showPadded width n) :
    isDigit c = true := by
  rcases List.mem_append.mp h with h | h
  · exact isDigit_of_mem_replicate h
  · exact isDigit_of_mem_showNat h

theorem not_mem_showPadded {c : Char} (hc : isDigit c = false) (width n : Nat) :
    c ∉ showPadded width n := by
  intro h
  rw [isDigit_of_mem_showPadded h] at hc
  cases hc

theorem showPadded_length {width n : Nat} (hwidth : 0 < width) (hn : n < 10 ^ width) :
    (showPadded width n).length = width := by
  have hle : (showNat n).length ≤ width :=
    (Nat.length_toDigits_le_iff (by decide) hwidth).mpr hn
  rw [showPadded, List.length_append, List.length_replicate]
  omega

/-- A text is cut at the first separator. -/
theorem cutAt?_append {c : Char} {a : List Char} (ha : c ∉ a) (b : List Char) :
    cutAt? c (a ++ c :: b) = some (a, b) := by
  induction a with
  | nil => simp [cutAt?]
  | cons x a ih =>
    obtain ⟨hx, ha⟩ : c ≠ x ∧ c ∉ a := by simpa using ha
    simp [cutAt?, Ne.symm hx, ih ha]

theorem cutAt?_of_not_mem {c : Char} {s : List Char} (hs : c ∉ s) : cutAt? c s = none := by
  cases h : cutAt? c s with
  | none => rfl
  | some p =>
    rw [(cutAt?_eq_some h).1] at hs
    exact absurd (List.mem_append_right _ List.mem_cons_self) hs

theorem cutAt?_eq_none_iff {c : Char} {s : List Char} : cutAt? c s = none ↔ c ∉ s := by
  refine ⟨fun h hc => ?_, cutAt?_of_not_mem⟩
  obtain ⟨a, b, rfl, ha⟩ := List.eq_append_cons_of_mem hc
  rw [cutAt?_append ha] at h
  cases h

/-! ## Reading -/

/-- Digits behind others put those as many places higher. -/
theorem foldl_digits (s : List Char) (k : Nat) :
    s.foldl (fun n c => 10 * n + digitValue c) k = k * 10 ^ s.length + readDigits s := by
  induction s generalizing k with
  | nil => simp [readDigits]
  | cons c s ih =>
    rw [readDigits, List.foldl_cons, List.foldl_cons, ih, ih (10 * 0 + digitValue c),
      List.length_cons, pow_succ']
    simp only [Nat.mul_zero, Nat.zero_add, Nat.add_mul, Nat.add_assoc]
    rw [Nat.mul_right_comm, Nat.mul_comm (10 * _)]

theorem readDigits_append (s t : List Char) :
    readDigits (s ++ t) = readDigits s * 10 ^ t.length + readDigits t := by
  rw [readDigits, List.foldl_append, foldl_digits t]
  rfl

theorem digitValue_lt (c : Char) : digitValue c < 10 := by
  unfold digitValue
  split
  · next h =>
    simp only [isDigit, Bool.and_eq_true, decide_eq_true_eq] at h
    have hlow : 48 ≤ c.toNat := h.1
    have hhigh : c.toNat ≤ 57 := h.2
    have hzero : '0'.toNat = 48 := rfl
    omega
  · decide

theorem readDigits_lt (s : List Char) : readDigits s < 10 ^ s.length := by
  induction s with
  | nil => decide
  | cons c s ih =>
    have hcons := readDigits_append [c] s
    have hc : readDigits [c] = digitValue c := by simp [readDigits]
    have hlt := digitValue_lt c
    rw [List.singleton_append, hc] at hcons
    rw [hcons, List.length_cons, pow_succ']
    have hle := Nat.mul_le_mul_right (10 ^ s.length) (Nat.le_of_lt_succ hlt)
    omega

theorem readDigits_replicate_zero (k : Nat) (s : List Char) :
    readDigits (List.replicate k '0' ++ s) = readDigits s := by
  induction k with
  | zero => rfl
  | succ k ih => exact ih

theorem readDigits_showNat (n : Nat) : readDigits (showNat n) = n := by
  have hvalue : ∀ s : List Char, (∀ c ∈ s, isDigit c = true) → ∀ k,
      s.foldl (fun n c => 10 * n + digitValue c) k = Nat.ofDigitChars 10 s k := by
    intro s
    induction s with
    | nil => exact fun _ _ => rfl
    | cons c s ih =>
      intro hs k
      have hc : digitValue c = c.toNat - '0'.toNat := if_pos (hs c List.mem_cons_self)
      rw [List.foldl_cons, hc, ih fun d hd => hs d (List.mem_cons_of_mem c hd)]
      rfl
  rw [readDigits, hvalue _ fun c hc => isDigit_of_mem_showNat hc]
  exact Nat.ofDigitChars_toDigits (by decide) (by decide)

theorem readDigits_showPadded (width n : Nat) : readDigits (showPadded width n) = n := by
  rw [showPadded, readDigits_replicate_zero, readDigits_showNat]

/-- Digits without a sign in front are an integer. -/
theorem readInt?_digits {s : List Char} (hne : s ≠ []) (hs : ∀ c ∈ s, isDigit c = true) :
    readInt? s = some (readDigits s : Int) := by
  have hsign : ∀ c r, s = c :: r → c ≠ '-' ∧ c ≠ '+' := by
    rintro c r rfl
    have hdigit := hs c List.mem_cons_self
    constructor <;> (rintro rfl; exact absurd hdigit (by decide))
  have hall : s.all isDigit = true := List.all_eq_true.mpr hs
  have hempty : s.isEmpty = false := by simpa using hne
  unfold readInt?
  split
  · exact absurd rfl (hsign _ _ rfl).1
  · exact absurd rfl (hsign _ _ rfl).2
  · simp [hall, hempty]

theorem readInt?_plus {s : List Char} (hne : s ≠ []) (hs : ∀ c ∈ s, isDigit c = true) :
    readInt? ('+' :: s) = some (readDigits s : Int) := by
  have hall : s.all isDigit = true := List.all_eq_true.mpr hs
  have hempty : s.isEmpty = false := by simpa using hne
  simp [readInt?, hall, hempty]

theorem readInt?_minus {s : List Char} (hne : s ≠ []) (hs : ∀ c ∈ s, isDigit c = true) :
    readInt? ('-' :: s) = some (-(readDigits s : Int)) := by
  have hall : s.all isDigit = true := List.all_eq_true.mpr hs
  have hempty : s.isEmpty = false := by simpa using hne
  simp [readInt?, hall, hempty]

/-- Nothing else is read as an integer. -/
theorem exists_of_readInt? {s : List Char} {n : Int} (h : readInt? s = some n) :
    ∃ r, r ≠ [] ∧ (∀ c ∈ r, isDigit c = true) ∧
      (s = '-' :: r ∧ n = -(readDigits r : Int) ∨ (s = '+' :: r ∨ s = r) ∧ n = readDigits r) := by
  have hunsigned : ∀ {r : List Char} {f : Int → Int},
      ((if r.isEmpty || !r.all isDigit then none else some (readDigits r)) >>= fun k =>
        pure (k : Int)).map f = some n →
      r ≠ [] ∧ (∀ c ∈ r, isDigit c = true) ∧ n = f (readDigits r) := by
    intro r f hr
    split at hr
    · cases hr
    · next hdigits =>
      simp only [Bool.or_eq_true, Bool.not_eq_true', not_or, Bool.not_eq_false,
        List.all_eq_true, List.isEmpty_iff] at hdigits
      exact ⟨hdigits.1, hdigits.2, (Option.some.inj hr).symm⟩
  unfold readInt? at h
  dsimp only at h
  split at h
  · next r =>
    obtain ⟨hne, hdigits, hvalue⟩ := hunsigned h
    exact ⟨r, hne, hdigits, Or.inl ⟨rfl, hvalue⟩⟩
  · next r =>
    obtain ⟨hne, hdigits, hvalue⟩ := hunsigned h
    exact ⟨r, hne, hdigits, Or.inr ⟨Or.inl rfl, hvalue⟩⟩
  · obtain ⟨hne, hdigits, hvalue⟩ := hunsigned h
    exact ⟨s, hne, hdigits, Or.inr ⟨Or.inr rfl, hvalue⟩⟩

theorem readInt?_showInt (n : Int) : readInt? (showInt n) = some n := by
  have hne := showNat_ne_nil n.natAbs
  have hdigits : ∀ c ∈ showNat n.natAbs, isDigit c = true := fun c => isDigit_of_mem_showNat
  unfold showInt
  split
  · rw [readInt?_minus hne hdigits, readDigits_showNat]
    exact congrArg some (by omega)
  · rw [readInt?_digits hne hdigits, readDigits_showNat]
    exact congrArg some (by omega)

/-! ## Line feeds -/

@[simp] theorem newline_not_mem_showNat (n : Nat) : '\n' ∉ showNat n :=
  not_mem_showNat (by decide) n

@[simp] theorem newline_not_mem_showInt (n : Int) : '\n' ∉ showInt n :=
  not_mem_showInt (by decide) (by decide) n

@[simp] theorem newline_not_mem_showPadded (width n : Nat) : '\n' ∉ showPadded width n := by
  simp [showPadded]

theorem newline_not_mem_toDigits {base : Nat} (hbase : 1 < base) (n : Nat) :
    '\n' ∉ Nat.toDigits base n := by
  have hdigit : ∀ m, '\n' ≠ Nat.digitChar m := fun m => (Nat.digitChar_ne '\n' (by decide)).symm
  induction n using Nat.strongRecOn with
  | ind n ih =>
    rw [Nat.toDigits_eq_if hbase]
    split
    · simp [hdigit]
    · have hlt : n / base < n := Nat.div_lt_self (by omega) hbase
      simp [hdigit, ih _ hlt]

theorem upper_eq_newline_iff {c : Char} : upper c = '\n' ↔ c = '\n' := by
  have hcapital : ∀ n < 123, 97 ≤ n → Char.ofNat (n - 32) ≠ '\n' := by decide
  unfold upper
  split
  · next h =>
    simp only [Bool.and_eq_true, decide_eq_true_eq, Char.le_def, UInt32.le_iff_toNat_le] at h
    have hlow : 97 ≤ c.toNat := h.1
    have hhigh : c.toNat ≤ 122 := h.2
    refine ⟨fun heq => absurd heq (hcapital c.toNat (by omega) hlow), ?_⟩
    rintro rfl
    exact absurd hlow (by decide)
  · rfl

@[simp] theorem newline_mem_map_upper {s : List Char} : '\n' ∈ s.map upper ↔ '\n' ∈ s := by
  simp [upper_eq_newline_iff]

end Worksheet.Text
