import Worksheet.Proofs.Number.Convergents

/-!
# Exact arithmetic

Fractions are made from words, from texts and from other fractions. Whichever way one is made, a
machine makes it without a fault, and it is the exact result in lowest terms.

* **`parse_eq`** — reading a text meets no fault.
* **`IsExact`** — a result is the number, if its numerator and denominator fit in words, and none
  otherwise.
* **`Made`** — the ways to make a fraction, all of them in lowest terms (`Made.lowest`).
* **`arithmetic_exact`** — all operations are exact, and meet no fault but for two powers;
  **`pow_overflows`** — there they do.
-/

namespace Worksheet

open Worksheet.Text

/-! ## Reading -/

theorem readWide?_bounds {s : List Char} {n : Int} (h : Fraction.readWide? s = some n) :
    0 ≤ n ∧ n < 2 ^ 127 := by
  have hrun : ∀ (s : List Char) (m : Int), 0 ≤ m → m < 2 ^ 127 →
      s.foldlM (fun n c => if FitsWide (10 * n + digitValue c) then some (10 * n + digitValue c)
        else none) m = some n → 0 ≤ n ∧ n < 2 ^ 127 := by
    intro s
    induction s with
    | nil =>
      intro m hm hlt h
      cases h
      exact ⟨hm, hlt⟩
    | cons c s ih =>
      intro m hm hlt h
      rw [List.foldlM_cons] at h
      split at h
      · next hfits =>
        exact ih _ (by omega) (by have hhigh := hfits.2; omega) h
      · cases h
  exact hrun s 0 (le_refl _) (by norm_num) h

theorem natAbs_ten_pow_lt {k : Nat} (hk : k ≤ 38) :
    ((Nat.pow 10 k : Nat) : Int).natAbs < 2 ^ 127 := by
  have hle : 10 ^ k ≤ 10 ^ 38 := Nat.pow_le_pow_right (by norm_num) hk
  rw [Int.natAbs_natCast]
  exact lt_of_le_of_lt hle (by norm_num)

theorem powWithin?_ten (k : Nat) :
    powWithin? (decide <| FitsWide ·) 1 10 k
      = if 38 < k then none else some ((Nat.pow 10 k : Nat) : Int) := by
  split
  · next hk =>
    refine Option.eq_none_iff_forall_ne_some.mpr fun r hr => ?_
    have hfits := (fitsWide_of_powWithin? (by decide) hr).2
    rw [eq_of_powWithin? hr, one_mul] at hfits
    have hle : (10 : Int) ^ 39 ≤ 10 ^ k := pow_le_pow_right₀ (by norm_num) hk
    omega
  · next hk =>
    have hle : 10 ^ k ≤ 10 ^ 38 := Nat.pow_le_pow_right (by norm_num) (by omega)
    have hsize : size 1 * size 10 ^ k < 2 ^ 127 := by
      rw [show size 1 = 1 from rfl, show size 10 = 10 from rfl, one_mul]
      omega
    rw [powWithin?_eq_some hsize, one_mul]
    exact congrArg some (by norm_cast)

namespace Wide

theorem new_eq (n d : Int64) :
    new n d = .ok ((Fraction.ofRatio? n.toInt d.toInt).map words) := by
  have hn := natAbs_toInt_le n
  have hd := natAbs_toInt_le d
  exact reduced_eq (by omega) (by omega)

theorem parse_eq (s : List Char) : parse s = .ok ((Fraction.parse? s).map words) := by
  unfold parse Fraction.parse?
  dsimp only
  cases cutAt? '/' (trim s) with
  | some parts =>
    dsimp only
    cases readWord? (trim parts.1) with
    | none => rfl
    | some n =>
      cases readWord? (trim parts.2) with
      | none => rfl
      | some d => exact new_eq n d
  | none =>
    -- a decimal: its digits over a power of ten, where neither may be greater than a wide number
    obtain ⟨negative, digits⟩ := Fraction.splitSign (trim s)
    dsimp only
    obtain ⟨whole, fraction⟩ := (cutAt? '.' digits).getD (digits, [])
    dsimp only
    split
    · rfl
    · rw [powWithin?_ten]
      cases hn : Fraction.readWide? (whole ++ fraction) with
      | none => rfl
      | some n =>
        obtain ⟨hlow, hhigh⟩ := readWide?_bounds hn
        by_cases hk : 38 < fraction.length
        · simp [hk]
        · have hd := natAbs_ten_pow_lt (Nat.not_lt.mp hk)
          have hnegated : negated n = .ok (-n) := hold_eq (by omega)
          rw [if_neg hk]
          simp only [bind, Except.bind, Option.bind, gt_iff_lt, if_neg hk]
          cases negative with
          | false =>
            simp only [Bool.false_eq_true, if_false]
            exact reduced_eq (by omega) hd
          | true =>
            simp only [if_true, hnegated]
            exact reduced_eq (by omega) hd

/-! ## What is made -/

/-- The pairs of words that fractions are made as. -/
inductive Made : Int64 × Int64 → Prop
  | new {n d : Int64} {w} : new n d = .ok (some w) → Made w
  | ofWord (n : Int64) : Made (n, 1)
  | parse {s : List Char} {w} : parse s = .ok (some w) → Made w
  | limitDenominator {f : Fraction} {bound : Int64} {w} : limitDenominator f bound = .ok w → Made w
  | approximate {f : Fraction} {w} : approximate f = .ok w → Made w
  | add {a b : Fraction} {w} : add a b = .ok (some w) → Made w
  | sub {a b : Fraction} {w} : add a b.neg = .ok (some w) → Made w
  | mul {a b : Fraction} {w} : mul a b = .ok (some w) → Made w
  | div {a b : Fraction} {w} : div a b = .ok (some w) → Made w
  | pow {a : Fraction} {e : Int64} {w} : pow a e = .ok (some w) → Made w

theorem exists_of_map_words {r : Except Fault (Option (Int64 × Int64))} {f? : Option Fraction}
    {w : Int64 × Int64} (hr : r = .ok (f?.map words)) (hw : r = .ok (some w)) :
    ∃ f, words f = w := by
  rw [hr] at hw
  obtain ⟨f, -, hf⟩ := Option.map_eq_some_iff.mp (Except.ok.inj hw)
  exact ⟨f, hf⟩

theorem pow_eq_none (a : Fraction) {e : Int64} (he : 0x100000000 ≤ e.toInt.natAbs) :
    pow a e = .ok none := by
  unfold pow
  rw [div_eq]
  by_cases hneg : e.toInt < 0
  · rw [if_pos hneg]
    cases (Fraction.ofWord 1).div? a with
    | none => rfl
    | some b => exact if_pos he
  · rw [if_neg hneg]
    exact if_pos he

theorem exists_of_pow {a : Fraction} {e : Int64} {w : Int64 × Int64} (h : pow a e = .ok (some w)) :
    ∃ f, words f = w := by
  rcases Nat.lt_or_ge e.toInt.natAbs 0x100000000 with he | he
  · rw [pow_eq a he] at h
    split at h
    · cases h
    · exact exists_of_map_words rfl h
  · rw [pow_eq_none a he] at h
    cases h

theorem Made.exists_words {w : Int64 × Int64} (h : Made w) : ∃ f, words f = w := by
  cases h with
  | new h => exact exists_of_map_words (new_eq _ _) h
  | ofWord n => exact ⟨Fraction.ofWord n, rfl⟩
  | parse h => exact exists_of_map_words (parse_eq _) h
  | limitDenominator h =>
    rw [limitDenominator_eq] at h
    exact ⟨_, Except.ok.inj h⟩
  | approximate h =>
    rw [approximate_eq] at h
    exact ⟨_, Except.ok.inj h⟩
  | add h => exact exists_of_map_words (add_eq _ _) h
  | sub h => exact exists_of_map_words (add_eq _ _) h
  | mul h => exact exists_of_map_words (mul_eq _ _) h
  | div h => exact exists_of_map_words (div_eq _ _) h
  | pow h => exact exists_of_pow h

/-- The number of a pair of words. -/
def ratio (w : Int64 × Int64) : ℚ := w.1.toInt / w.2.toInt

theorem ratio_words (f : Fraction) : ratio (words f) = f.toRat := rfl

theorem Made.lowest {w : Int64 × Int64} (h : Made w) :
    0 < w.2.toInt ∧ Int.gcd w.1.toInt w.2.toInt = 1 := by
  obtain ⟨f, rfl⟩ := h.exists_words
  exact ⟨f.den_pos, f.coprime⟩

theorem Made.eq_iff {v w : Int64 × Int64} (hv : Made v) (hw : Made w) :
    v = w ↔ ratio v = ratio w := by
  obtain ⟨f, rfl⟩ := hv.exists_words
  obtain ⟨g, rfl⟩ := hw.exists_words
  refine ⟨congrArg ratio, fun h => congrArg words (Fraction.toRat_injective ?_)⟩
  rwa [ratio_words, ratio_words] at h

/-! ## Exact results -/

/-- The result is the number, if its numerator and denominator in lowest terms fit in words, and none
otherwise. -/
def IsExact (r : Option Fraction) (q : ℚ) : Prop :=
  (r.isSome ↔ FitsWord q.num ∧ FitsWord q.den) ∧ ∀ f, r = some f → f.toRat = q

theorem isExact_ofRat? (q : ℚ) : IsExact (Fraction.ofRat? q) q :=
  ⟨Fraction.isSome_ofRat?_iff, fun _ => Fraction.ofRat?_eq_some_iff.mp⟩

theorem isExact_new {n d : Int64} (hd : d ≠ 0) :
    IsExact (Fraction.ofRatio? n.toInt d.toInt) (n.toInt / d.toInt) := by
  rw [Fraction.ofRatio?_eq_ofRat? fun h => hd (Int64.toInt_inj.mp h)]
  exact isExact_ofRat? _

theorem div?_isExact (a b : Fraction) :
    if b.toRat = 0 then a.div? b = none else IsExact (a.div? b) (a.toRat / b.toRat) := by
  rw [Fraction.div?_eq]
  split
  · rfl
  · exact isExact_ofRat? _

theorem pow?_isExact (a : Fraction) {e : Int64} (he : e.toInt.natAbs < 0x100000000) :
    if a.toRat = 0 ∧ e.toInt < 0 then a.pow? e = none
      else IsExact (a.pow? e) (a.toRat ^ e.toInt) := by
  rw [Fraction.pow?_eq a he]
  split
  · rfl
  · exact isExact_ofRat? _

theorem compare_eq_iff {a b : Fraction} : a.compare b = .eq ↔ a = b := by
  rw [Fraction.compare_eq, cmp_eq_eq_iff]
  exact Fraction.toRat_injective.eq_iff

/-- **Arithmetic with fractions is exact**, and a machine meets no fault in it but for the powers
whose numerator is the least word. -/
theorem arithmetic_exact (a b : Fraction) {e : Int64} (he : e.toInt.natAbs < 2 ^ 32) :
    (∀ w, Made w → 0 < w.2.toInt ∧ Int.gcd w.1.toInt w.2.toInt = 1) ∧
    (∀ v w, Made v → Made w → (v = w ↔ ratio v = ratio w)) ∧
    (∀ n d, new n d = .ok ((Fraction.ofRatio? n.toInt d.toInt).map words) ∧
      (d ≠ 0 → IsExact (Fraction.ofRatio? n.toInt d.toInt) (n.toInt / d.toInt))) ∧
    (∀ s, parse s = .ok ((Fraction.parse? s).map words)) ∧
    (∀ bound, limitDenominator a bound = .ok (words (a.limitDenominator bound))) ∧
    approximate a = .ok (words a.approximate) ∧
    (add a b = .ok ((a.add? b).map words) ∧ IsExact (a.add? b) (a.toRat + b.toRat)) ∧
    (mul a b = .ok ((a.mul? b).map words) ∧ IsExact (a.mul? b) (a.toRat * b.toRat)) ∧
    (div a b = .ok ((a.div? b).map words) ∧
      if b.toRat = 0 then a.div? b = none else IsExact (a.div? b) (a.toRat / b.toRat)) ∧
    (pow a e = (if a.toRat = -2 ∧ e.toInt = 127 ∨ a.toRat = -1 / 2 ∧ e.toInt = -127
        then .error .overflow else .ok ((a.pow? e).map words)) ∧
      if a.toRat = 0 ∧ e.toInt < 0 then a.pow? e = none
        else IsExact (a.pow? e) (a.toRat ^ e.toInt)) ∧
    (compare a b = .ok (a.compare b) ∧ a.compare b = cmp a.toRat b.toRat ∧
      (a.compare b = .eq ↔ a = b)) := by
  refine ⟨fun w => Made.lowest, fun v w => Made.eq_iff, fun n d => ⟨new_eq n d, isExact_new⟩,
    parse_eq, limitDenominator_eq a, approximate_eq a, ⟨add_eq a b, ?_⟩, ⟨mul_eq a b, ?_⟩,
    ⟨div_eq a b, div?_isExact a b⟩, ⟨pow_eq a he, pow?_isExact a he⟩,
    ⟨compare_eq a b, Fraction.compare_eq a b, compare_eq_iff⟩⟩
  · rw [Fraction.add?_eq]
    exact isExact_ofRat? _
  · rw [Fraction.mul?_eq]
    exact isExact_ofRat? _

theorem toRat_ofWord_neg_two : (Fraction.ofWord (-2)).toRat = -2 :=
  toRat_eq_neg_two_iff.mpr ⟨rfl, rfl⟩

/-- The largest power of minus two that is a word. -/
theorem arithmetic_exact_neg_two_pow :
    (63 : Int64).toInt.natAbs < 2 ^ 32 ∧
    ∃ f, (Fraction.ofWord (-2)).pow? 63 = some f ∧ f.toRat = -2 ^ 63 ∧
      pow (Fraction.ofWord (-2)) 63 = .ok (some (words f)) := by
  have he : (63 : Int64).toInt.natAbs < 2 ^ 32 := by decide
  obtain ⟨-, -, -, -, -, -, -, -, -, ⟨hpow, hexact⟩, -⟩ :=
    arithmetic_exact (Fraction.ofWord (-2)) (Fraction.ofWord 1) he
  rw [toRat_ofWord_neg_two] at hpow hexact
  have hnum : (63 : Int64).toInt = 63 := rfl
  rw [if_neg (by norm_num [hnum])] at hpow hexact
  have hvalue : (-2 : ℚ) ^ (63 : Int64).toInt = ((-2 ^ 63 : Int) : ℚ) := by
    rw [hnum]
    norm_num
  rw [hvalue] at hexact
  obtain ⟨f, hf⟩ := Option.isSome_iff_exists.mp (hexact.1.mpr ⟨by decide, by decide⟩)
  refine ⟨he, f, hf, ?_, ?_⟩
  · rw [hexact.2 f hf]
    norm_num
  · rw [hpow, hf]
    rfl

/-- The one least word that a power of two meets has no size that a word holds. -/
theorem pow_overflows : pow (Fraction.ofWord (-2)) 127 = .error .overflow := by
  rw [pow_eq _ (by decide), if_pos (Or.inl ⟨toRat_ofWord_neg_two, rfl⟩)]

end Wide

end Worksheet
