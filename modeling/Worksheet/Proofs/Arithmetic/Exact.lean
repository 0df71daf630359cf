import Worksheet.Arithmetic.Machine
import Worksheet.Proofs.Number.Exact

/-!
# The exact part of the tower of numbers

Integers, truth values and fractions are exact, and so is what the operators make of them as long as
it is no real. On the way a machine negates a fraction or a period without a look at the result; the
least word is the one that has no opposite.

* **`intOp_sound`**, **`rationalOp_sound`** — an exact answer is the result in the rational numbers.
* **`Machine.rationalOp_eq`** — what a machine does with two fractions, step by step.
* **`Machine.exact_arithmetic`** — the headline; **`Machine.opposite_overflows`** — where a machine
  stumbles.
-/

namespace Worksheet

/-- The result of an operator in the rational numbers, if it has one there. -/
def Operator.meaning? (op : Operator) (x y : ℚ) : Option ℚ :=
  match op with
  | .add => some (x + y)
  | .sub => some (x - y)
  | .mul => some (x * y)
  | .div => if y = 0 then none else some (x / y)
  | .pow => if y.den = 1 ∧ ¬(x = 0 ∧ y < 0) then some (x ^ y.num) else none

namespace Arithmetic

/-- The exact number that a value is, if it is one. A truth value counts as 0 or 1. -/
def exactNumber? : Value → Option ℚ
  | .int n => some n.toInt
  | .bool b => some (if b then 1 else 0)
  | .rational f => some f.toRat
  | _ => none

/-- Is an answer the result of the operator wherever it is exact? -/
def Sound (op : Operator) (x y : ℚ) (r : Outcome) : Prop :=
  ∀ v z, r = .ok v → exactNumber? v = some z → op.meaning? x y = some z

theorem Sound.error {op : Operator} {x y : ℚ} (e : ArithmeticError) : Sound op x y (.error e) :=
  fun _ _ hv _ => nomatch hv

/-- A real says nothing exact. -/
theorem Sound.real {op : Operator} {x y : ℚ} (r : Float) : Sound op x y (.ok (.real r)) := by
  intro v z hv hz
  cases hv
  cases hz

theorem Sound.realOp {op : Operator} {x y : ℚ} (op' : Operator) (a b : Float) :
    Sound op x y (realOp op' a b) := by
  cases op' with
  | add | sub | mul => exact .real _
  | div =>
    unfold Arithmetic.realOp
    dsimp only
    split
    · exact .error _
    · exact .real _
  | pow =>
    unfold Arithmetic.realOp
    dsimp only
    split
    · exact .error _
    · split
      · exact .error _
      · exact .real _

theorem Sound.int {op : Operator} {x y : ℚ} {n : Int64} (h : op.meaning? x y = some (n.toInt : ℚ)) :
    Sound op x y (.ok (.int n)) := by
  intro v z hv hz
  cases hv
  cases hz
  exact h

theorem Sound.rational {op : Operator} {x y : ℚ} {f : Fraction} (h : op.meaning? x y = some f.toRat) :
    Sound op x y (.ok (.rational f)) := by
  intro v z hv hz
  cases hv
  cases hz
  exact h

/-! ## Integers -/

theorem Sound.orError_int {op : Operator} {x y : ℚ} {n : Int} (e : ArithmeticError)
    (h : op.meaning? x y = some (n : ℚ)) : Sound op x y (orError (word? n) .int e) := by
  unfold orError
  split
  · next w hw => exact .int (by rw [h, word?_eq_some_iff.mp hw])
  · exact .error e

/-- A quotient without a remainder. -/
theorem tdiv_eq_div {x y : Int} (hy : y ≠ 0) (h : x.tmod y = 0) : ((x.tdiv y : Int) : ℚ) = x / y := by
  have hx : x.tdiv y * y = x := by
    rw [Int.mul_comm]
    have := Int.tmod_add_mul_tdiv x y
    omega
  have hy' : (y : ℚ) ≠ 0 := by exact_mod_cast hy
  rw [eq_div_iff hy']
  exact_mod_cast hx

theorem intPow?_eq_some {x y p : Int64} (h : intPow? x y = some p) :
    0 ≤ y.toInt ∧ p.toInt = x.toInt ^ y.toInt.toNat := by
  unfold intPow? at h
  split at h
  · next hy =>
    obtain ⟨r, hr, hp⟩ := Option.bind_eq_some_iff.mp h
    rw [word?_eq_some_iff.mp hp, eq_of_powWithin? hr, one_mul]
    exact ⟨hy.1, rfl⟩
  · cases h

theorem intDiv_sound (x y : Int64) : Sound .div x.toInt y.toInt (intOp .div x y) := by
  unfold intOp
  dsimp only
  by_cases hy : y.toInt = 0
  · rw [if_pos hy]
    exact .error _
  · have hy' : (y.toInt : ℚ) ≠ 0 := by exact_mod_cast hy
    rw [if_neg hy]
    -- an integer is answered only where nothing is left over
    split
    · next q hq =>
      split at hq
      · next hmod =>
        refine .int ?_
        rw [word?_eq_some_iff.mp hq, tdiv_eq_div hy hmod, Operator.meaning?, if_neg hy']
      · cases hq
    · exact .real _

theorem intPow_sound (x y : Int64) : Sound .pow x.toInt y.toInt (intOp .pow x y) := by
  unfold intOp
  dsimp only
  split
  · split
    · exact .error _
    · exact .real _
  · split
    · next p hp =>
      obtain ⟨hy, hp⟩ := intPow?_eq_some hp
      refine .int ?_
      have hneg : ¬(y.toInt : ℚ) < 0 := by exact_mod_cast hy.not_gt
      rw [Operator.meaning?, if_pos ⟨Rat.den_intCast _, fun h => hneg h.2⟩, hp, Rat.num_intCast]
      push_cast
      rw [← zpow_natCast, Int.toNat_of_nonneg hy]
    · exact .real _

theorem intOp_sound (op : Operator) (x y : Int64) :
    Sound op x.toInt y.toInt (intOp op x y) := by
  cases op with
  | add => exact .orError_int _ (by simp [Operator.meaning?])
  | sub => exact .orError_int _ (by simp [Operator.meaning?])
  | mul => exact .orError_int _ (by simp [Operator.meaning?])
  | div => exact intDiv_sound x y
  | pow => exact intPow_sound x y

/-! ## Fractions -/

theorem toInt_neg_of_fits {w : Int64} (h : FitsWord (-w.toInt)) : (-w).toInt = -w.toInt := by
  obtain ⟨hlow, hhigh⟩ := h
  have hword := w.le_toInt
  rw [Int64.toInt_neg, Int.bmod_eq_of_le] <;> omega

/-- The least word is the one whose opposite does not fit. -/
theorem fitsWord_neg_iff {w : Int64} : FitsWord (-w.toInt) ↔ w.toInt ≠ -2 ^ 63 := by
  have hlow := w.le_toInt
  have hhigh := w.toInt_lt
  unfold FitsWord
  omega

theorem ite_fitsWord_neg {α : Type} (w : Int64) (a b : α) :
    (if FitsWord (-w.toInt) then a else b) = if w.toInt = -2 ^ 63 then b else a := by
  by_cases hleast : w.toInt = -2 ^ 63
  · rw [if_pos hleast, if_neg (fun h => fitsWord_neg_iff.mp h hleast)]
  · rw [if_neg hleast, if_pos (fitsWord_neg_iff.mpr hleast)]

theorem toRat_neg {f : Fraction} (h : FitsWord (-f.num.toInt)) : f.neg.toRat = -f.toRat := by
  have hnum := toInt_neg_of_fits h
  have hcoprime : Int.gcd (-f.num).toInt f.den.toInt = 1 := by rw [hnum, Int.neg_gcd, f.coprime]
  have hneg : f.neg = ⟨-f.num, f.den, f.den_pos, hcoprime⟩ := by
    unfold Fraction.neg Fraction.ofCoprime?
    rw [dif_pos ⟨f.den_pos, hcoprime⟩]
    rfl
  have hratio : f.neg.toRat = (-f.num).toInt / f.den.toInt := by rw [hneg, Fraction.toRat]
  rw [hratio, hnum, Int.cast_neg, neg_div, Fraction.toRat]

/-- Does a word overflow on the way to the result of two fractions? -/
def Overflows (op : Operator) (x y : ℚ) : Prop :=
  match op with
  | .sub => y.num = -2 ^ 63
  | .pow => x = -2 ∧ y = 127 ∨ x = -1 / 2 ∧ y = -127
  | .add | .mul | .div => False

instance (op : Operator) (x y : ℚ) : Decidable (Overflows op x y) := by
  unfold Overflows
  cases op <;> infer_instance

theorem pow?_eq_none (f : Fraction) {e : Int64} (he : 0x100000000 ≤ e.toInt.natAbs) :
    f.pow? e = none := by
  unfold Fraction.pow?
  simp only [he, if_true]
  split
  · cases (Fraction.ofWord 1).div? f <;> rfl
  · rfl

theorem toRat_of_pow? {f g : Fraction} {e : Int64} (h : f.pow? e = some g) :
    g.toRat = f.toRat ^ e.toInt := by
  have he : e.toInt.natAbs < 0x100000000 := by
    by_contra hlarge
    rw [pow?_eq_none f (Nat.not_lt.mp hlarge)] at h
    cases h
  rw [Fraction.pow?_eq f he] at h
  split at h
  · cases h
  · exact Fraction.ofRat?_eq_some_iff.mp h

/-- The exact result, where it fits, and a real where it does not. -/
def settled (op : Operator) (x y : Fraction) (exact : Option Fraction) : Outcome :=
  match exact with
  | some f => .ok (.rational f)
  | none => realOp op x.toReal y.toReal

theorem Sound.settled {op : Operator} {x y : Fraction} {q : ℚ} {exact : Option Fraction}
    (hq : op.meaning? x.toRat y.toRat = some q) (hexact : ∀ f, exact = some f → f.toRat = q) :
    Sound op x.toRat y.toRat (settled op x y exact) := by
  cases exact with
  | none => exact .realOp op _ _
  | some f => exact .rational (by rw [hq, hexact f rfl])

theorem rationalDiv_sound (x y : Fraction) :
    Sound .div x.toRat y.toRat (rationalOp .div x y) := by
  by_cases hy : y.num = 0
  · rw [rationalOp, if_pos hy]
    exact .error _
  · rw [rationalOp, if_neg hy]
    rw [← Fraction.toRat_eq_zero_iff] at hy
    refine Sound.settled (if_neg hy) fun f hf => ?_
    rw [Fraction.div?_eq, if_neg hy] at hf
    exact Fraction.ofRat?_eq_some_iff.mp hf

theorem rationalPow_sound (x y : Fraction) :
    Sound .pow x.toRat y.toRat (rationalOp .pow x y) := by
  cases hwhole : y.isWhole with
  | false =>
    rw [rationalOp, hwhole]
    exact .realOp .pow _ _
  | true =>
    have hy := Fraction.toRat_of_isWhole hwhole
    by_cases hzero : x.num = 0 ∧ y.num.toInt < 0
    · rw [rationalOp, hwhole, if_neg (by decide), if_pos hzero]
      exact .error _
    · rw [rationalOp, hwhole, if_neg (by decide), if_neg hzero]
      have hdefined : ¬(x.toRat = 0 ∧ y.toRat < 0) := by
        rw [Fraction.toRat_eq_zero_iff, hy]
        exact_mod_cast hzero
      refine Sound.settled (if_pos ⟨Fraction.isWhole_iff.mp hwhole, hdefined⟩) fun f hf => ?_
      rw [y.num_toRat]
      exact toRat_of_pow? hf

theorem rationalOp_sound {op : Operator} {x y : Fraction} (h : ¬Overflows op x.toRat y.toRat) :
    Sound op x.toRat y.toRat (rationalOp op x y) := by
  cases op with
  | add =>
    refine Sound.settled rfl fun f hf => ?_
    rw [Fraction.add?_eq] at hf
    exact Fraction.ofRat?_eq_some_iff.mp hf
  | sub =>
    -- a difference is a sum with the opposite, which fits unless the machine stumbles over it
    have hfits : FitsWord (-y.num.toInt) := by
      rw [fitsWord_neg_iff, ← y.num_toRat]
      exact h
    refine Sound.settled rfl fun f hf => ?_
    rw [Fraction.sub?, Fraction.add?_eq, toRat_neg hfits] at hf
    rw [Fraction.ofRat?_eq_some_iff.mp hf, sub_eq_add_neg]
  | mul =>
    refine Sound.settled rfl fun f hf => ?_
    rw [Fraction.mul?_eq] at hf
    exact Fraction.ofRat?_eq_some_iff.mp hf
  | div => exact rationalDiv_sound x y
  | pow => exact rationalPow_sound x y

/-! ## Values -/

/-- Is the value a fraction? -/
def isFraction : Value → Bool
  | .rational _ => true
  | _ => false

/-- Does a machine stumble over two exact values? Over two integers it never does. -/
def Stumbles (op : Operator) (a b : Value) (x y : ℚ) : Prop :=
  (isFraction a || isFraction b) = true ∧ Overflows op x y

instance (op : Operator) (a b : Value) (x y : ℚ) : Decidable (Stumbles op a b x y) :=
  inferInstanceAs (Decidable (_ ∧ _))

/-- An exact number is an integer or a fraction to the operators. -/
theorem exactNumber?_cases {a : Value} {x : ℚ} (h : exactNumber? a = some x) :
    (∃ n : Int64, Number.ofValue? a = some (.int n) ∧ isFraction a = false ∧ x = n.toInt) ∨
      ∃ f : Fraction, a = .rational f ∧ x = f.toRat := by
  cases a with
  | int n =>
    cases h
    exact .inl ⟨n, rfl, rfl, rfl⟩
  | bool b =>
    cases h
    cases b
    · exact .inl ⟨0, rfl, rfl, by simp⟩
    · exact .inl ⟨1, rfl, rfl, by simp⟩
  | rational f =>
    cases h
    exact .inr ⟨f, rfl, rfl⟩
  | _ => cases h

/-- So many months, as an answer. -/
def monthsOutcome (n : Int) : Outcome := orError (word? n) (fun m => .period ⟨m⟩) .dateRange

end Arithmetic

/-! ## On a machine -/

namespace Wide

theorem neg_eq (f : Fraction) :
    neg f = if f.num.toInt = -2 ^ 63 then .error .overflow else .ok f.neg := by
  unfold neg
  exact Arithmetic.ite_fitsWord_neg f.num _ _

theorem sub_eq (a b : Fraction) :
    sub a b
      = if b.num.toInt = -2 ^ 63 then .error .overflow else .ok ((a.sub? b).map words) := by
  unfold sub
  rw [neg_eq]
  split
  · rfl
  · exact add_eq a b.neg

/-- The words of a fraction are in lowest terms. -/
theorem bind_ofCoprime?_words (exact : Option Fraction) :
    ((exact.map words).bind fun w => Fraction.ofCoprime? w.1 w.2) = exact := by
  cases exact with
  | none => rfl
  | some f => exact dif_pos ⟨f.den_pos, f.coprime⟩

end Wide

namespace Machine

open Arithmetic

theorem negPeriod_eq (p : Period) :
    negPeriod p = if p.months.toInt = -2 ^ 63 then .error .overflow else .ok p.neg := by
  unfold negPeriod
  exact ite_fitsWord_neg p.months _ _

/-- A machine that meets no fault settles for the same answer. -/
theorem map_settled (op : Operator) (x y : Fraction) (exact : Option Fraction) :
    (Except.ok (exact.map Wide.words) : Except Fault _).map
        (fun e => settled op x y (e.bind fun w => Fraction.ofCoprime? w.1 w.2))
      = .ok (settled op x y exact) := by
  rw [Except.map, Wide.bind_ofCoprime?_words]

/-- A power overflows in two cases, and in none of them the exponent is too large to be tried. -/
theorem map_pow (x : Fraction) {y : Fraction} (hwhole : y.isWhole = true) :
    (Wide.pow x y.num).map
        (fun e => settled .pow x y (e.bind fun w => Fraction.ofCoprime? w.1 w.2))
      = if Overflows .pow x.toRat y.toRat then .error .overflow
        else .ok (settled .pow x y (x.pow? y.num)) := by
  have hoverflows : Overflows .pow x.toRat y.toRat ↔
      x.toRat = -2 ∧ y.num.toInt = 127 ∨ x.toRat = -1 / 2 ∧ y.num.toInt = -127 := by
    show _ ∧ _ ∨ _ ∧ _ ↔ _
    rw [Fraction.toRat_of_isWhole hwhole]
    norm_cast
  by_cases hsmall : y.num.toInt.natAbs < 0x100000000
  · rw [Wide.pow_eq x hsmall]
    simp only [hoverflows]
    split
    · rfl
    · exact map_settled .pow x y _
  · have hlarge := Nat.not_lt.mp hsmall
    have hnot : ¬Overflows .pow x.toRat y.toRat := by
      rw [hoverflows]
      rintro (⟨-, h⟩ | ⟨-, h⟩) <;> rw [h] at hsmall <;> exact hsmall (by decide)
    rw [Wide.pow_eq_none x hlarge, if_neg hnot, pow?_eq_none x hlarge]
    exact map_settled .pow x y none

/-- The two powers that overflow have whole exponents. -/
theorem isWhole_of_overflows {x : ℚ} {y : Fraction} (h : Overflows .pow x y.toRat) :
    y.isWhole = true := by
  rw [Fraction.isWhole_iff]
  obtain ⟨-, h⟩ | ⟨-, h⟩ := h <;> rw [h] <;> rfl

/-- And neither of their bases is zero. -/
theorem ne_zero_of_overflows {x y : ℚ} (h : Overflows .pow x y) : x ≠ 0 := by
  rintro rfl
  obtain ⟨h, -⟩ | ⟨h, -⟩ := h <;> norm_num at h

theorem rationalOp_eq (op : Operator) (x y : Fraction) :
    rationalOp op x y = if Overflows op x.toRat y.toRat then .error .overflow
      else .ok (Arithmetic.rationalOp op x y) := by
  cases op with
  | add =>
    show (Wide.add x y).map _ = _
    rw [Wide.add_eq]
    exact map_settled .add x y _
  | sub =>
    -- the number that is taken away is negated first, which the least numerator cannot be
    show (Wide.sub x y).map _ = if y.toRat.num = -2 ^ 63 then _ else _
    rw [Wide.sub_eq, y.num_toRat]
    split
    · rfl
    · exact map_settled .sub x y _
  | mul =>
    show (Wide.mul x y).map _ = _
    rw [Wide.mul_eq]
    exact map_settled .mul x y _
  | div =>
    rw [rationalOp, Arithmetic.rationalOp, if_neg (show ¬Overflows .div _ _ from id)]
    split
    · rfl
    · rw [Wide.div_eq]
      exact map_settled .div x y _
  | pow =>
    rw [rationalOp, Arithmetic.rationalOp]
    cases hwhole : y.isWhole with
    | false =>
      have hfraction : ¬Overflows .pow x.toRat y.toRat := by
        intro h
        rw [isWhole_of_overflows h] at hwhole
        cases hwhole
      rw [if_neg hfraction]
      rfl
    | true =>
      simp only [Bool.not_true, Bool.false_eq_true, if_false]
      by_cases hzero : x.num = 0 ∧ y.num.toInt < 0
      · have hbase : ¬Overflows .pow x.toRat y.toRat :=
          fun h => ne_zero_of_overflows h (Fraction.toRat_eq_zero_iff.mpr hzero.1)
        rw [if_pos hzero, if_neg hbase, if_pos hzero]
      · rw [if_neg hzero, if_neg hzero]
        exact map_pow x hwhole

theorem binary_eq_of_fractions {op : Operator} {a b : Value} {x y : Fraction}
    (hkind : (isFraction a || isFraction b) = true) (hmachine : binary op a b = rationalOp op x y)
    (hpure : Arithmetic.binary op a b = Arithmetic.rationalOp op x y) :
    binary op a b = (if Stumbles op a b x.toRat y.toRat then .error .overflow
        else .ok (Arithmetic.binary op a b)) ∧
      (¬Stumbles op a b x.toRat y.toRat → Sound op x.toRat y.toRat (Arithmetic.binary op a b)) := by
  simp only [Stumbles, hkind, true_and]
  rw [hmachine, hpure]
  exact ⟨rationalOp_eq op x y, rationalOp_sound⟩

theorem binary_eq (op : Operator) {a b : Value} {x y : ℚ} (ha : exactNumber? a = some x)
    (hb : exactNumber? b = some y) :
    binary op a b = (if Stumbles op a b x y then .error .overflow
        else .ok (Arithmetic.binary op a b)) ∧
      (¬Stumbles op a b x y → Sound op x y (Arithmetic.binary op a b)) := by
  rcases exactNumber?_cases ha with ⟨m, hm, hma, rfl⟩ | ⟨f, rfl, rfl⟩
  · rcases exactNumber?_cases hb with ⟨n, hn, hnb, rfl⟩ | ⟨g, rfl, rfl⟩
    · have hwords : ¬Stumbles op a b m.toInt n.toInt := fun h => by
        simpa [hma, hnb] using h.1
      rw [if_neg hwords]
      unfold binary Arithmetic.binary
      rw [hm, hn]
      exact ⟨rfl, fun _ => intOp_sound op m n⟩
    · -- with a fraction on one side, the other side is taken as a fraction too
      rw [← Fraction.toRat_ofWord m]
      refine binary_eq_of_fractions (Bool.or_true _) ?_ ?_
      · unfold binary
        rw [hm]
        rfl
      · unfold Arithmetic.binary
        rw [hm]
        rfl
  · rcases exactNumber?_cases hb with ⟨n, hn, hnb, rfl⟩ | ⟨g, rfl, rfl⟩
    · rw [← Fraction.toRat_ofWord n]
      refine binary_eq_of_fractions rfl ?_ ?_
      · unfold binary
        rw [hn]
        rfl
      · unfold Arithmetic.binary
        rw [hn]
        rfl
    · exact binary_eq_of_fractions rfl rfl rfl

theorem negate_eq {a : Value} {x : ℚ} (ha : exactNumber? a = some x) :
    let overflows := isFraction a = true ∧ x.num = -2 ^ 63
    negate a = (if overflows then .error .overflow else .ok (Arithmetic.negate a)) ∧
      (¬overflows → ∀ v z, Arithmetic.negate a = .ok v → exactNumber? v = some z → z = -x) := by
  cases a with
  | int n =>
    cases ha
    refine ⟨(if_neg fun h => nomatch h.1).symm, fun _ v z hv hz => ?_⟩
    have hv : orError (word? (-n.toInt)) Value.int .integerOverflow = .ok v := hv
    unfold orError at hv
    split at hv
    · next w hw =>
      cases hv
      cases hz
      rw [word?_eq_some_iff.mp hw, Int.cast_neg]
    · cases hv
  | bool b => exact ⟨(if_neg fun h => nomatch h.1).symm, fun _ v z hv _ => nomatch hv⟩
  | rational f =>
    cases ha
    show (Wide.neg f).map _ = (if true = true ∧ f.toRat.num = -2 ^ 63 then _ else _) ∧ _
    rw [Wide.neg_eq, f.num_toRat]
    simp only [true_and]
    refine ⟨by split <;> rfl, fun hleast v z hv hz => ?_⟩
    cases hv
    cases hz
    exact toRat_neg (fitsWord_neg_iff.mpr fun h => hleast ⟨rfl, h⟩)
  | _ => cases ha

theorem monthsOutcome_neg {p : Period} (h : FitsWord (-p.months.toInt)) :
    monthsOutcome (-p.months.toInt) = .ok (.period p.neg) := by
  rw [monthsOutcome, word?_eq_some_iff.mpr (toInt_neg_of_fits h)]
  rfl

theorem subPeriod_eq (p q : Period) :
    binary .sub (.period p) (.period q) = if q.months.toInt = -2 ^ 63 then .error .overflow
      else .ok (monthsOutcome (p.months.toInt - q.months.toInt)) := by
  show (negPeriod q).map _ = _
  rw [negPeriod_eq]
  split
  · rfl
  · next hleast =>
    show Except.ok (orError (((word? (p.months.toInt + (-q.months).toInt))).map Period.mk) _ _) = _
    rw [toInt_neg_of_fits (fitsWord_neg_iff.mpr hleast), ← sub_eq_add_neg, monthsOutcome]
    cases word? (p.months.toInt - q.months.toInt) <;> rfl

theorem negatePeriod_eq (p : Period) :
    negate (.period p) = if p.months.toInt = -2 ^ 63 then .error .overflow
      else .ok (monthsOutcome (-p.months.toInt)) := by
  show (negPeriod p).map _ = _
  rw [negPeriod_eq]
  split
  · rfl
  · next hleast =>
    rw [monthsOutcome_neg (fitsWord_neg_iff.mpr hleast)]
    rfl

/-- **The exact part of the tower of numbers never lies.** A machine meets no fault in the operators
on exact numbers and on periods, and an exact answer is the exact result; but a fraction or a period
whose opposite is asked for must not be the least word, and two powers of fractions overflow. -/
theorem exact_arithmetic (op : Operator) {a b : Value} {x y : ℚ} (ha : exactNumber? a = some x)
    (hb : exactNumber? b = some y) (p q : Period) :
    (binary op a b = (if Stumbles op a b x y then .error .overflow
        else .ok (Arithmetic.binary op a b)) ∧
      (¬Stumbles op a b x y → Sound op x y (Arithmetic.binary op a b))) ∧
    (let overflows := isFraction a = true ∧ x.num = -2 ^ 63
     negate a = (if overflows then .error .overflow else .ok (Arithmetic.negate a)) ∧
      (¬overflows → ∀ v z, Arithmetic.negate a = .ok v → exactNumber? v = some z → z = -x)) ∧
    (binary .add (.period p) (.period q)
        = .ok (monthsOutcome (p.months.toInt + q.months.toInt)) ∧
      binary .sub (.period p) (.period q) = (if q.months.toInt = -2 ^ 63 then .error .overflow
        else .ok (monthsOutcome (p.months.toInt - q.months.toInt))) ∧
      negate (.period p) = if p.months.toInt = -2 ^ 63 then .error .overflow
        else .ok (monthsOutcome (-p.months.toInt))) := by
  refine ⟨binary_eq op ha hb, negate_eq ha, ?_, subPeriod_eq p q, negatePeriod_eq p⟩
  show Except.ok (orError ((word? (p.months.toInt + q.months.toInt)).map Period.mk) _ _) = _
  rw [monthsOutcome]
  cases word? (p.months.toInt + q.months.toInt) <;> rfl

/-- A fraction whose numerator is next to the least word. -/
theorem exact_arithmetic_third :
    let third : Fraction := ⟨Int64.minValue + 1, 3, by decide, by decide⟩
    exactNumber? (.int 1) = some 1 ∧
    exactNumber? (.rational third) = some third.toRat ∧
    binary .sub (.int 1) (.rational third)
      = .ok (Arithmetic.binary .sub (.int 1) (.rational third)) ∧
    Sound .sub 1 third.toRat (Arithmetic.binary .sub (.int 1) (.rational third)) := by
  intro third
  have hone : exactNumber? (.int 1) = some 1 := by decide
  have hfits : ¬Stumbles .sub (.int 1) (.rational third) 1 third.toRat := by
    rintro ⟨-, h⟩
    have hnum : third.toRat.num = -2 ^ 63 := h
    rw [third.num_toRat] at hnum
    exact absurd hnum (by decide)
  have hthird : exactNumber? (.rational third) = some third.toRat := rfl
  obtain ⟨⟨hmachine, hsound⟩, -⟩ := exact_arithmetic .sub hone hthird ⟨1⟩ ⟨2⟩
  rw [if_neg hfits] at hmachine
  exact ⟨hone, hthird, hmachine, hsound hfits⟩

/-- From no months the least number of months is taken away, and the least fraction is negated. A
machine that checks its arithmetic stumbles, and one that does not answers what it was given. -/
theorem opposite_overflows :
    let months : Value := .period ⟨Int64.minValue⟩
    let fraction : Value := .rational (Fraction.ofWord Int64.minValue)
    (binary .sub (.period ⟨0⟩) months = .error .overflow ∧
      Arithmetic.binary .sub (.period ⟨0⟩) months = .ok months ∧
      monthsOutcome (0 - Int64.minValue.toInt) = .error .dateRange) ∧
    negate fraction = .error .overflow ∧ Arithmetic.negate fraction = .ok fraction :=
  ⟨⟨rfl, rfl, rfl⟩, rfl, rfl⟩

end Machine

end Worksheet
