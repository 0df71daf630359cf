import Worksheet.Number.Real

/-!
# Exact fractions

A fraction is a pair of words in lowest terms with a positive denominator, so two fractions are
equal exactly when they denote the same number. Every operation computes its numerator and
denominator in the integers and reduces them; it has no answer when the reduced pair does not fit
in words.

Main statements: `ofRatio?_eq_some_iff` says which fraction a ratio reduces to, and `ext_of_cross`
that cross multiplication decides equality.
-/

namespace Worksheet

open Worksheet.Text

/-- A rational number in lowest terms whose numerator and denominator are words. -/
structure Fraction where
  /-- The numerator, which carries the sign. -/
  num : Int64
  /-- The denominator. -/
  den : Int64
  den_pos : 0 < den.toInt
  coprime : Int.gcd num.toInt den.toInt = 1
deriving DecidableEq

namespace Fraction

/-- A pair in lowest terms, if it is one. -/
def ofCoprime? (n d : Int64) : Option Fraction :=
  if h : 0 < d.toInt ∧ Int.gcd n.toInt d.toInt = 1 then some ⟨n, d, h.1, h.2⟩ else none

/-- Numerator and denominator of `n / d` in lowest terms with a positive denominator. -/
def reduce (n d : Int) : Int × Int :=
  let g : Int := Int.gcd n d
  if d < 0 then (-(n / g), -(d / g)) else (n / g, d / g)

/-- The fraction `n / d`; none if `d` is zero or the reduced pair does not fit in words. -/
def ofRatio? (n d : Int) : Option Fraction :=
  if d = 0 then none
  else
    match word? (reduce n d).1, word? (reduce n d).2 with
    | some p, some q => ofCoprime? p q
    | _, _ => none

/-- A whole number. -/
def ofWord (n : Int64) : Fraction :=
  ⟨n, 1, by decide, by rw [show (1 : Int64).toInt = 1 from rfl]; exact Int.gcd_one⟩

/-- Is the denominator one? -/
def isWhole (f : Fraction) : Bool := f.den == 1

/-- The quotient of numerator and denominator, each rounded to a real first. -/
def toReal (f : Fraction) : Float := Real.ofWord f.num / Real.ofWord f.den

/-! ## Reduction -/

theorem reduce_den_pos {n d : Int} (hd : d ≠ 0) : 0 < (reduce n d).2 := by
  have hg : 0 < (Int.gcd n d : Int) := by
    have : Int.gcd n d ≠ 0 := by
      intro h; exact hd (Int.gcd_eq_zero_iff.1 h).2
    omega
  have hdvd : (Int.gcd n d : Int) ∣ d := Int.gcd_dvd_right n d
  have hmul : d / (Int.gcd n d : Int) * (Int.gcd n d : Int) = d := Int.ediv_mul_cancel hdvd
  unfold reduce
  by_cases h : d < 0
  · simp only [h, if_true]
    have : d / (Int.gcd n d : Int) < 0 := by
      rcases Int.lt_or_le (d / (Int.gcd n d : Int)) 0 with h' | h'
      · exact h'
      · have := Int.mul_nonneg h' (Int.le_of_lt hg); omega
    omega
  · simp only [h, if_false]
    rcases Int.lt_or_le 0 (d / (Int.gcd n d : Int)) with h' | h'
    · exact h'
    · have := Int.mul_nonneg (show 0 ≤ -(d / (Int.gcd n d : Int)) by omega) (Int.le_of_lt hg)
      rw [Int.neg_mul, hmul] at this; omega

/-- Reducing keeps the ratio. -/
theorem reduce_cross (n d : Int) : (reduce n d).1 * d = n * (reduce n d).2 := by
  have hn : n / (Int.gcd n d : Int) * (Int.gcd n d : Int) = n :=
    Int.ediv_mul_cancel (Int.gcd_dvd_left n d)
  have hd : d / (Int.gcd n d : Int) * (Int.gcd n d : Int) = d :=
    Int.ediv_mul_cancel (Int.gcd_dvd_right n d)
  have key : n / (Int.gcd n d : Int) * d = n * (d / (Int.gcd n d : Int)) := by
    calc n / (Int.gcd n d : Int) * d
        = n / (Int.gcd n d : Int) * (d / (Int.gcd n d : Int) * (Int.gcd n d : Int)) := by rw [hd]
      _ = n / (Int.gcd n d : Int) * (Int.gcd n d : Int) * (d / (Int.gcd n d : Int)) := by
          rw [Int.mul_comm (d / (Int.gcd n d : Int)), ← Int.mul_assoc]
      _ = n * (d / (Int.gcd n d : Int)) := by rw [hn]
  unfold reduce
  by_cases h : d < 0
  · simp only [h, if_true]; rw [Int.neg_mul, key, Int.mul_neg]
  · simp only [h, if_false]; exact key

theorem reduce_coprime {n d : Int} (hd : d ≠ 0) :
    Int.gcd (reduce n d).1 (reduce n d).2 = 1 := by
  have hg : 0 < Int.gcd n d := by
    have : Int.gcd n d ≠ 0 := by
      intro h; exact hd (Int.gcd_eq_zero_iff.1 h).2
    omega
  have key := Int.gcd_ediv_gcd_ediv_gcd hg
  unfold reduce
  by_cases h : d < 0
  · simp only [h, if_true, Int.gcd_neg, Int.neg_gcd]; exact key
  · simp only [h, if_false]; exact key

/-- The fraction found for a ratio is the reduced pair, and it is found exactly when both parts of
that pair fit. -/
theorem ofRatio?_eq_some_iff {n d : Int} {f : Fraction} :
    ofRatio? n d = some f ↔
      d ≠ 0 ∧ f.num.toInt = (reduce n d).1 ∧ f.den.toInt = (reduce n d).2 := by
  unfold ofRatio?
  by_cases hd : d = 0
  · simp [hd]
  · simp only [hd, if_false, ne_eq, not_false_eq_true, true_and]
    constructor
    · intro h
      split at h
      · next p q hp hq =>
        unfold ofCoprime? at h
        split at h
        · rw [← Option.some.inj h]
          exact ⟨word?_eq_some_iff.1 hp, word?_eq_some_iff.1 hq⟩
        · exact absurd h (by simp)
      · exact absurd h (by simp)
    · rintro ⟨h1, h2⟩
      rw [word?_eq_some_iff.2 h1, word?_eq_some_iff.2 h2]
      simp only [ofCoprime?]
      rw [dif_pos ⟨f.den_pos, f.coprime⟩]

/-- A divisor of a product that shares no factor with the left one divides the right one. -/
theorem dvd_of_gcd_eq_one {a b c : Int} (h : a ∣ b * c) (hab : Int.gcd b a = 1) : a ∣ c := by
  rw [← Int.natAbs_dvd_natAbs] at h ⊢
  rw [Int.natAbs_mul] at h
  exact Nat.Coprime.dvd_of_dvd_mul_left (show Nat.gcd a.natAbs b.natAbs = 1 by
    rw [Nat.gcd_comm]; exact hab) h

/-- Two fractions with equal cross products are equal: lowest terms are unique. -/
theorem ext_of_cross {f g : Fraction}
    (h : f.num.toInt * g.den.toInt = g.num.toInt * f.den.toInt) : f = g := by
  have hfd := f.den_pos
  have hgd := g.den_pos
  have dvd1 : f.den.toInt ∣ g.den.toInt := by
    have : f.den.toInt ∣ f.num.toInt * g.den.toInt := ⟨g.num.toInt, by rw [h, Int.mul_comm]⟩
    exact dvd_of_gcd_eq_one this f.coprime
  have dvd2 : g.den.toInt ∣ f.den.toInt := by
    have : g.den.toInt ∣ g.num.toInt * f.den.toInt := ⟨f.num.toInt, by rw [← h, Int.mul_comm]⟩
    exact dvd_of_gcd_eq_one this g.coprime
  have hden : f.den.toInt = g.den.toInt :=
    Int.le_antisymm (Int.le_of_dvd hgd dvd1) (Int.le_of_dvd hfd dvd2)
  have hnum : f.num.toInt = g.num.toInt := by
    rw [hden] at h
    exact Int.eq_of_mul_eq_mul_right (by omega) h
  cases f; cases g
  simp only [mk.injEq]
  exact ⟨Int64.toInt_inj.1 hnum, Int64.toInt_inj.1 hden⟩

/-! ## Arithmetic -/

/-- Unreduced numerator and denominator of the sum. -/
def sumTerms (a b : Fraction) : Int × Int :=
  (a.num.toInt * b.den.toInt + b.num.toInt * a.den.toInt, a.den.toInt * b.den.toInt)

/-- Unreduced numerator and denominator of the product. -/
def productTerms (a b : Fraction) : Int × Int :=
  (a.num.toInt * b.num.toInt, a.den.toInt * b.den.toInt)

/-- Unreduced numerator and denominator of the quotient. -/
def quotientTerms (a b : Fraction) : Int × Int :=
  (a.num.toInt * b.den.toInt, a.den.toInt * b.num.toInt)

/-- The negated fraction. Words negate modulo `2 ^ 64`, so the least numerator stays itself. -/
def neg (a : Fraction) : Fraction :=
  (ofCoprime? (-a.num) a.den).getD a

/-- The sum, if it fits. -/
def add? (a b : Fraction) : Option Fraction := ofRatio? (sumTerms a b).1 (sumTerms a b).2

/-- The difference: the sum with the negated second operand. -/
def sub? (a b : Fraction) : Option Fraction := add? a b.neg

/-- The product, if it fits. -/
def mul? (a b : Fraction) : Option Fraction := ofRatio? (productTerms a b).1 (productTerms a b).2

/-- The quotient, if the divisor is not zero and the quotient fits. -/
def div? (a b : Fraction) : Option Fraction :=
  if b.num = 0 then none else ofRatio? (quotientTerms a b).1 (quotientTerms a b).2

/-- The power with a whole exponent below `2 ^ 32` in size. A negative exponent inverts the base
first. -/
def pow? (a : Fraction) (e : Int64) : Option Fraction := do
  let base ← if e.toInt < 0 then div? (ofWord 1) a else some a
  let k := e.toInt.natAbs
  if 0x100000000 ≤ k then none
  else
    let n ← powWithin? (decide <| FitsWide ·) 1 base.num.toInt k
    let d ← powWithin? (decide <| FitsWide ·) 1 base.den.toInt k
    ofRatio? n d

/-- The numerical order, by cross multiplication. -/
def compare (a b : Fraction) : Ordering :=
  Ord.compare (a.num.toInt * b.den.toInt) (b.num.toInt * a.den.toInt)

/-- `n/d`, or `n` for a whole number. -/
def text (f : Fraction) : List Char :=
  if f.isWhole then showInt f.num.toInt
  else showInt f.num.toInt ++ '/' :: showInt f.den.toInt

/-! ## Reading -/

/-- An optional sign and the rest of a decimal numeral. -/
def splitSign (s : List Char) : Bool × List Char :=
  match s with
  | '-' :: r => (true, r)
  | '+' :: r => (false, r)
  | r => (false, r)

/-- The digits read one by one, none as soon as a partial value exceeds a 128-bit word. -/
def readWide? (s : List Char) : Option Int :=
  s.foldlM (fun n c =>
    let n := 10 * n + digitValue c
    if FitsWide n then some n else none) (0 : Int)

/--
Reads `n/d`, or an exact decimal numeral with optional sign and point, around which blanks may
stand. Decimal digits are limited to what 128 bits hold, 38 of them behind the point.
-/
def parse? (s : List Char) : Option Fraction :=
  let s := trim s
  match cutAt? '/' s with
  | some (n, d) => do
    let n ← readWord? (trim n)
    let d ← readWord? (trim d)
    ofRatio? n.toInt d.toInt
  | none =>
    let (negative, digits) := splitSign s
    let (whole, fraction) := (cutAt? '.' digits).getD (digits, [])
    if (whole ++ fraction).isEmpty || !(whole ++ fraction).all isDigit then none
    else do
      let n ← readWide? (whole ++ fraction)
      if fraction.length > 38 then none
      else ofRatio? (if negative then -n else n) (Nat.pow 10 fraction.length : Nat)

/-! ## Continued fractions -/

/-- The last two convergents `p / q` of a continued fraction, the newer one second. -/
structure Convergents where
  /-- Numerator of the older convergent. -/
  p₀ : Int
  /-- Denominator of the older convergent. -/
  q₀ : Int
  /-- Numerator of the newer convergent. -/
  p₁ : Int
  /-- Denominator of the newer convergent. -/
  q₁ : Int
deriving Repr, DecidableEq

namespace Convergents

/-- The formal convergents `0 / 1` and `1 / 0` before the first step. -/
def start : Convergents := ⟨0, 1, 1, 0⟩

/-- The convergents after one more partial quotient `a`. -/
def next (c : Convergents) (a : Int) : Convergents := ⟨c.p₁, c.q₁, c.p₀ + a * c.p₁, c.q₀ + a * c.q₁⟩

/--
Expands `n / d` as long as the denominator of the next convergent is at most `bound`. One step
replaces `n / d` by `d / (n mod d)`, so the denominators fall.
-/
def expand (bound : Int) (c : Convergents) (n : Int) (d : Nat) : Convergents :=
  if _h : d = 0 then c
  else
    let a := n / (d : Int)
    if bound < (c.next a).q₁ then c
    else expand bound (c.next a) d (n % (d : Int)).toNat
termination_by d
decreasing_by
  have := Int.emod_nonneg n (show (d : Int) ≠ 0 by omega)
  have := Int.emod_lt_of_pos n (show 0 < (d : Int) by omega)
  omega

end Convergents

/--
A fraction close to `f` whose denominator is at most `bound`: the last convergent that keeps the
bound, or the best mediant between it and the one before, whichever is nearer when measured in
reals; the convergent wins a tie.
-/
def limitDenominator (f : Fraction) (bound : Int64) : Fraction :=
  if bound.toInt < 1 ∨ f.den.toInt ≤ bound.toInt then f
  else
    let c := Convergents.start.expand bound.toInt f.num.toInt f.den.toInt.toNat
    let k := Int.tdiv (bound.toInt - c.q₀) c.q₁
    let mediant := ofRatio? (c.p₀ + k * c.p₁) (c.q₀ + k * c.q₁)
    let convergent := ofRatio? c.p₁ c.q₁
    match mediant, convergent with
    | some m, some v =>
      let target := f.toReal
      if (v.toReal - target).abs ≤ (m.toReal - target).abs then v else m
    | none, some v => v
    | some m, none => m
    | none, none => f

/-- The relative error that `approximate` accepts. -/
def tolerance : Float := 1e-4

/-- The convergents of `n / d` in turn, until one is within the tolerance of `f`. -/
def approximateFrom (f : Fraction) (c : Convergents) (n : Int) (d : Nat) : Fraction :=
  if _h : d = 0 then f
  else
    let c' := c.next (n / (d : Int))
    match ofRatio? c'.p₁ c'.q₁ with
    | none => f
    | some candidate =>
      let target := f.toReal
      let error := (candidate.toReal - target).abs
      if error ≤ tolerance * target.abs || error == 0.0 then candidate
      else approximateFrom f c' d (n % (d : Int)).toNat
termination_by d
decreasing_by
  have := Int.emod_nonneg n (show (d : Int) ≠ 0 by omega)
  have := Int.emod_lt_of_pos n (show 0 < (d : Int) by omega)
  omega

/-- The first convergent within a relative error of 1e-4: two thirds for `0.6667`. -/
def approximate (f : Fraction) : Fraction :=
  approximateFrom f Convergents.start f.num.toInt f.den.toInt.toNat

/-- The denominator bound for fractions made from reals. -/
def realDenominatorBound : Int64 := 1000000

/-- The fraction a real stands for: its shortest decimal text read exactly, with the denominator
then limited. -/
def ofReal? (x : Float) : Option Fraction :=
  if !Decimal.isFinite x then none
  else (parse? (Decimal.shortest x)).map fun f => f.limitDenominator realDenominatorBound

end Fraction

end Worksheet
