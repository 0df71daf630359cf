import Worksheet.Failure
import Worksheet.Number.Fraction

/-!
# Fractions on a machine

Fractions are computed in 128-bit words before the result is put into two words of 64 bits. Here the
operations are told with every step a machine takes on the way, and every step may fail: a machine
that checks its arithmetic refuses a result that no word holds, and divides nothing by zero.

Main definitions: `Wide.reduced`, the machine's way to lowest terms by Euclid's algorithm; the
operations on fractions; `Wide.limitDenominator` and `Wide.approximate`, which expand continued
fractions.
-/

namespace Worksheet

open Fraction Text

/-- What arithmetic on machine words can stumble over. -/
inductive Fault where
  | overflow
  | divisionByZero
deriving DecidableEq

namespace Wide

/-! ## Steps -/

/-- The result of a step, if a word of 128 bits holds it. -/
def hold (n : Int) : Except Fault Int := if FitsWide n then .ok n else .error .overflow

def plus (a b : Int) : Except Fault Int := hold (a + b)

def minus (a b : Int) : Except Fault Int := hold (a - b)

def times (a b : Int) : Except Fault Int := hold (a * b)

def negated (a : Int) : Except Fault Int := hold (-a)

def absolute (a : Int) : Except Fault Int := hold a.natAbs

/-- The quotient, rounded towards zero. -/
def quotient (a b : Int) : Except Fault Int :=
  if b = 0 then .error .divisionByZero else hold (a.tdiv b)

/-- The remainder, which a machine finds together with the quotient. -/
def remainder (a b : Int) : Except Fault Int := do
  let _ ← quotient a b
  .ok (a.tmod b)

/-- The quotient whose remainder is not negative. -/
def quotientEuclid (a b : Int) : Except Fault Int :=
  if b = 0 then .error .divisionByZero else hold (a / b)

theorem eq_of_hold {n r : Int} (h : hold n = .ok r) : r = n := by
  unfold hold at h
  split at h
  · exact (Except.ok.inj h).symm
  · cases h

theorem remainder_eq_ok {a b r : Int} (h : remainder a b = .ok r) : b ≠ 0 ∧ r = a.tmod b := by
  obtain ⟨q, hq, h⟩ := bind_eq_ok h
  refine ⟨?_, (Except.ok.inj h).symm⟩
  rintro rfl
  rw [quotient, if_pos rfl] at hq
  cases hq

/-! ## Lowest terms -/

/-- Euclid's algorithm, as a loop on two words. -/
def gcdFrom (a b : Int) : Except Fault Int :=
  if b = 0 then .ok a
  else
    match _h : remainder a b with
    | .error e => .error e
    | .ok r => gcdFrom b r
termination_by b.natAbs
decreasing_by
  obtain ⟨hb, rfl⟩ := remainder_eq_ok _h
  rw [Int.natAbs_tmod]
  exact Nat.mod_lt _ (by omega)

def gcd (a b : Int) : Except Fault Int := do
  let a ← absolute a
  let b ← absolute b
  gcdFrom a b

/-- Numerator and denominator as words of 64 bits, if they fit. -/
def words? (n d : Int) : Option (Int64 × Int64) := do
  let p ← word? n
  let q ← word? d
  some (p, q)

/-- Lowest terms with a positive denominator, as words of 64 bits. -/
def reduced (n d : Int) : Except Fault (Option (Int64 × Int64)) :=
  if d = 0 then .ok none
  else do
    let g ← gcd n d
    -- nothing is divided by zero, whatever the algorithm has found
    let g := max g 1
    let p ← quotient n g
    let q ← quotient d g
    if q < 0 then do
      let p ← negated p
      let q ← negated q
      .ok (words? p q)
    else .ok (words? p q)

def words (f : Fraction) : Int64 × Int64 := (f.num, f.den)

/-! ## Operations -/

def new (n d : Int64) : Except Fault (Option (Int64 × Int64)) := reduced n.toInt d.toInt

def add (a b : Fraction) : Except Fault (Option (Int64 × Int64)) := do
  let left ← times a.num.toInt b.den.toInt
  let right ← times b.num.toInt a.den.toInt
  let n ← plus left right
  let d ← times a.den.toInt b.den.toInt
  reduced n d

def mul (a b : Fraction) : Except Fault (Option (Int64 × Int64)) := do
  let n ← times a.num.toInt b.num.toInt
  let d ← times a.den.toInt b.den.toInt
  reduced n d

def div (a b : Fraction) : Except Fault (Option (Int64 × Int64)) :=
  if b.num = 0 then .ok none
  else do
    let n ← times a.num.toInt b.den.toInt
    let d ← times a.den.toInt b.num.toInt
    reduced n d

/-- The opposite. Of the words of 64 bits, the least one has none. -/
def neg (a : Fraction) : Except Fault Fraction :=
  if FitsWord (-a.num.toInt) then .ok a.neg else .error .overflow

def sub (a b : Fraction) : Except Fault (Option (Int64 × Int64)) := do
  let opposite ← neg b
  add a opposite

def compare (a b : Fraction) : Except Fault Ordering := do
  let left ← times a.num.toInt b.den.toInt
  let right ← times b.num.toInt a.den.toInt
  .ok (Ord.compare left right)

/-- The powers of both parts. A partial product that no word holds is no fault, as the machine looks
out for it. -/
def powers (b : Int64 × Int64) (k : Nat) : Except Fault (Option (Int64 × Int64)) :=
  match powWithin? (decide <| FitsWide ·) 1 b.1.toInt k,
    powWithin? (decide <| FitsWide ·) 1 b.2.toInt k with
  | some n, some d => reduced n d
  | _, _ => .ok none

def pow (a : Fraction) (e : Int64) : Except Fault (Option (Int64 × Int64)) := do
  -- a negative exponent inverts the base first
  let base ← if e.toInt < 0 then div (.ofWord 1) a else .ok (some (words a))
  match base with
  | none => .ok none
  | some b => if 0x100000000 ≤ e.toInt.natAbs then .ok none else powers b e.toInt.natAbs

/-! ## Reading -/

/-- The fraction that a decimal numeral or a pair of words stands for. -/
def parse (s : List Char) : Except Fault (Option (Int64 × Int64)) :=
  match cutAt? '/' (trim s) with
  | some (n, d) =>
    match readWord? (trim n), readWord? (trim d) with
    | some n, some d => new n d
    | _, _ => .ok none
  | none =>
    let (negative, digits) := Fraction.splitSign (trim s)
    let (whole, fraction) := (cutAt? '.' digits).getD (digits, [])
    if (whole ++ fraction).isEmpty || !(whole ++ fraction).all isDigit then .ok none
    else
      match Fraction.readWide? (whole ++ fraction),
        powWithin? (decide <| FitsWide ·) 1 10 fraction.length with
      | some n, some d => do
        let n ← if negative then negated n else .ok n
        reduced n d
      | _, _ => .ok none

/-! ## Convergents -/

/-- `x + a * y`. -/
def combine (x a y : Int) : Except Fault Int := do
  let t ← times a y
  plus x t

/-- The denominator behind one more partial quotient. -/
def nextDenominator (c : Convergents) (n d : Int) : Except Fault Int := do
  let a ← quotientEuclid n d
  combine c.q₀ a c.q₁

/-- The convergents behind one more partial quotient, and what is left to expand. -/
def advance (c : Convergents) (n d : Int) : Except Fault (Convergents × Int) := do
  let a ← quotientEuclid n d
  let q ← combine c.q₀ a c.q₁
  let p ← combine c.p₀ a c.p₁
  let t ← times a d
  let r ← minus n t
  .ok (⟨c.p₁, c.q₁, p, q⟩, r)

/-- What is left is smaller. -/
theorem natAbs_lt_of_advance {c c' : Convergents} {n d r : Int} (h : advance c n d = .ok (c', r)) :
    r.natAbs < d.natAbs := by
  obtain ⟨a, ha, h⟩ := bind_eq_ok h
  obtain ⟨q, -, h⟩ := bind_eq_ok h
  obtain ⟨p, -, h⟩ := bind_eq_ok h
  obtain ⟨t, ht, h⟩ := bind_eq_ok h
  obtain ⟨r', hr, h⟩ := bind_eq_ok h
  cases h
  unfold quotientEuclid at ha
  split at ha
  · cases ha
  · next hd =>
    have hr_eq : r = n % d := by
      rw [eq_of_hold hr, eq_of_hold ht, eq_of_hold ha, Int.emod_def, Int.mul_comm]
    have hlow := Int.emod_nonneg n hd
    have hhigh := Int.emod_lt n hd
    omega

/-! ## Fractions near by -/

/-- Expands what is left as long as the next denominator is within the bound. -/
def limitLoop (bound : Int) (c : Convergents) (n d : Int) : Except Fault Convergents :=
  match nextDenominator c n d with
  | .error e => .error e
  | .ok q =>
    if bound < q then .ok c
    else
      match _h : advance c n d with
      | .error e => .error e
      | .ok (c', r) => if r = 0 then .ok c' else limitLoop bound c' d r
termination_by d.natAbs
decreasing_by exact natAbs_lt_of_advance _h

/-- The number of a pair of words. -/
def toReal (w : Int64 × Int64) : Float := Real.ofWord w.1 / Real.ofWord w.2

def limitDenominator (f : Fraction) (bound : Int64) : Except Fault (Int64 × Int64) :=
  if bound.toInt < 1 ∨ f.den.toInt ≤ bound.toInt then .ok (words f)
  else do
    let c ← limitLoop bound.toInt .start f.num.toInt f.den.toInt
    let room ← minus bound.toInt c.q₀
    let k ← quotient room c.q₁
    let n ← combine c.p₀ k c.p₁
    let d ← combine c.q₀ k c.q₁
    let mediant ← reduced n d
    let convergent ← reduced c.p₁ c.q₁
    match mediant, convergent with
    | some m, some v =>
      if (toReal v - f.toReal).abs ≤ (toReal m - f.toReal).abs then .ok v else .ok m
    | none, some v => .ok v
    | some m, none => .ok m
    | none, none => .ok (words f)

/-- Expands what is left until a convergent is near enough. -/
def approximateLoop (f : Fraction) (c : Convergents) (n d : Int) : Except Fault (Int64 × Int64) :=
  if d = 0 then .ok (words f)
  else
    match _h : advance c n d with
    | .error e => .error e
    | .ok (c', r) =>
      match reduced c'.p₁ c'.q₁ with
      | .error e => .error e
      | .ok none => .ok (words f)
      | .ok (some candidate) =>
        let error := (toReal candidate - f.toReal).abs
        if error ≤ tolerance * f.toReal.abs || error == 0.0 then .ok candidate
        else approximateLoop f c' d r
termination_by d.natAbs
decreasing_by exact natAbs_lt_of_advance _h

def approximate (f : Fraction) : Except Fault (Int64 × Int64) :=
  approximateLoop f .start f.num.toInt f.den.toInt

end Wide

end Worksheet
