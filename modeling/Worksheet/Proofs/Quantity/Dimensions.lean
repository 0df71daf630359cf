import Worksheet.Failure
import Worksheet.Proofs.Library.Quantities
import Worksheet.Proofs.Number.Neutral
import Worksheet.Proofs.Quantity.Units

/-!
# Dimensional analysis

The exponents of a product of units are sums, differences and multiples of the exponents of its factors. A dimension
has room for exponents from -128 to 127 and stops at the ends of this range, so that it is the true one exactly as long
as nothing on the way leaves the range.

* **`Dimension.exponents_mul_eq_iff`** and its like — when the exponents of one operation are true.
* **`Combines.dimension_mul`** and its like — the dimension of what operators make of quantities and numbers.
* **`Product`** — products of units as they are written, with their values and their true exponents.
* **`Product.dimensions_sound`** — when the dimensions of products are true, and which ones can be added.
-/

namespace Worksheet

open Arithmetic

/-! ## Exponents -/

namespace Dimension

/-- The integers that an exponent can be. -/
def FitsExponent (n : Int) : Prop := -128 ≤ n ∧ n ≤ 127

/-- The exponents of a dimension as integers. -/
def exponents (d : Dimension) : Fin 7 → Int := fun i => (d.get i).toInt

theorem toInt_clampExponent (n : Int) : (clampExponent n).toInt = max (-128) (min n 127) := by
  unfold clampExponent
  split
  · have hlow : (-128 : Int8).toInt = -128 := by decide
    omega
  · split
    · have hhigh : (127 : Int8).toInt = 127 := by decide
      omega
    · rw [Int8.toInt_ofInt_of_le (by omega) (by omega)]
      omega

theorem fits_exponents (d : Dimension) (i : Fin 7) : FitsExponent (d.exponents i) :=
  ⟨(d.get i).le_toInt, Int.le_of_lt_add_one (d.get i).toInt_lt⟩

theorem eq_of_exponents {d e : Dimension} (h : ∀ i, d.exponents i = e.exponents i) : d = e :=
  Vector.ext fun i hi => Int8.toInt_inj.mp (h ⟨i, hi⟩)

theorem exponents_inj {d e : Dimension} : d.exponents = e.exponents ↔ d = e :=
  ⟨fun h => eq_of_exponents (congrFun h), congrArg exponents⟩

section Operations

variable (d e : Dimension) (n : Int8) (i : Fin 7)

theorem exponents_mul : (d.mul e).exponents i = max (-128) (min (d.exponents i + e.exponents i) 127) := by
  rw [← toInt_clampExponent]
  simp [exponents, mul, Vector.get_eq_getElem]

/-- The divisor's exponent is negated first, and the negation has to fit as well. -/
theorem exponents_div :
    (d.div e).exponents i = max (-128) (min (d.exponents i + max (-128) (min (-e.exponents i) 127)) 127) := by
  rw [← toInt_clampExponent, ← toInt_clampExponent]
  simp [exponents, div, Vector.get_eq_getElem]

theorem exponents_pow : (d.pow n).exponents i = max (-128) (min (n.toInt * d.exponents i) 127) := by
  rw [← toInt_clampExponent, Int.mul_comm]
  simp [exponents, pow]

theorem exponents_none : none.exponents i = 0 := by
  revert i
  decide

/-! What is multiplied or divided by a pure number keeps its exponents. -/

theorem mul_none : d.mul none = d := by
  refine eq_of_exponents fun i => ?_
  have hfits := d.fits_exponents i
  unfold FitsExponent at hfits
  rw [exponents_mul, exponents_none]
  omega

theorem none_mul : none.mul e = e := by
  refine eq_of_exponents fun i => ?_
  have hfits := e.fits_exponents i
  unfold FitsExponent at hfits
  rw [exponents_mul, exponents_none]
  omega

theorem div_none : d.div none = d := by
  refine eq_of_exponents fun i => ?_
  have hfits := d.fits_exponents i
  unfold FitsExponent at hfits
  rw [exponents_div, exponents_none]
  omega

theorem none_div : none.div e = e.pow (-1) := by
  refine eq_of_exponents fun i => ?_
  rw [exponents_div, exponents_none, exponents_pow, show (-1 : Int8).toInt = -1 by decide]
  omega

/-! ### True exponents -/

theorem exponents_mul_eq_iff :
    (d.mul e).exponents = d.exponents + e.exponents ↔ ∀ i, FitsExponent (d.exponents i + e.exponents i) := by
  rw [funext_iff]
  refine forall_congr' fun i => ?_
  rw [exponents_mul, Pi.add_apply]
  unfold FitsExponent
  omega

/-- The least exponent has no opposite, even where the difference would fit. -/
theorem exponents_div_eq_iff : (d.div e).exponents = d.exponents - e.exponents ↔
    ∀ i, FitsExponent (d.exponents i - e.exponents i) ∧ e.exponents i ≠ -128 := by
  rw [funext_iff]
  refine forall_congr' fun i => ?_
  have hd := d.fits_exponents i
  have he := e.fits_exponents i
  rw [exponents_div, Pi.sub_apply]
  unfold FitsExponent at *
  omega

/-- Multiplied and divided by the same: the exponents are back if nothing was cut off, or in the one case in which
what was cut off is made up for by the missing opposite. -/
theorem div_mul_cancel_iff : (d.mul e).div e = d ↔
    ∀ i, FitsExponent (d.exponents i + e.exponents i) ∧ e.exponents i ≠ -128 ∨
      d.exponents i = -1 ∧ e.exponents i = -128 := by
  rw [← exponents_inj, funext_iff]
  refine forall_congr' fun i => ?_
  have hd := d.fits_exponents i
  have he := e.fits_exponents i
  rw [exponents_div, exponents_mul]
  unfold FitsExponent at *
  omega

end Operations

end Dimension

/-! ## Values -/

/-- The dimension of a value: that of a pure number if it is no quantity. -/
def Value.dimension : Value → Dimension
  | .quantity q => q.dimension
  | _ => Dimension.none

/-- The exponents of a value. -/
def Value.exponents (v : Value) : Fin 7 → Int := v.dimension.exponents

namespace Arithmetic

/-- The values that quantities settle to: reals, and quantities that are no pure numbers. -/
def Measured (v : Value) : Prop := ∃ q, settle q = v

variable {op : Operator} {a b v w r : Value} {q : Quantity}

theorem dimension_settle (q : Quantity) : (settle q).dimension = q.dimension := by
  unfold settle Quantity.isDimensionless
  split
  · next h => exact (beq_iff_eq.mp h).symm
  · rfl

theorem measured_iff :
    Measured v ↔ (∃ x, v = .real x) ∨ ∃ q : Quantity, v = .quantity q ∧ q.dimension ≠ Dimension.none := by
  constructor
  · rintro ⟨q, rfl⟩
    unfold settle Quantity.isDimensionless
    split
    · exact .inl ⟨_, rfl⟩
    · next h => exact .inr ⟨q, rfl, by simpa using h⟩
  · rintro (⟨x, rfl⟩ | ⟨q, rfl, hq⟩)
    · exact ⟨⟨x, Dimension.none, none⟩, rfl⟩
    · exact ⟨q, settle_eq_quantity_iff.mpr ⟨rfl, hq⟩⟩

theorem dimension_of_number {k : Number} (h : Number.ofValue? v = some k) : v.dimension = Dimension.none := by
  cases v <;> first | rfl | cases h

/-! ### Operators with a quantity -/

theorem Combines.dimension_mul (h : Combines .mul a b q) : q.dimension = a.dimension.mul b.dimension := by
  cases h with
  | mul => rfl
  | times hk => rw [dimension_of_number hk, Dimension.mul_none]; rfl
  | multiple hk => rw [dimension_of_number hk, Dimension.none_mul]; rfl

theorem Combines.dimension_div (h : Combines .div a b q) : q.dimension = a.dimension.div b.dimension := by
  cases h with
  | div => rfl
  | part hk => rw [dimension_of_number hk, Dimension.div_none]; rfl
  | inverse hk => rw [dimension_of_number hk, Dimension.none_div]; rfl

theorem Combines.exponents_pow {n : Int64} (h : Combines .pow a (.int n) q) (i : Fin 7) :
    q.dimension.exponents i = max (-128) (min (n.toInt * a.exponents i) 127) := by
  cases h with
  | @pow x _ hlow hhigh =>
    have hn : (Int8.ofInt n.toInt).toInt = n.toInt := Int8.toInt_ofInt_of_le hlow (by omega)
    have hpow := Dimension.exponents_pow x.dimension (Int8.ofInt n.toInt) i
    rwa [hn] at hpow

/-! ### Operators between measured values -/

/-- Between measured values an operator combines quantities or is one of reals. -/
theorem Measured.cases_binary (hv : Measured v) (hw : Measured w ∨ ∃ n, w = .int n) (h : binary op v w = .ok r) :
    (∃ q, Combines op v w q ∧ settle q = r) ∨
      v.dimension = Dimension.none ∧ w.dimension = Dimension.none ∧ ∃ z, r = .real z := by
  by_cases hquantity : (∃ x, v = .quantity x) ∨ ∃ y, w = .quantity y
  · exact .inl ((binary_eq_ok_iff hquantity).mp h)
  · rw [not_or] at hquantity
    rcases measured_iff.mp hv with ⟨x, rfl⟩ | ⟨q, rfl, -⟩
    · rcases hw with hw | ⟨n, rfl⟩
      · rcases measured_iff.mp hw with ⟨y, rfl⟩ | ⟨q, rfl, -⟩
        · exact .inr ⟨rfl, rfl, exists_real_of_realOp (x := x) (y := y) h⟩
        · exact absurd ⟨q, rfl⟩ hquantity.2
      · exact .inr ⟨rfl, rfl, exists_real_of_realOp (x := x) (y := Real.ofWord n) h⟩
    · exact absurd ⟨q, rfl⟩ hquantity.1

theorem measured_real (x : Float) : Measured (.real x) := measured_iff.mpr (.inl ⟨x, rfl⟩)

/-- What an operator does to the dimensions of quantities it does to those of all measured values. -/
theorem Measured.combine (hv : Measured v) (hw : Measured w) (h : binary op v w = .ok r)
    {f : Dimension → Dimension → Dimension} (hnone : f Dimension.none Dimension.none = Dimension.none)
    (hf : ∀ q, Combines op v w q → q.dimension = f v.dimension w.dimension) :
    Measured r ∧ r.dimension = f v.dimension w.dimension := by
  rcases hv.cases_binary (.inl hw) h with ⟨q, hq, rfl⟩ | ⟨hvnone, hwnone, z, rfl⟩
  · exact ⟨⟨q, rfl⟩, (dimension_settle q).trans (hf q hq)⟩
  · rw [hvnone, hwnone, hnone]
    exact ⟨measured_real z, rfl⟩

theorem Measured.mul (hv : Measured v) (hw : Measured w) (h : binary .mul v w = .ok r) :
    Measured r ∧ r.dimension = v.dimension.mul w.dimension :=
  hv.combine hw h (Dimension.mul_none _) fun _ hq => hq.dimension_mul

theorem Measured.div (hv : Measured v) (hw : Measured w) (h : binary .div v w = .ok r) :
    Measured r ∧ r.dimension = v.dimension.div w.dimension :=
  hv.combine hw h (Dimension.div_none _) fun _ hq => hq.dimension_div

theorem Measured.pow {n : Int64} (hv : Measured v) (h : binary .pow v (.int n) = .ok r) :
    Measured r ∧ ∀ i, r.exponents i = max (-128) (min (n.toInt * v.exponents i) 127) := by
  rcases hv.cases_binary (.inr ⟨n, rfl⟩) h with ⟨q, hq, rfl⟩ | ⟨hvnone, -, z, rfl⟩
  · refine ⟨⟨q, rfl⟩, fun i => ?_⟩
    rw [Value.exponents, dimension_settle]
    exact hq.exponents_pow i
  · refine ⟨measured_real z, fun i => ?_⟩
    have hzero : v.exponents i = 0 := by rw [Value.exponents, hvnone, Dimension.exponents_none]
    rw [hzero, Int.mul_zero]
    exact Dimension.exponents_none i

/-! When the exponents of one operation are true. -/

theorem Measured.mul_eq_iff (hv : Measured v) (hw : Measured w) (h : binary .mul v w = .ok r) :
    r.exponents = v.exponents + w.exponents ↔ ∀ i, Dimension.FitsExponent (v.exponents i + w.exponents i) := by
  unfold Value.exponents
  rw [(hv.mul hw h).2]
  exact Dimension.exponents_mul_eq_iff ..

theorem Measured.div_eq_iff (hv : Measured v) (hw : Measured w) (h : binary .div v w = .ok r) :
    r.exponents = v.exponents - w.exponents ↔
      ∀ i, Dimension.FitsExponent (v.exponents i - w.exponents i) ∧ w.exponents i ≠ -128 := by
  unfold Value.exponents
  rw [(hv.div hw h).2]
  exact Dimension.exponents_div_eq_iff ..

theorem Measured.pow_eq_iff {n : Int64} (hv : Measured v) (h : binary .pow v (.int n) = .ok r) :
    r.exponents = n.toInt • v.exponents ↔ ∀ i, Dimension.FitsExponent (n.toInt * v.exponents i) := by
  rw [funext_iff]
  refine forall_congr' fun i => ?_
  rw [(hv.pow h).2 i, Pi.smul_apply, smul_eq_mul]
  unfold Dimension.FitsExponent
  omega

theorem Measured.back_iff {s : Value} (hv : Measured v) (hw : Measured w) (hs : binary .mul v w = .ok s)
    (hr : binary .div s w = .ok r) : r.dimension = v.dimension ↔
      ∀ i, Dimension.FitsExponent (v.exponents i + w.exponents i) ∧ w.exponents i ≠ -128 ∨
        v.exponents i = -1 ∧ w.exponents i = -128 := by
  obtain ⟨hmeasured, hproduct⟩ := hv.mul hw hs
  rw [(hmeasured.div hw hr).2, hproduct]
  exact Dimension.div_mul_cancel_iff ..

/-- **Values can be added exactly if they have one dimension.** -/
theorem Measured.exists_sum_iff (hv : Measured v) (hw : Measured w) :
    (∃ r, binary .add v w = .ok r) ↔ v.dimension = w.dimension := by
  constructor
  · rintro ⟨r, hr⟩
    rcases hv.cases_binary (.inl hw) hr with ⟨q, hq, -⟩ | ⟨hvnone, hwnone, -⟩
    · cases hq with
      | add hsum => exact (Quantity.add_eq_ok_iff.mp hsum).1
    · rw [hvnone, hwnone]
  · intro hdimension
    rcases measured_iff.mp hv with ⟨x, rfl⟩ | ⟨p, rfl, hp⟩
    · rcases measured_iff.mp hw with ⟨y, rfl⟩ | ⟨q, rfl, hq⟩
      · exact ⟨.real (x + y), rfl⟩
      · exact absurd hdimension.symm hq
    · rcases measured_iff.mp hw with ⟨y, rfl⟩ | ⟨q, rfl, hq⟩
      · exact absurd hdimension hp
      · have hsum := Quantity.add_eq_ok_iff.mpr ⟨hdimension, rfl⟩
        exact ⟨_, (binary_eq_ok_iff (.inl ⟨p, rfl⟩)).mpr ⟨_, .add hsum, rfl⟩⟩

end Arithmetic

/-! ## Products -/

/-- A product of units as it is written. -/
inductive Product where
  /-- The unit with a symbol. -/
  | unit (symbol : String)
  /-- A product. -/
  | mul (a b : Product)
  /-- A quotient. -/
  | div (a b : Product)
  /-- A whole power. -/
  | pow (a : Product) (n : Int64)

namespace Product

open Dimension

/-- What arithmetic makes of a product. -/
def value : Product → Outcome
  | unit symbol => orError (Quantity.ofSymbol? symbol) .quantity (.quantity (.unknownUnit symbol))
  | mul a b => do binary .mul (← a.value) (← b.value)
  | div a b => do binary .div (← a.value) (← b.value)
  | pow a n => do binary .pow (← a.value) (.int n)

/-- The exponents that a product has by the laws of powers. -/
def exponents : Product → Fin 7 → Int
  | unit symbol => ((MeasureUnit.find? symbol).map fun u => u.dimension.exponents).getD 0
  | mul a b => a.exponents + b.exponents
  | div a b => a.exponents - b.exponents
  | pow a n => n.toInt • a.exponents

/-- The products that a product is made of, itself among them. -/
def parts : Product → List Product
  | unit symbol => [unit symbol]
  | mul a b => mul a b :: (a.parts ++ b.parts)
  | div a b => div a b :: (a.parts ++ b.parts)
  | pow a n => pow a n :: a.parts

/-- Is the dimension of the value the true one? -/
def Sound (p : Product) : Prop := ∀ v, p.value = .ok v → v.exponents = p.exponents

/-- Does every exponent on the way fit, and has the exponent of every divisor an opposite? -/
def InRange : Product → Prop
  | unit _ => True
  | mul a b => a.InRange ∧ b.InRange ∧ ∀ i, FitsExponent (a.exponents i + b.exponents i)
  | div a b => a.InRange ∧ b.InRange ∧
      ∀ i, FitsExponent (a.exponents i - b.exponents i) ∧ b.exponents i ≠ -128
  | pow a n => a.InRange ∧ ∀ i, FitsExponent (n.toInt * a.exponents i)

instance (n : Int) : Decidable (FitsExponent n) := inferInstanceAs (Decidable (_ ∧ _))

instance decidableInRange : (p : Product) → Decidable p.InRange
  | unit _ => .isTrue trivial
  | mul a b =>
    have := decidableInRange a
    have := decidableInRange b
    inferInstanceAs (Decidable (_ ∧ _ ∧ _))
  | div a b =>
    have := decidableInRange a
    have := decidableInRange b
    inferInstanceAs (Decidable (_ ∧ _ ∧ _))
  | pow a _ =>
    have := decidableInRange a
    inferInstanceAs (Decidable (_ ∧ _))

variable {p : Product} {v : Value}

theorem mem_parts (p : Product) : p ∈ p.parts := by
  cases p <;> simp [parts]

theorem measured_value (h : p.value = .ok v) : Measured v := by
  induction p generalizing v with
  | unit s =>
    obtain ⟨q, hq, rfl⟩ := orError_eq_ok.mp h
    obtain ⟨u, hu, rfl⟩ := Option.map_eq_some_iff.mp hq
    have hmeasures := MeasureUnit.measures_of_mem u (MeasureUnit.mem_of_find? hu).1
    exact ⟨_, Quantity.settle_of_measures hmeasures⟩
  | mul a b iha ihb =>
    obtain ⟨x, hx, h⟩ := bind_eq_ok h
    obtain ⟨y, hy, h⟩ := bind_eq_ok h
    exact ((iha hx).mul (ihb hy) h).1
  | div a b iha ihb =>
    obtain ⟨x, hx, h⟩ := bind_eq_ok h
    obtain ⟨y, hy, h⟩ := bind_eq_ok h
    exact ((iha hx).div (ihb hy) h).1
  | pow a n ih =>
    obtain ⟨x, hx, h⟩ := bind_eq_ok h
    exact ((ih hx).pow h).1

section Values

variable {a b : Product} {x y : Quantity} (ha : a.value = .ok (.quantity x))

include ha

theorem value_mul (hb : b.value = .ok (.quantity y)) : (mul a b).value = .ok (settle (x.mul y)) := by
  rw [value, ha, hb]
  exact (binary_eq_ok_iff (.inl ⟨x, rfl⟩)).mpr ⟨_, .mul x y, rfl⟩

theorem value_div (hb : b.value = .ok (.quantity y)) (hy : (y.si == 0.0) = false) :
    (div a b).value = .ok (settle (x.div y)) := by
  rw [value, ha, hb]
  exact (binary_eq_ok_iff (.inl ⟨x, rfl⟩)).mpr ⟨_, .div hy, rfl⟩

theorem value_pow {n : Int64} (hlow : -128 ≤ n.toInt) (hhigh : n.toInt ≤ 127) :
    (pow a n).value = .ok (settle (x.pow (Int8.ofInt n.toInt))) := by
  rw [value, ha]
  exact (binary_eq_ok_iff (.inl ⟨x, rfl⟩)).mpr ⟨_, .pow hlow hhigh, rfl⟩

end Values

theorem sound_unit (s : String) : (unit s).Sound := by
  intro v h
  obtain ⟨q, hq, rfl⟩ := orError_eq_ok.mp h
  obtain ⟨u, hu, rfl⟩ := Option.map_eq_some_iff.mp hq
  rw [exponents, hu]
  rfl

theorem sound_iff (h : p.value = .ok v) : p.Sound ↔ v.exponents = p.exponents := by
  refine ⟨fun hsound => hsound v h, fun heq w hw => ?_⟩
  rw [h] at hw
  exact Except.ok.inj hw ▸ heq

section Steps

variable {a b : Product} (ha : a.Sound)

include ha

theorem sound_mul_iff (hb : b.Sound) (h : (mul a b).value = .ok v) :
    (mul a b).Sound ↔ ∀ i, FitsExponent (a.exponents i + b.exponents i) := by
  rw [sound_iff h]
  obtain ⟨x, hx, h⟩ := bind_eq_ok h
  obtain ⟨y, hy, h⟩ := bind_eq_ok h
  rw [exponents, ← ha x hx, ← hb y hy]
  exact (measured_value hx).mul_eq_iff (measured_value hy) h

theorem sound_div_iff (hb : b.Sound) (h : (div a b).value = .ok v) : (div a b).Sound ↔
    ∀ i, FitsExponent (a.exponents i - b.exponents i) ∧ b.exponents i ≠ -128 := by
  rw [sound_iff h]
  obtain ⟨x, hx, h⟩ := bind_eq_ok h
  obtain ⟨y, hy, h⟩ := bind_eq_ok h
  rw [exponents, ← ha x hx, ← hb y hy]
  exact (measured_value hx).div_eq_iff (measured_value hy) h

theorem sound_pow_iff {n : Int64} (h : (pow a n).value = .ok v) :
    (pow a n).Sound ↔ ∀ i, FitsExponent (n.toInt * a.exponents i) := by
  rw [sound_iff h]
  obtain ⟨x, hx, h⟩ := bind_eq_ok h
  rw [exponents, ← ha x hx]
  exact (measured_value hx).pow_eq_iff h

end Steps

/-- The dimensions of a product and all its parts are true exactly if every exponent on the way fits. -/
theorem sound_parts_iff (h : p.value = .ok v) : (∀ part ∈ p.parts, part.Sound) ↔ p.InRange := by
  induction p generalizing v with
  | unit s => simp [parts, InRange, sound_unit]
  | mul a b iha ihb =>
    obtain ⟨x, hx, hxy⟩ := bind_eq_ok h
    obtain ⟨y, hy, -⟩ := bind_eq_ok hxy
    rw [parts, List.forall_mem_cons, List.forall_mem_append, iha hx, ihb hy, InRange, and_rotate]
    refine and_congr_right fun ha => and_congr_right fun hb => ?_
    exact sound_mul_iff ((iha hx).mpr ha a a.mem_parts) ((ihb hy).mpr hb b b.mem_parts) h
  | div a b iha ihb =>
    obtain ⟨x, hx, hxy⟩ := bind_eq_ok h
    obtain ⟨y, hy, -⟩ := bind_eq_ok hxy
    rw [parts, List.forall_mem_cons, List.forall_mem_append, iha hx, ihb hy, InRange, and_rotate]
    refine and_congr_right fun ha => and_congr_right fun hb => ?_
    exact sound_div_iff ((iha hx).mpr ha a a.mem_parts) ((ihb hy).mpr hb b b.mem_parts) h
  | pow a n ih =>
    obtain ⟨x, hx, -⟩ := bind_eq_ok h
    rw [parts, List.forall_mem_cons, ih hx, InRange, and_comm]
    refine and_congr_right fun ha => ?_
    exact sound_pow_iff ((ih hx).mpr ha a a.mem_parts) h

/-- **Dimensional analysis** of two products of units that have values. The dimensions of a product and of all products in
it are those of the laws of powers exactly if every exponent on the way fits and the exponent of every divisor has an
opposite. One operation more has the true exponents exactly if they fit, one product multiplied and divided by the other
is back at its dimension exactly if nothing was cut off, and the two can be added exactly if their dimensions are one,
which within the range are the true ones. -/
theorem dimensions_sound {p q : Product} {v w : Value} (hp : p.value = .ok v) (hq : q.value = .ok w) :
    ((∀ part ∈ p.parts, part.Sound) ↔ p.InRange) ∧
    (∀ r, binary .mul v w = .ok r → (r.exponents = v.exponents + w.exponents ↔
      ∀ i, FitsExponent (v.exponents i + w.exponents i))) ∧
    (∀ r, binary .div v w = .ok r → (r.exponents = v.exponents - w.exponents ↔
      ∀ i, FitsExponent (v.exponents i - w.exponents i) ∧ w.exponents i ≠ -128)) ∧
    (∀ n r, binary .pow v (.int n) = .ok r → (r.exponents = n.toInt • v.exponents ↔
      ∀ i, FitsExponent (n.toInt * v.exponents i))) ∧
    (∀ s r, binary .mul v w = .ok s → binary .div s w = .ok r → (r.dimension = v.dimension ↔
      ∀ i, FitsExponent (v.exponents i + w.exponents i) ∧ w.exponents i ≠ -128 ∨
        v.exponents i = -1 ∧ w.exponents i = -128)) ∧
    ((∃ r, binary .add v w = .ok r) ↔ v.exponents = w.exponents) ∧
    (p.InRange → q.InRange → ((∃ r, binary .add v w = .ok r) ↔ p.exponents = q.exponents)) := by
  have hv : Measured v := measured_value hp
  have hw : Measured w := measured_value hq
  have hsum : (∃ r, binary .add v w = .ok r) ↔ v.exponents = w.exponents :=
    (hv.exists_sum_iff hw).trans exponents_inj.symm
  refine ⟨sound_parts_iff hp, fun r => hv.mul_eq_iff hw, fun r => hv.div_eq_iff hw, fun n r => hv.pow_eq_iff,
    fun s r => hv.back_iff hw, hsum, fun hprange hqrange => ?_⟩
  rw [hsum, (sound_parts_iff hp).mpr hprange p p.mem_parts v hp, (sound_parts_iff hq).mpr hqrange q q.mem_parts w hq]

/-- A newton is a kilogram metre per second squared and a joule per metre: the two can be added. A metre multiplied
and divided by a second is a length again, and its square is an area. -/
theorem dimensions_sound_newton :
    let p := ((unit "kg").mul (unit "m")).div ((unit "s").pow 2)
    let q := (unit "J").div (unit "m")
    let metre : Quantity := ⟨1.0, MeasureUnit.length, some "m"⟩
    let second : Quantity := ⟨1.0, MeasureUnit.time, some "s"⟩
    let m : Value := .quantity metre
    let s : Value := .quantity second
    (∃ v w, p.value = .ok v ∧ q.value = .ok w ∧ p.Sound ∧ p.exponents = q.exponents ∧
      ∃ r, binary .add v w = .ok r) ∧
    (∃ v w, binary .mul m s = .ok v ∧ v.exponents = m.exponents + s.exponents ∧
      binary .div v s = .ok w ∧ w.exponents = v.exponents - s.exponents ∧ w.dimension = m.dimension) ∧
    (∃ v, binary .pow m (.int 2) = .ok v ∧ v.exponents = (2 : Int) • m.exponents) ∧
    ¬ ∃ v, binary .add m s = .ok v := by
  intro p q metre second m s
  have hkg : (unit "kg").value = .ok (.quantity ⟨1.0, MeasureUnit.mass, some "kg"⟩) := rfl
  have hm : (unit "m").value = .ok m := rfl
  have hs : (unit "s").value = .ok s := rfl
  have hJ : (unit "J").value = .ok (.quantity ⟨1.0, MeasureUnit.energy, some "J"⟩) := rfl
  obtain ⟨-, hmul, -, hpower, hcancel, hsum, -⟩ := dimensions_sound hm hs
  refine ⟨?_, ?_, ?_, ?_⟩
  · have hkgm := value_mul hkg hm
    have hss := value_pow (n := 2) hs (by decide) (by decide)
    rw [settle_eq_quantity_iff.mpr ⟨rfl, by decide +kernel⟩] at hkgm hss
    have hp : p.value = .ok _ := value_div hkgm hss (by
      show (wholePower 1.0 _ == 0.0) = false
      rw [Real.one_wholePower]
      decide)
    have hq : q.value = .ok _ := value_div hJ hm (by decide)
    have hprange : p.InRange := by decide +kernel
    have hqrange : q.InRange := by decide +kernel
    have heq : p.exponents = q.exponents := by decide +kernel
    obtain ⟨hparts, -, -, -, -, -, hsums⟩ := dimensions_sound hp hq
    exact ⟨_, _, hp, hq, hparts.mpr hprange p p.mem_parts, heq, (hsums hprange hqrange).mpr heq⟩
  · have hms := value_mul hm hs
    rw [settle_eq_quantity_iff.mpr ⟨rfl, by decide +kernel⟩] at hms
    have hproduct : binary .mul m s = .ok _ := hms
    have hback : binary .div (.quantity (metre.mul second)) s = .ok _ :=
      (binary_eq_ok_iff (.inl ⟨_, rfl⟩)).mpr ⟨_, .div (by decide), rfl⟩
    obtain ⟨-, -, hdiv, -⟩ := dimensions_sound hms hs
    exact ⟨_, _, hproduct, (hmul _ hproduct).mpr (by decide +kernel), hback,
      (hdiv _ hback).mpr (by decide +kernel), (hcancel _ _ hproduct hback).mpr (by decide +kernel)⟩
  · have hpow : binary .pow m (.int 2) = .ok _ := value_pow (n := 2) hm (by decide) (by decide)
    exact ⟨_, hpow, (hpower 2 _ hpow).mpr (by decide +kernel)⟩
  · rw [hsum]
    decide +kernel

/-- **Exponents are cut off.** Multiplied by a metre, the 127th power of a metre keeps its dimension: the two can be
added although their true dimensions are not one, and divided by a metre again the product has lost an exponent.
Divided by the power with the least exponent, a quantity has an exponent less than the true one, which would fit. -/
theorem exponents_cut_off :
    let m := unit "m"
    let long := m.pow 127
    (∃ v w, long.value = .ok v ∧ (long.mul m).value = .ok w ∧
      w.exponents 0 = 127 ∧ (long.mul m).exponents 0 = 128 ∧
      (∃ r, binary .add w v = .ok r) ∧ (long.mul m).exponents ≠ long.exponents) ∧
    (∃ r, ((long.mul m).div m).value = .ok r ∧
      r.exponents 0 = 126 ∧ ((long.mul m).div m).exponents 0 = 127) ∧
    (∃ r, ((m.pow (-1)).div (m.pow (-128))).value = .ok r ∧
      r.exponents 0 = 126 ∧ ((m.pow (-1)).div (m.pow (-128))).exponents 0 = 127) := by
  intro m long
  let metre : Quantity := ⟨1.0, MeasureUnit.length, some "m"⟩
  have hm : m.value = .ok (.quantity metre) := rfl
  have hpow : ∀ n : Int64, -128 ≤ n.toInt → n.toInt ≤ 127 →
      (metre.pow (Int8.ofInt n.toInt)).dimension ≠ Dimension.none →
      (m.pow n).value = .ok (.quantity (metre.pow (Int8.ofInt n.toInt))) := by
    intro n hlow hhigh hne
    rw [value_pow hm hlow hhigh, settle_eq_quantity_iff.mpr ⟨rfl, hne⟩]
  have hlong := hpow 127 (by decide) (by decide) (by decide +kernel)
  have hproduct := value_mul hlong hm
  have hquantity := hproduct
  rw [settle_eq_quantity_iff.mpr ⟨rfl, by decide +kernel⟩] at hquantity
  refine ⟨⟨_, _, hlong, hproduct, ?_, by decide +kernel, ?_, ?_⟩, ⟨_, value_div hquantity hm (by decide), ?_,
    by decide +kernel⟩, ⟨_, value_div (hpow (-1) (by decide) (by decide) (by decide +kernel))
      (hpow (-128) (by decide) (by decide) (by decide +kernel)) ?_, ?_, by decide +kernel⟩⟩
  · rw [Value.exponents, dimension_settle]
    decide +kernel
  · refine ((measured_value hproduct).exists_sum_iff (measured_value hlong)).mpr ?_
    rw [dimension_settle]
    show Quantity.dimension _ = Quantity.dimension _
    decide +kernel
  · intro h
    exact absurd (congrFun h 0) (by decide +kernel)
  · rw [Value.exponents, dimension_settle]
    decide +kernel
  · show (wholePower 1.0 _ == 0.0) = false
    rw [Real.one_wholePower]
    decide
  · rw [Value.exponents, dimension_settle]
    decide +kernel

end Product

end Worksheet
