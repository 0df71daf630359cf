import Worksheet.Proofs.Arithmetic.Temporal

/-!
# Quantities under the operators

Quantities are added if they have one dimension, multiplied and divided by one another and by numbers, and
raised to whole powers. What comes out has a dimension; if it is that of a pure number, the result is a real.

* **`Combines`** — what an operator makes of its operands before pure numbers become reals.
* **`quantityOp_eq_ok_iff`** — an operator with a quantity among its operands has exactly these results.
* **`binary_eq_quantity_iff`** — the quantities among all results of arithmetic.
-/

namespace Worksheet.Arithmetic

/-- The quantity that an operator makes of its operands, of which one is a quantity. -/
inductive Combines : Operator → Value → Value → Quantity → Prop where
  /-- Two quantities that can be added. -/
  | add {x y q : Quantity} : x.add y = .ok q → Combines .add (.quantity x) (.quantity y) q
  /-- The opposite is added. -/
  | sub {x y q : Quantity} : x.add (y.scale (-1.0)) = .ok q →
      Combines .sub (.quantity x) (.quantity y) q
  /-- Two quantities are multiplied. -/
  | mul (x y : Quantity) : Combines .mul (.quantity x) (.quantity y) (x.mul y)
  /-- A quantity is divided by another one that is not zero. -/
  | div {x y : Quantity} : (y.si == 0.0) = false → Combines .div (.quantity x) (.quantity y) (x.div y)
  /-- A number behind a quantity. -/
  | times {x : Quantity} {v : Value} {k : Number} : Number.ofValue? v = some k →
      Combines .mul (.quantity x) v (x.scale k.toReal)
  /-- A number in front of a quantity. -/
  | multiple {x : Quantity} {v : Value} {k : Number} : Number.ofValue? v = some k →
      Combines .mul v (.quantity x) (x.scale k.toReal)
  /-- A part of a quantity. -/
  | part {x : Quantity} {v : Value} {k : Number} : Number.ofValue? v = some k → (k.toReal == 0.0) = false →
      Combines .div (.quantity x) v (x.scale (1.0 / k.toReal))
  /-- A number is divided by a quantity that is not zero. -/
  | inverse {y : Quantity} {v : Value} {k : Number} : Number.ofValue? v = some k → (y.si == 0.0) = false →
      Combines .div v (.quantity y) ((y.pow (-1)).scale k.toReal)
  /-- An exponent that a quantity can have. -/
  | pow {x : Quantity} {n : Int64} : -128 ≤ n.toInt → n.toInt ≤ 127 →
      Combines .pow (.quantity x) (.int n) (x.pow (Int8.ofInt n.toInt))

variable {op : Operator} {a b v : Value} {q : Quantity}

/-! ## Operators with a quantity -/

theorem quantitySum_eq_ok_iff {x y : Quantity} :
    quantitySum x y = .ok v ↔ ∃ q, x.add y = .ok q ∧ settle q = v := by
  unfold quantitySum
  split <;> simp [*]

theorem Combines.quantityOp_eq (h : Combines op a b q) : quantityOp op a b = .ok (settle q) := by
  cases h with
  | add hsum => exact quantitySum_eq_ok_iff.mpr ⟨q, hsum, rfl⟩
  | sub hsum => exact quantitySum_eq_ok_iff.mpr ⟨q, hsum, rfl⟩
  | mul x y => rfl
  | div hy => simp [quantityOp, hy]
  | times hk => cases b <;> simp_all [quantityOp, orError, Number.ofValue?]
  | multiple hk => cases a <;> simp_all [quantityOp, orError, Number.ofValue?]
  | part hk hne => cases b <;> simp_all [quantityOp, Number.ofValue?]
  | inverse hk hy => cases a <;> simp_all [quantityOp, Number.ofValue?]
  | pow hlow hhigh => simp [quantityOp, hlow, hhigh]

theorem quantityOp_eq_ok_iff : quantityOp op a b = .ok v ↔ ∃ q, Combines op a b q ∧ settle q = v := by
  constructor
  · intro h
    -- one rule for each clause of the operators, in their order
    unfold quantityOp at h
    dsimp only at h
    split at h
    · obtain ⟨q, hsum, hq⟩ := quantitySum_eq_ok_iff.mp h
      exact ⟨q, .add hsum, hq⟩
    · obtain ⟨q, hsum, hq⟩ := quantitySum_eq_ok_iff.mp h
      exact ⟨q, .sub hsum, hq⟩
    · exact ⟨_, .mul _ _, Except.ok.inj h⟩
    · split at h
      · cases h
      · next hy => exact ⟨_, .div (by simpa using hy), Except.ok.inj h⟩
    -- from here on one of the operands is a scalar, which must be read as a real first
    · obtain ⟨_, hreal, hq⟩ := orError_eq_ok.mp h
      obtain ⟨k, hk, rfl⟩ := Option.map_eq_some_iff.mp hreal
      exact ⟨_, .times hk, hq⟩
    · obtain ⟨_, hreal, hq⟩ := orError_eq_ok.mp h
      obtain ⟨k, hk, rfl⟩ := Option.map_eq_some_iff.mp hreal
      exact ⟨_, .multiple hk, hq⟩
    · split at h
      · cases h
      · next hreal =>
        obtain ⟨k, hk, rfl⟩ := Option.map_eq_some_iff.mp hreal
        split at h
        · cases h
        · next hne => exact ⟨_, .part hk (by simpa using hne), Except.ok.inj h⟩
    · split at h
      · cases h
      · next hreal =>
        obtain ⟨k, hk, rfl⟩ := Option.map_eq_some_iff.mp hreal
        split at h
        · cases h
        · next hy => exact ⟨_, .inverse hk (by simpa using hy), Except.ok.inj h⟩
    · split at h
      · next hn => exact ⟨_, .pow hn.1 hn.2, Except.ok.inj h⟩
      · cases h
    · cases h
  · rintro ⟨q, hq, rfl⟩
    exact hq.quantityOp_eq

theorem binary_eq_quantityOp (h : (∃ x, a = .quantity x) ∨ ∃ y, b = .quantity y) :
    binary op a b = quantityOp op a b := by
  rcases h with ⟨x, rfl⟩ | ⟨y, rfl⟩
  · rfl
  · cases a <;> cases op <;> rfl

theorem Combines.exists_quantity (h : Combines op a b q) : (∃ x, a = .quantity x) ∨ ∃ y, b = .quantity y := by
  cases h <;> simp

/-- With a quantity among the operands, there is a result exactly if the operands combine. -/
theorem binary_eq_ok_iff (h : (∃ x, a = .quantity x) ∨ ∃ y, b = .quantity y) :
    binary op a b = .ok v ↔ ∃ q, Combines op a b q ∧ settle q = v := by
  rw [binary_eq_quantityOp h, quantityOp_eq_ok_iff]

/-! ## Operators without a quantity -/

/-- Is a result no quantity? -/
def Unmeasured (r : Outcome) : Prop := ∀ q, r ≠ .ok (.quantity q)

theorem unmeasured_orError {α : Type} {make : α → Value} (h : ∀ a q, make a ≠ .quantity q) (o : Option α)
    (e : ArithmeticError) : Unmeasured (orError o make e) := by
  intro q hq
  obtain ⟨a, -, ha⟩ := orError_eq_ok.mp hq
  exact h a q ha

theorem exists_real_of_realOp {x y : Float} (h : realOp op x y = .ok v) : ∃ z, v = .real z := by
  unfold realOp at h
  split at h
  all_goals
    repeat' split at h
    all_goals cases h <;> exact ⟨_, rfl⟩

theorem unmeasured_realOp (op : Operator) (x y : Float) : Unmeasured (realOp op x y) := by
  intro q hq
  obtain ⟨z, hz⟩ := exists_real_of_realOp hq
  cases hz

theorem unmeasured_intOp (op : Operator) (x y : Int64) : Unmeasured (intOp op x y) := by
  unfold intOp
  split
  case h_1 | h_2 | h_3 => exact unmeasured_orError (by simp) _ _
  all_goals
    repeat' split
    all_goals simp [Unmeasured]

theorem unmeasured_rationalOp (op : Operator) (x y : Fraction) : Unmeasured (rationalOp op x y) := by
  unfold rationalOp
  dsimp only
  repeat' split
  all_goals first
    | exact unmeasured_realOp _ _ _
    | simp [Unmeasured]

theorem unmeasured_numberOp (op : Operator) (x y : Number) : Unmeasured (numberOp op x y) := by
  unfold numberOp
  repeat' split
  · exact unmeasured_intOp _ _ _
  · exact unmeasured_rationalOp _ _ _
  · exact unmeasured_realOp _ _ _

theorem unmeasured_temporalOp (op : Operator) (a b : Value) : Unmeasured (temporalOp op a b) := by
  have hscale : ∀ t k, Unmeasured (scaleDuration t k) := fun t k => unmeasured_orError (by simp) _ _
  unfold temporalOp
  dsimp only
  split
  all_goals
    repeat' split
    all_goals first
      | exact unmeasured_orError (by simp) _ _
      | exact hscale _ _
      | simp [Unmeasured]

theorem unmeasured_binary (ha : ∀ x, a ≠ .quantity x) (hb : ∀ y, b ≠ .quantity y) :
    Unmeasured (binary op a b) := by
  unfold binary
  split
  · exact unmeasured_numberOp _ _ _
  · split
    · exact absurd rfl (ha _)
    · exact absurd rfl (hb _)
    · simp [Unmeasured]
    · simp [Unmeasured]
    · exact unmeasured_temporalOp _ _ _

/-! ## All operands -/

theorem settle_eq_quantity_iff {r : Quantity} :
    settle q = .quantity r ↔ q = r ∧ r.dimension ≠ Dimension.none := by
  unfold settle Quantity.isDimensionless
  split
  · next hnone =>
    have hq : q.dimension = Dimension.none := by simpa using hnone
    simp only [reduceCtorEq, false_iff, not_and, not_not]
    exact fun h => h ▸ hq
  · next hnone =>
    have hq : q.dimension ≠ Dimension.none := by simpa using hnone
    simp only [Value.quantity.injEq, iff_self_and]
    exact fun h => h ▸ hq

/-- **The quantities that arithmetic makes.** They are combined of operands of which one is a quantity, and
none of them is a pure number. -/
theorem binary_eq_quantity_iff :
    binary op a b = .ok (.quantity q) ↔ Combines op a b q ∧ q.dimension ≠ Dimension.none := by
  constructor
  · intro h
    have hquantity : (∃ x, a = .quantity x) ∨ ∃ y, b = .quantity y := by
      by_contra hne
      rw [not_or] at hne
      exact unmeasured_binary (fun x hx => hne.1 ⟨x, hx⟩) (fun y hy => hne.2 ⟨y, hy⟩) q h
    obtain ⟨r, hr, hq⟩ := (binary_eq_ok_iff hquantity).mp h
    obtain ⟨rfl, hne⟩ := settle_eq_quantity_iff.mp hq
    exact ⟨hr, hne⟩
  · rintro ⟨h, hne⟩
    exact (binary_eq_ok_iff h.exists_quantity).mpr ⟨q, h, settle_eq_quantity_iff.mpr ⟨rfl, hne⟩⟩

end Worksheet.Arithmetic
