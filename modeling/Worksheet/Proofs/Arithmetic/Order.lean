import Worksheet.Proofs.Arithmetic.Exact
import Worksheet.Proofs.Number.Real

/-!
# The order of numbers

Two exact numbers are compared exactly, but a number that meets a real is rounded to a real first.
Each of the two ways is an order of its own. They agree on exact numbers that keep their order when
they are rounded, and only there the numbers of all kinds are ordered together.

* **`compare_exact`**, **`compare_rounded`** — the two ways.
* **`TotalPreorder.of_rank`** — where the order comes from.
* **`totalPreorder_iff`** — exact numbers among the reals.
* **`compare_totalPreorder`** — the headline; **`compare_not_transitive`** — where it ends.
-/

namespace Worksheet.Arithmetic

/-! ## Numbers -/

/-- A real other than NaN. -/
def IsReal (v : Value) : Prop := ∃ x : Float, v = .real x ∧ x.isNaN = false

/-- A number: an integer, a truth value or a fraction, which are exact, or a real other than NaN. -/
def IsNumber (v : Value) : Prop := (exactNumber? v).isSome ∨ IsReal v

/-- The real that stands for a number where it meets a real. -/
def asReal (v : Value) : Float := ((Number.ofValue? v).map Number.toReal).getD 0

/-- Are two numbers ordered as the reals that stand for them? -/
def KeepsOrder (a b : Value) : Prop := compareReals (asReal a) (asReal b) = compare a b

theorem IsReal.exists_ofValue? {v : Value} (h : IsReal v) :
    ∃ x : Float, Number.ofValue? v = some (.real x) ∧ x.isNaN = false := by
  obtain ⟨x, rfl, hx⟩ := h
  exact ⟨x, rfl, hx⟩

/-- The fraction that stands for an exact number where it meets another one. -/
theorem exists_toFraction? {v : Value} {z : ℚ} (h : exactNumber? v = some z) :
    ∃ x f, Number.ofValue? v = some x ∧ x.toFraction? = some f ∧ f.toRat = z ∧
      x.toReal.isNaN = false := by
  rcases exactNumber?_cases h with ⟨n, hn, -, rfl⟩ | ⟨f, rfl, rfl⟩
  · exact ⟨.int n, .ofWord n, hn, rfl, Fraction.toRat_ofWord n, Real.isNaN_ofWord n⟩
  · exact ⟨.rational f, f, rfl, rfl, rfl, Real.isNaN_div_ofWord f.num f.den_pos⟩

theorem IsNumber.exists_ofValue? {v : Value} (h : IsNumber v) :
    ∃ x, Number.ofValue? v = some x ∧ x.toReal.isNaN = false := by
  rcases h with h | h
  · obtain ⟨z, hz⟩ := Option.isSome_iff_exists.mp h
    obtain ⟨x, -, hx, -, -, hnan⟩ := exists_toFraction? hz
    exact ⟨x, hx, hnan⟩
  · obtain ⟨x, hx, hnan⟩ := h.exists_ofValue?
    exact ⟨.real x, hx, hnan⟩

theorem isNaN_asReal {v : Value} (h : IsNumber v) : (asReal v).isNaN = false := by
  obtain ⟨x, hx, hnan⟩ := h.exists_ofValue?
  rw [asReal, hx]
  exact hnan

/-! ## The two ways of comparing -/

theorem compareReals_eq {x y : Float} (hx : x.isNaN = false) (hy : y.isNaN = false) :
    compareReals x y = some (cmp (Real.rank x) (Real.rank y)) := by
  unfold compareReals
  rcases lt_trichotomy (Real.rank x) (Real.rank y) with hlt | heq | hgt
  · rw [if_pos ((Real.lt_iff_rank hx hy).mpr hlt), (cmp_eq_lt_iff _ _).mpr hlt]
  · rw [if_neg (fun h => ((Real.lt_iff_rank hx hy).mp h).ne heq),
      if_pos ((Real.beq_iff_rank hx hy).mpr heq), (cmp_eq_eq_iff _ _).mpr heq]
  · rw [if_neg (fun h => hgt.not_gt ((Real.lt_iff_rank hx hy).mp h)),
      if_neg (fun h => hgt.ne' ((Real.beq_iff_rank hx hy).mp h)),
      if_pos ((Real.lt_iff_rank hy hx).mpr hgt), (cmp_eq_gt_iff _ _).mpr hgt]

variable {a b : Value}

/-- Exact numbers are compared exactly. -/
theorem compare_exact {x y : ℚ} (ha : exactNumber? a = some x) (hb : exactNumber? b = some y) :
    compare a b = some (cmp x y) := by
  obtain ⟨m, f, hm, hf, rfl, -⟩ := exists_toFraction? ha
  obtain ⟨n, g, hn, hg, rfl, -⟩ := exists_toFraction? hb
  unfold compare
  simp only [hm, hn]
  unfold compareNumbers
  simp only [hf, hg, f.compare_eq g]

/-- A number that meets a real is rounded first. -/
theorem compare_rounded (ha : IsNumber a) (hb : IsNumber b) (h : IsReal a ∨ IsReal b) :
    compare a b = compareReals (asReal a) (asReal b) := by
  obtain ⟨m, hm, -⟩ := ha.exists_ofValue?
  obtain ⟨n, hn, -⟩ := hb.exists_ofValue?
  unfold compare asReal
  simp only [hm, hn]
  -- one real is enough: it has no fraction to be compared as
  rcases h with h | h
  · obtain ⟨x, hx, -⟩ := h.exists_ofValue?
    cases hm.symm.trans hx
    cases n <;> rfl
  · obtain ⟨y, hy, -⟩ := h.exists_ofValue?
    cases hn.symm.trans hy
    cases m <;> rfl

/-- Where a number stands among the reals. -/
def rank (v : Value) : ℤ ×ₗ ℤ ×ₗ ℤ := Real.rank (asReal v)

theorem compareReals_asReal (ha : IsNumber a) (hb : IsNumber b) :
    compareReals (asReal a) (asReal b) = some (cmp (rank a) (rank b)) :=
  compareReals_eq (isNaN_asReal ha) (isNaN_asReal hb)

theorem exists_compare (ha : IsNumber a) (hb : IsNumber b) :
    ∃ o, compare a b = some o ∧ compare b a = some o.swap := by
  by_cases hreal : IsReal a ∨ IsReal b
  · rw [compare_rounded ha hb hreal, compare_rounded hb ha hreal.symm, compareReals_asReal ha hb,
      compareReals_asReal hb ha, ← cmp_swap (rank a)]
    exact ⟨_, rfl, rfl⟩
  · rw [not_or] at hreal
    obtain ⟨x, hx⟩ := Option.isSome_iff_exists.mp (ha.resolve_right hreal.1)
    obtain ⟨y, hy⟩ := Option.isSome_iff_exists.mp (hb.resolve_right hreal.2)
    rw [compare_exact hx hy, compare_exact hy hx, ← cmp_swap x]
    exact ⟨_, rfl, rfl⟩

/-! ## Orders -/

/-- Is a value at most another one? -/
def AtMost (a b : Value) : Prop := ∃ o, compare a b = some o ∧ o.isLE = true

/-- Values that the comparison puts into one order, in which equal values share a place. -/
structure TotalPreorder (S : Value → Prop) : Prop where
  reversed : ∀ a b, S a → S b → ∃ o, compare a b = some o ∧ compare b a = some o.swap
  atMost_trans : ∀ a b c, S a → S b → S c → AtMost a b → AtMost b c → AtMost a c
  equals_refl : ∀ a, S a → equals a a = true
  equals_symm : ∀ a b, S a → S b → equals a b = true → equals b a = true
  equals_trans : ∀ a b c, S a → S b → S c → equals a b = true → equals b c = true →
    equals a c = true

theorem equals_iff {o : Ordering} (h : compare a b = some o) : equals a b = true ↔ o = .eq := by
  rw [equals, h]
  exact beq_iff_eq

theorem atMost_iff {o : Ordering} (h : compare a b = some o) : AtMost a b ↔ o ≠ .gt := by
  rw [AtMost, h]
  constructor
  · rintro ⟨o', ho, hle⟩ rfl
    cases ho
    cases hle
  · exact fun hne => ⟨o, rfl, Ordering.isLE_iff_ne_gt.mpr hne⟩

theorem TotalPreorder.of_rank {S : Value → Prop} {α : Type*} [LinearOrder α] (rank : Value → α)
    (h : ∀ a b, S a → S b → compare a b = some (cmp (rank a) (rank b))) : TotalPreorder S := by
  have hle : ∀ a b, S a → S b → (AtMost a b ↔ rank a ≤ rank b) := fun a b ha hb =>
    (atMost_iff (h a b ha hb)).trans ((cmp_eq_gt_iff _ _).not.trans not_lt)
  have heq : ∀ a b, S a → S b → (equals a b = true ↔ rank a = rank b) := fun a b ha hb =>
    (equals_iff (h a b ha hb)).trans (cmp_eq_eq_iff _ _)
  refine ⟨fun a b ha hb => ⟨_, h a b ha hb, ?_⟩, fun a b c ha hb hc hab hbc => ?_, fun a ha => ?_,
    fun a b ha hb hab => ?_, fun a b c ha hb hc hab hbc => ?_⟩
  · rw [cmp_swap, h b a hb ha]
  · exact (hle a c ha hc).mpr (((hle a b ha hb).mp hab).trans ((hle b c hb hc).mp hbc))
  · exact (heq a a ha ha).mpr rfl
  · exact (heq b a hb ha).mpr ((heq a b ha hb).mp hab).symm
  · exact (heq a c ha hc).mpr (((heq a b ha hb).mp hab).trans ((heq b c hb hc).mp hbc))

/-- Values that equal each other share a place. -/
theorem TotalPreorder.atMost_of_equal {S : Value → Prop} (hS : TotalPreorder S) {a' b' : Value}
    (ha : S a) (ha' : S a') (hb : S b) (hb' : S b') (haa : compare a a' = some .eq)
    (hbb : compare b' b = some .eq) (h : AtMost a' b') : AtMost a b :=
  hS.atMost_trans a a' b ha ha' hb ⟨_, haa, rfl⟩
    (hS.atMost_trans a' b' b ha' hb' hb h ⟨_, hbb, rfl⟩)

/-- Which of two values is at most the other says how they compare. -/
theorem TotalPreorder.compare_eq {S : Value → Prop} (hS : TotalPreorder S) {a' b' : Value}
    (ha : S a) (ha' : S a') (hb : S b) (hb' : S b') (hle : AtMost a b ↔ AtMost a' b')
    (hge : AtMost b a ↔ AtMost b' a') : compare a b = compare a' b' := by
  obtain ⟨o, ho, hswap⟩ := hS.reversed a b ha hb
  obtain ⟨o', ho', hswap'⟩ := hS.reversed a' b' ha' hb'
  rw [atMost_iff ho, atMost_iff ho'] at hle
  rw [atMost_iff hswap, atMost_iff hswap'] at hge
  rw [ho, ho']
  cases o <;> cases o' <;> simp_all

/-! ## Exact numbers among the reals -/

theorem totalPreorder_exact {S : Value → Prop} (hS : ∀ v, S v → (exactNumber? v).isSome) :
    TotalPreorder S :=
  .of_rank (fun v => (exactNumber? v).getD 0) fun a b ha hb => by
    obtain ⟨x, hx⟩ := Option.isSome_iff_exists.mp (hS a ha)
    obtain ⟨y, hy⟩ := Option.isSome_iff_exists.mp (hS b hb)
    rw [compare_exact hx hy, hx, hy]
    rfl

theorem isReal_asReal (ha : IsNumber a) : IsReal (.real (asReal a)) :=
  ⟨_, rfl, isNaN_asReal ha⟩

/-- A number equals the real that stands for it. -/
theorem compare_asReal (ha : IsNumber a) :
    compare a (.real (asReal a)) = some .eq ∧ compare (.real (asReal a)) a = some .eq := by
  have hreal := isReal_asReal ha
  rw [compare_rounded ha (.inr hreal) (.inr hreal), compare_rounded (.inr hreal) ha (.inl hreal),
    compareReals_asReal ha (.inr hreal), compareReals_asReal (.inr hreal) ha]
  exact ⟨congrArg some (cmp_self_eq_eq _), congrArg some (cmp_self_eq_eq _)⟩

/-- Exact numbers go with the reals exactly if they keep their order among them. -/
theorem totalPreorder_iff {S : Value → Prop} (hS : ∀ v, S v → (exactNumber? v).isSome) :
    TotalPreorder (fun v => S v ∨ IsReal v) ↔ ∀ p q, S p → S q → KeepsOrder p q := by
  have hnumber : ∀ v, S v ∨ IsReal v → IsNumber v := fun v hv => hv.imp (hS v) id
  constructor
  · intro h p q hp hq
    have hp' := hnumber p (.inl hp)
    have hq' := hnumber q (.inl hq)
    have hx := isReal_asReal hp'
    have hy := isReal_asReal hq'
    -- a number equals the real that stands for it, so in one order they share a place
    obtain ⟨hpx, hxp⟩ := compare_asReal hp'
    obtain ⟨hqy, hyq⟩ := compare_asReal hq'
    exact h.compare_eq (.inr hx) (.inl hp) (.inr hy) (.inl hq)
      ⟨h.atMost_of_equal (.inl hp) (.inr hx) (.inl hq) (.inr hy) hpx hyq,
        h.atMost_of_equal (.inr hx) (.inl hp) (.inr hy) (.inl hq) hxp hqy⟩
      ⟨h.atMost_of_equal (.inl hq) (.inr hy) (.inl hp) (.inr hx) hqy hxp,
        h.atMost_of_equal (.inr hy) (.inl hq) (.inr hx) (.inl hp) hyq hpx⟩
  · refine fun h => .of_rank rank fun a b ha hb => ?_
    rw [← compareReals_asReal (hnumber a ha) (hnumber b hb)]
    by_cases hreal : IsReal a ∨ IsReal b
    · exact compare_rounded (hnumber a ha) (hnumber b hb) hreal
    · rw [not_or] at hreal
      exact (h a b (ha.resolve_right hreal.1) (hb.resolve_right hreal.2)).symm

theorem exactNumber?_of_int {v : Value} {n : Int64} (h : Number.ofValue? v = some (.int n)) :
    exactNumber? v = some (n.toInt : ℚ) := by
  cases v with
  | int m =>
    cases h
    rfl
  | bool b =>
    cases h
    cases b with
    | false => exact congrArg some Int.cast_zero.symm
    | true => exact congrArg some Int.cast_one.symm
  | _ => cases h

/-- Integers and truth values up to `2 ^ 53` keep their order. -/
theorem keepsOrder_int {m n : Int64} (ha : Number.ofValue? a = some (.int m))
    (hb : Number.ofValue? b = some (.int n)) (hm : |m.toInt| ≤ 2 ^ 53) (hn : |n.toInt| ≤ 2 ^ 53) :
    KeepsOrder a b := by
  have hx : asReal a = Real.ofWord m := by rw [asReal, ha]; rfl
  have hy : asReal b = Real.ofWord n := by rw [asReal, hb]; rfl
  rw [KeepsOrder, compare_exact (exactNumber?_of_int ha) (exactNumber?_of_int hb), hx, hy,
    compareReals_eq (Real.isNaN_ofWord m) (Real.isNaN_ofWord n)]
  rw [abs_le] at hm hn
  rcases lt_trichotomy m.toInt n.toInt with hlt | heq | hgt
  · rw [(cmp_eq_lt_iff _ _).mpr (Real.rank_ofWord_lt hm.1 hn.2 hlt),
      (cmp_eq_lt_iff _ _).mpr (Int.cast_lt.mpr hlt)]
  · rw [Int64.toInt_inj.mp heq, cmp_self_eq_eq, cmp_self_eq_eq]
  · rw [(cmp_eq_gt_iff _ _).mpr (Real.rank_ofWord_lt hn.1 hm.2 hgt),
      (cmp_eq_gt_iff _ _).mpr (Int.cast_lt.mpr hgt)]

/-- **The order of numbers.** Any two numbers have an order, which turns around with them. The exact
numbers are ordered together; among the reals they are exactly if every two of them keep their order
when they are rounded, as integers up to `2 ^ 53` do. -/
theorem compare_totalPreorder {S : Value → Prop} (hS : ∀ v, S v → (exactNumber? v).isSome) :
    (∀ a b, IsNumber a → IsNumber b →
      ∃ o, compare a b = some o ∧ compare b a = some o.swap) ∧
    TotalPreorder S ∧
    (TotalPreorder (fun v => S v ∨ IsReal v) ↔ ∀ p q, S p → S q → KeepsOrder p q) ∧
    (∀ p q m n, Number.ofValue? p = some (.int m) → Number.ofValue? q = some (.int n) →
      |m.toInt| ≤ 2 ^ 53 → |n.toInt| ≤ 2 ^ 53 → KeepsOrder p q) :=
  ⟨fun _ _ ha hb => exists_compare ha hb, totalPreorder_exact hS, totalPreorder_iff hS,
    fun _ _ _ _ hp hq hm hn => keepsOrder_int hp hq hm hn⟩

/-- The greatest of these integers and a truth value go with the reals. -/
theorem compare_totalPreorder_two_pow :
    TotalPreorder (fun v => (v = .int 9007199254740992 ∨ v = .bool true) ∨ IsReal v) := by
  have hS : ∀ v, v = .int 9007199254740992 ∨ v = .bool true → (exactNumber? v).isSome := by
    rintro v (rfl | rfl) <;> rfl
  have h := compare_totalPreorder hS
  refine h.2.2.1.mpr ?_
  rintro p q (rfl | rfl) (rfl | rfl) <;> exact h.2.2.2 _ _ _ _ rfl rfl (by decide) (by decide)

/-- Two integers next to each other, one of which is rounded to the other. -/
theorem compare_not_transitive :
    let a : Value := .int 9007199254740993
    let b : Value := .real 9007199254740992.0
    let c : Value := .int 9007199254740992
    equals a b = true ∧ equals b c = true ∧ equals a c = false ∧
      AtMost a b ∧ AtMost b c ∧ ¬AtMost a c := by
  have hab : compare (.int 9007199254740993) (.real 9007199254740992.0) = some .eq := by
    decide +kernel
  have hbc : compare (.real 9007199254740992.0) (.int 9007199254740992) = some .eq := by
    decide +kernel
  have hac : compare (.int 9007199254740993) (.int 9007199254740992) = some .gt := by
    decide +kernel
  refine ⟨(equals_iff hab).mpr rfl, (equals_iff hbc).mpr rfl, ?_, ⟨_, hab, rfl⟩, ⟨_, hbc, rfl⟩, ?_⟩
  · rw [equals, hac]
    rfl
  · exact fun h => (atMost_iff hac).mp h rfl

end Worksheet.Arithmetic
