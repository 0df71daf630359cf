import Worksheet.Expression.Token
import Worksheet.Proofs.Text.Digits

/-!
# Numerals in a base

A number that is written in a base up to sixteen is read back, in small letters or in capitals, and
whatever zeros stand in front of it.

* **`digitOf?_digitChar`**, **`digitOf?_of_mem_showBase`** — the digits in both cases.
* **`readBase_showBase`** — numbers; **`readBase_zeros`** — zeros in front.
-/

namespace Worksheet.Expression

open Text

variable {base : Nat}

theorem digitOf?_eq_filter (hbase : base ≤ 16) (c : Char) :
    digitOf? base c = (digitOf? 16 c).filter fun d => d < base := by
  have hboth : (fun d => decide (d < 16) && decide (d < base)) = fun d => decide (d < base) := by
    funext d
    rw [Bool.eq_iff_iff, Bool.and_eq_true, decide_eq_true_eq, decide_eq_true_eq]
    omega
  unfold digitOf?
  dsimp only
  rw [Option.filter_filter, hboth]

/-- A digit of the base, in small letters or in capitals, has its value. -/
theorem digitOf?_digitChar (hbase : base ≤ 16) {d : Nat} (hd : d < base) (capitals : Bool) :
    digitOf? base (if capitals then upper (Nat.digitChar d) else Nat.digitChar d) = some d := by
  have hall : ∀ capitals : Bool, ∀ d < 16,
      digitOf? 16 (if capitals then upper (Nat.digitChar d) else Nat.digitChar d) = some d := by
    decide
  rw [digitOf?_eq_filter hbase, hall capitals d (by omega)]
  simp [hd]

/-- A number in a base, in small letters or in capitals. -/
def showBase (base : Nat) (capitals : Bool) (n : Nat) : List Char :=
  (Nat.toDigits base n).map fun c => if capitals then upper c else c

theorem showBase_ne_nil {capitals : Bool} {n : Nat} : showBase base capitals n ≠ [] := by
  simp [showBase, Nat.toDigits_ne_nil]

theorem showBase_of_lt {capitals : Bool} {d : Nat} (hd : d < base) :
    showBase base capitals d = [if capitals then upper (Nat.digitChar d) else Nat.digitChar d] := by
  rw [showBase, Nat.toDigits_of_lt_base hd]
  rfl

theorem showBase_append {capitals : Bool} (hbase : 1 < base) {m d : Nat} (hm : 0 < m) (hd : d < base) :
    showBase base capitals (base * m + d) = showBase base capitals m ++ showBase base capitals d := by
  simp only [showBase]
  rw [← Nat.toDigits_append_toDigits hbase hm hd, List.map_append]

theorem digitOf?_of_mem_showBase (hlow : 1 < base) (hhigh : base ≤ 16) {capitals : Bool} {n : Nat} {c : Char}
    (h : c ∈ showBase base capitals n) : (digitOf? base c).isSome := by
  induction n using Nat.base_induction base hlow with
  | single d hd =>
    rw [showBase_of_lt hd, List.mem_singleton] at h
    rw [h, digitOf?_digitChar hhigh hd]
    rfl
  | digit m d hd hm ih =>
    rw [showBase_append hlow hm hd, List.mem_append] at h
    rcases h with h | h
    · exact ih h
    · rw [showBase_of_lt hd, List.mem_singleton] at h
      rw [h, digitOf?_digitChar hhigh hd]
      rfl

theorem readBase_append (s : List Char) (c : Char) :
    readBase base (s ++ [c]) = base * readBase base s + (digitOf? base c).getD 0 := by
  simp [readBase]

/-- What is written in a base is read back. -/
theorem readBase_showBase (hlow : 1 < base) (hhigh : base ≤ 16) (capitals : Bool) (n : Nat) :
    readBase base (showBase base capitals n) = n := by
  induction n using Nat.base_induction base hlow with
  | single d hd =>
    rw [showBase_of_lt hd, ← List.nil_append [_], readBase_append, digitOf?_digitChar hhigh hd]
    simp [readBase]
  | digit m d hd hm ih =>
    rw [showBase_append hlow hm hd, showBase_of_lt hd, readBase_append, ih, digitOf?_digitChar hhigh hd]
    rfl

theorem readBase_zeros (base k : Nat) (s : List Char) :
    readBase base (List.replicate k '0' ++ s) = readBase base s := by
  have hzero : (digitOf? base '0').getD 0 = 0 := by cases base <;> rfl
  induction k with
  | zero => rfl
  | succ k ih =>
    rw [List.replicate_succ, List.cons_append, ← ih]
    simp [readBase, hzero]

end Worksheet.Expression
