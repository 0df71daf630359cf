import Mathlib.Data.Nat.Basic
import Worksheet.Display.Spec
import Worksheet.Text.Split

/-!
# Digits in groups

Separators part a run of digits into groups of the same length, counted from the right; only the group
in front may be shorter.

* **`Groups`** — such groups; **`exists_groups`** — digits are parted into them.
* **`length_groupDigits`**, **`filter_groupDigits`** — how many separators there are, and what is left
  without them.
* **`groupDigits_append`** — digits in front that fit into the first group need no separator.
-/

namespace Worksheet.Display.Spec

open Text

variable {sep : Char} {every : Nat} {s : List Char}

theorem groupDigits_cons (sep : Char) (every : Nat) (c : Char) (hs : s ≠ []) :
    groupDigits sep every (c :: s) = c :: if s.length % every = 0 then sep :: groupDigits sep every s
      else groupDigits sep every s := by
  cases s with
  | nil => exact absurd rfl hs
  | cons d s =>
    rw [groupDigits, List.length_cons]
    split <;> rfl

theorem mem_groupDigits {c : Char} (h : c ∈ groupDigits sep every s) : c = sep ∨ c ∈ s := by
  induction s with
  | nil => cases h
  | cons d s ih =>
    by_cases hs : s = []
    · rw [hs] at h ⊢
      exact Or.inr h
    · rw [groupDigits_cons sep every d hs] at h
      split at h <;> grind

/-! ## Groups -/

/-- Groups of `every` digits, counted from the right: full ones behind one that is not empty. -/
structure Groups (every : Nat) (head : List Char) (rest : List (List Char)) : Prop where
  head_ne : head ≠ []
  head_le : head.length ≤ every
  full : ∀ group ∈ rest, group.length = every

theorem Groups.length_flatten {head : List Char} {rest : List (List Char)} (h : Groups every head rest) :
    (head :: rest).flatten.length = head.length + every * rest.length := by
  have hrest : rest.flatten.length = every * rest.length := by
    rw [List.length_flatten, List.map_congr_left h.full, List.map_const', List.sum_replicate_nat,
      Nat.mul_comm]
  rw [List.flatten_cons, List.length_append, hrest]

/-- Separators part digits into groups. -/
theorem exists_groups (sep : Char) (hevery : 0 < every) (hs : s ≠ []) :
    ∃ head rest, groupDigits sep every s = joinWith [sep] (head :: rest) ∧ (head :: rest).flatten = s ∧
      Groups every head rest := by
  induction s with
  | nil => exact absurd rfl hs
  | cons c s ih =>
    by_cases hnil : s = []
    · subst hnil
      exact ⟨[c], [], rfl, rfl, List.cons_ne_nil c [], hevery, nofun⟩
    · obtain ⟨head, rest, hjoin, hflatten, hgroups⟩ := ih hnil
      have hlength := hgroups.length_flatten
      have hhead := List.length_pos_iff.mpr hgroups.head_ne
      have hle := hgroups.head_le
      rw [groupDigits_cons sep every c hnil, hjoin]
      rw [hflatten] at hlength
      have hmod : s.length % every = head.length % every := by rw [hlength, Nat.add_mul_mod_self_left]
      split
      · -- the groups behind are full, and the digit begins one of its own
        next hfull =>
        have hheadfull : head.length = every := by
          rcases Nat.lt_or_eq_of_le hle with hlt | heq
          · rw [hmod, Nat.mod_eq_of_lt hlt] at hfull
            omega
          · exact heq
        refine ⟨[c], head :: rest, rfl, by rw [← hflatten]; rfl, List.cons_ne_nil c [], hevery, ?_⟩
        intro group hgroup
        rcases List.mem_cons.mp hgroup with rfl | hgroup
        · exact hheadfull
        · exact hgroups.full group hgroup
      · -- the group in front has room for the digit
        next hroom =>
        have hlt : head.length < every := by
          refine Nat.lt_of_le_of_ne hle fun heq => hroom ?_
          rw [hmod, heq, Nat.mod_self]
        refine ⟨c :: head, rest, ?_, by rw [← hflatten]; rfl, List.cons_ne_nil c head, hlt, hgroups.full⟩
        cases rest <;> rfl

/-! ## Separators -/

theorem length_groupDigits (sep : Char) (every : Nat) (hs : s ≠ []) :
    (groupDigits sep every s).length = s.length + (s.length - 1) / every := by
  induction s with
  | nil => exact absurd rfl hs
  | cons c s ih =>
    by_cases hnil : s = []
    · subst hnil
      simp [groupDigits]
    · have hpos := List.length_pos_iff.mpr hnil
      have hdiv : (s.length - 1 + 1) / every = _ := Nat.succ_div
      rw [Nat.sub_add_cancel hpos] at hdiv
      rw [groupDigits_cons sep every c hnil, List.length_cons, List.length_cons, Nat.add_sub_cancel, hdiv]
      simp only [Nat.dvd_iff_mod_eq_zero]
      split <;> simp only [List.length_cons, ih hnil] <;> omega

theorem filter_groupDigits (every : Nat) (hs : sep ∉ s) :
    (groupDigits sep every s).filter (· != sep) = s := by
  induction s with
  | nil => rfl
  | cons c s ih =>
    obtain ⟨hc, hs⟩ : sep ≠ c ∧ sep ∉ s := by simpa using hs
    have hkept : ∀ t, (c :: t).filter (· != sep) = c :: t.filter (· != sep) :=
      fun t => List.filter_cons_of_pos (bne_iff_ne.mpr (Ne.symm hc))
    by_cases hnil : s = []
    · subst hnil
      exact hkept []
    · rw [groupDigits_cons sep every c hnil, hkept]
      split
      · rw [List.filter_cons_of_neg (by simp), ih hs]
      · rw [ih hs]

/-- Digits in front that fit into the first group. -/
theorem groupDigits_append (sep : Char) {front : List Char} (hs : s ≠ [])
    (hfits : (s.length - 1) % every + front.length < every) :
    groupDigits sep every (front ++ s) = front ++ groupDigits sep every s := by
  induction front with
  | nil => rfl
  | cons c front ih =>
    have hpos := List.length_pos_iff.mpr hs
    rw [List.length_cons] at hfits
    have hroom : (front ++ s).length % every ≠ 0 := by
      have hlength : (front ++ s).length = (s.length - 1) + (front.length + 1) := by
        rw [List.length_append]
        omega
      rw [hlength, Nat.add_mod, Nat.mod_eq_of_lt (a := front.length + 1) (by omega), Nat.mod_eq_of_lt hfits]
      omega
    rw [List.cons_append, groupDigits_cons sep every c (by simp [hs]), if_neg hroom, ih (by omega)]
    rfl

end Worksheet.Display.Spec
