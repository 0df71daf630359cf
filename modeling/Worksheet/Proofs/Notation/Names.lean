import Worksheet.Proofs.Expression.Names
import Worksheet.Proofs.Notation.Hygiene

/-!
# Names as operands

An identifier that is no word of the expression language, none of the clock and, where units are looked
for, none of their symbols stands for itself: the notation leaves it alone (`IsName.untouched`), alone
and as the argument of a function of such a name (`expand_directCall`).
-/

namespace Worksheet

open Text Expression

namespace Notation

/-- A word that is read as a name, in an expression in worksheet notation too. -/
structure IsName (o : Options) (w : String) : Prop where
  identifier : isIdentifier w.toList = true
  unreserved : isVariableName w = true
  clock : w.toList.map fold ∉ clockWords
  unit : o.naturalUnits = true → ∀ u ∈ MeasureUnit.table, u.symbol.toList ≠ w.toList

section Identifiers

variable {s : List Char}

theorem not_mem_identifier (h : isIdentifier s = true) {c : Char} (hc : isNameChar c = false) :
    c ∉ s := by
  intro hmem
  rw [isNameChar_of_mem_identifier h c hmem] at hc
  cases hc

/-- A letter is no digit of any script. -/
theorem isDecimal_of_isLetter {c : Char} (h : isLetter c = true) : isDecimal c = false := by
  have hsmall : isSmall (fold c) = true := isSmall_fold_iff.mpr (Or.inl h)
  rw [Bool.eq_false_iff]
  intro hdecimal
  rw [isSmall_fold_of_isDecimal hdecimal] at hsmall
  cases hsmall

/-- The one word that an identifier is begins with a letter. -/
theorem noNumber_of_identifier (h : isIdentifier s = true) : NoNumber s := by
  rintro pre c r rfl hedge
  cases pre using List.reverseRecOn with
  | nil => exact isDecimal_of_isLetter (Bool.and_eq_true_iff.mp h).1
  | append_singleton pre d =>
    have hchar : isNameChar d = true := isNameChar_of_mem_identifier h d (by simp)
    have hword := hedge d List.getLast?_concat
    rw [isWordChar_of_isNameChar hchar] at hword
    cases hword

end Identifiers

section Names

variable {o : Options} {f x : String}

theorem IsName.isVariable (h : IsName o x) : IsVariable x :=
  isVariable_of_identifier h.identifier h.unreserved

theorem IsName.chars (h : IsName o x) : ∀ c ∈ x.toList, isNameChar c = true :=
  isNameChar_of_mem_identifier h.identifier

theorem IsName.untouched (h : IsName o x) : Untouched o x.toList := by
  have hwords : words x.toList = [x.toList] :=
    words_eq_singleton fun c hc => isWordChar_of_isNameChar (h.chars c hc)
  constructor
  · exact not_mem_identifier h.identifier (by decide)
  · rw [hwords]
    exact List.forall_mem_singleton.mpr h.clock
  · intro pre c r hsplit hdecimal hedge
    rw [noNumber_of_identifier h.identifier pre c r hsplit hedge] at hdecimal
    cases hdecimal
  · intro hnatural u hu
    rw [hwords, List.mem_singleton]
    exact h.unit hnatural u hu

/-- Nothing is expanded in a name that is applied to a name. -/
theorem expand_directCall (hf : IsName o f) (hx : IsName o x) :
    expand o (directCall f x) = directCall f x := by
  have hchars : ∀ c ∈ directCall f x, isNameChar c = true ∨ c = '(' ∨ c = ')' := by
    intro c hc
    simp only [directCall, List.mem_append, List.mem_cons, List.not_mem_nil, or_false] at hc
    rcases hc with hc | rfl | hc | rfl
    · exact Or.inl (hf.chars c hc)
    · exact Or.inr (Or.inl rfl)
    · exact Or.inl (hx.chars c hc)
    · exact Or.inr (Or.inr rfl)
  have hmarks : ∀ c ∈ directCall f x, c ∉ marks := by
    intro c hc
    rcases hchars c hc with hname | rfl | rfl
    · exact not_mem_marks (p := isNameChar) (by decide) hname
    · decide
    · decide
  have htrim : trim (directCall f x) = directCall f x := by
    refine trim_eq_self fun c hc => ?_
    rcases hchars c hc with hname | rfl | rfl
    · exact isBlank_of_isNameChar hname
    · decide
    · decide
  have hat : '@' ∉ directCall f x := fun hmem => hmarks _ hmem (by decide)
  have hnothing : Untouched o [] := untouched_of_no_letters (by simp)
  have hbehind : Untouched o (x.toList ++ ')' :: []) :=
    hx.untouched.append_cons (by decide) hnothing (Or.inr (by simp))
  have huntouched : Untouched o (directCall f x) :=
    hf.untouched.append_cons (by decide) hbehind (Or.inl (noNumber_of_identifier hf.identifier))
  rw [expand_of_marks o htrim hmarks, huntouched.lateStages hat]

end Names

end Notation

/-! ## Calls -/

theorem isCall_of_identifier {f : List Char} (hf : isIdentifier f = true) : IsCall [] f [] := by
  refine ⟨closed_of_not_mem (by simp), by simp, ?_, isNameChar_of_mem_identifier hf, by simp⟩
  cases f with
  | nil => cases hf
  | cons c r =>
    refine ⟨c, r, rfl, ?_⟩
    rw [isNameStart, (Bool.and_eq_true_iff.mp hf).1, Bool.true_or]

/-- A function that a variable holds is called as what the variable holds. -/
theorem bindCalls_directCall (isFunction : String → Bool) {f x : String}
    (hf : isIdentifier f.toList = true) (hx : isIdentifier x.toList = true) :
    bindCalls isFunction (directCall f x)
      = if isFunction f then methodCall f x else directCall f x := by
  have hparen : '(' ∉ x.toList ++ [')'] :=
    List.not_mem_append (Notation.not_mem_identifier hx (by decide)) (by decide)
  have hcall := bindCalls_call isFunction (isCall_of_identifier hf) (x.toList ++ [')'])
  have hnothing : bindCalls isFunction [] = [] := bindCalls_eq_self isFunction (by simp)
  rw [hnothing, bindCalls_eq_self isFunction hparen] at hcall
  show bindCalls isFunction ([] ++ (f.toList ++ ([] ++ '(' :: (x.toList ++ [')'])))) = _
  rw [hcall, callText, String.ofList_toList]
  split
  · simp [methodCall]
  · simp [directCall]

end Worksheet
