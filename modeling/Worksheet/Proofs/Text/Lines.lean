import Worksheet.Text.Lines
import Worksheet.Text.Split

/-!
# Lines that are put together and read again

A text is written by joining lines with line feeds. Read again, it has these lines if none of them
holds a line feed or ends with a carriage return; an empty line at the end is the end of the one
before.

* **`splitAt_joinWith`** — the parts of joined lines are the parts of the lines, whatever they hold.
  Unlike `lines` it forgets nothing, so that it tells texts apart.
* **`lines_joinWith`** — reading joined lines that are plain.
-/

namespace Worksheet.Text

/-! ## Parts -/

theorem joinWith_cons (c : Char) (l : List Char) {ls : List (List Char)} (hne : ls ≠ []) :
    joinWith [c] (l :: ls) = l ++ c :: joinWith [c] ls := by
  cases ls with
  | nil => exact absurd rfl hne
  | cons l' ls => simp [joinWith]

theorem joinWith_concat (c : Char) {ls : List (List Char)} (hne : ls ≠ []) (last : List Char) :
    joinWith [c] (ls ++ [last]) = joinWith [c] ls ++ c :: last := by
  induction ls with
  | nil => exact absurd rfl hne
  | cons l ls ih =>
    rw [List.cons_append, joinWith_cons c l (by simp)]
    by_cases hnil : ls = []
    · subst hnil
      rfl
    · rw [ih hnil, joinWith_cons c l hnil, List.append_assoc]
      rfl

theorem joinWith_eq_nil_iff (c : Char) {ls : List (List Char)} :
    joinWith [c] ls = [] ↔ ls = [] ∨ ls = [[]] := by
  cases ls with
  | nil => simp [joinWith]
  | cons l ls =>
    by_cases hnil : ls = []
    · subst hnil
      simp [joinWith]
    · simp [joinWith_cons c l hnil, hnil]

theorem splitAt_append_cons {f : Char → Bool} {c : Char} (hc : f c = true) (a b : List Char) :
    splitAt f (a ++ c :: b) = splitAt f a ++ splitAt f b := by
  induction a with
  | nil =>
    show splitAt f (c :: b) = [] :: splitAt f b
    rw [splitAt, if_pos hc]
  | cons x a ih =>
    rw [List.cons_append, splitAt, splitAt, ih]
    by_cases hx : f x = true
    · rw [if_pos hx, if_pos hx]
      rfl
    · rw [if_neg hx, if_neg hx]
      -- the part that `x` goes to is the first one of `a`
      cases hparts : splitAt f a with
      | nil => exact absurd hparts (splitAt_ne_nil f a)
      | cons part parts => rfl

/-- What stands in front without a separator belongs to the first part. -/
theorem splitAt_append_of_not_mem {c : Char} {s : List Char} (hs : c ∉ s) (t : List Char) :
    ∃ first, splitAt (· == c) (s ++ t) = (s ++ first) :: (splitAt (· == c) t).tail := by
  induction s with
  | nil =>
    cases hparts : splitAt (· == c) t with
    | nil => exact absurd hparts (splitAt_ne_nil _ t)
    | cons first rest => exact ⟨first, hparts⟩
  | cons x s ih =>
    obtain ⟨hx, hs⟩ : c ≠ x ∧ c ∉ s := by simpa using hs
    obtain ⟨first, hparts⟩ := ih hs
    exact ⟨first, by rw [List.cons_append, splitAt, if_neg (by simpa using Ne.symm hx), hparts]; rfl⟩

theorem splitAt_joinWith (c : Char) {ls : List (List Char)} (hne : ls ≠ []) :
    splitAt (· == c) (joinWith [c] ls) = ls.flatMap (splitAt (· == c)) := by
  induction ls with
  | nil => exact absurd rfl hne
  | cons l ls ih =>
    by_cases hnil : ls = []
    · subst hnil
      simp [joinWith]
    · rw [joinWith_cons c l hnil, splitAt_append_cons (by simp), ih hnil, List.flatMap_cons]

theorem splitAt_eq_singleton {f : Char → Bool} {l : List Char} (h : ∀ x ∈ l, f x = false) :
    splitAt f l = [l] := by
  induction l with
  | nil => rfl
  | cons x l ih =>
    have hx : ¬ f x = true := by simp [h x List.mem_cons_self]
    rw [splitAt, if_neg hx, ih fun y hy => h y (List.mem_cons_of_mem x hy)]

theorem splitAt_of_not_mem {c : Char} {l : List Char} (h : c ∉ l) : splitAt (· == c) l = [l] := by
  refine splitAt_eq_singleton fun x hx => beq_false_of_ne ?_
  rintro rfl
  exact h hx

theorem flatMap_splitAt_of_not_mem {c : Char} {ls : List (List Char)} (h : ∀ l ∈ ls, c ∉ l) :
    ls.flatMap (splitAt (· == c)) = ls := by
  induction ls with
  | nil => rfl
  | cons l ls ih =>
    rw [List.flatMap_cons, splitAt_of_not_mem (h l List.mem_cons_self),
      ih fun l' hl' => h l' (List.mem_cons_of_mem l hl')]
    rfl

/-! ## Lines -/

/-- Is there nothing in the line that reading would cut it at? -/
def Plain (line : List Char) : Prop := '\n' ∉ line ∧ line.getLast? ≠ some '\r'

instance (line : List Char) : Decidable (Plain line) := by unfold Plain; infer_instance

theorem not_mem_of_mem_lines {s line : List Char} (h : line ∈ lines s) : '\n' ∉ line := by
  fun_induction lines s generalizing line with
  | case1 => cases h
  | case2 r ih =>
    rcases List.mem_cons.mp h with rfl | h
    · exact List.not_mem_nil
    · exact ih h
  | case3 r ih =>
    rcases List.mem_cons.mp h with rfl | h
    · exact List.not_mem_nil
    · exact ih h
  | case4 c r hcr hlf hr ih =>
    -- the last line, of one character
    rw [List.mem_singleton] at h
    subst h
    rw [List.mem_singleton]
    exact fun hc => hlf hc.symm
  | case5 c r hcr hlf first rest hr ih =>
    rw [hr] at ih
    rcases List.mem_cons.mp h with rfl | h
    · rw [List.mem_cons, not_or]
      exact ⟨fun hc => hlf hc.symm, ih List.mem_cons_self⟩
    · exact ih (List.mem_cons_of_mem _ h)

/-- A line has no characters but those of its text. -/
theorem subset_of_mem_lines {s line : List Char} (h : line ∈ lines s) : line ⊆ s := by
  fun_induction lines s generalizing line with
  | case1 => cases h
  | case2 r ih =>
    rcases List.mem_cons.mp h with rfl | h
    · exact List.nil_subset _
    · exact fun c hc => List.mem_cons_of_mem _ (List.mem_cons_of_mem _ (ih h hc))
  | case3 r ih =>
    rcases List.mem_cons.mp h with rfl | h
    · exact List.nil_subset _
    · exact fun c hc => List.mem_cons_of_mem _ (ih h hc)
  | case4 c r hcr hlf hr ih =>
    rw [List.mem_singleton.mp h]
    exact List.cons_subset_cons c (List.nil_subset r)
  | case5 c r hcr hlf first rest hr ih =>
    rw [hr] at ih
    rcases List.mem_cons.mp h with rfl | h
    · exact List.cons_subset_cons c (ih List.mem_cons_self)
    · exact fun d hd => List.mem_cons_of_mem _ (ih (List.mem_cons_of_mem _ h) hd)

/-- Without carriage returns in the text its lines are plain. -/
theorem plain_of_mem_lines {s line : List Char} (hs : '\r' ∉ s) (h : line ∈ lines s) : Plain line :=
  ⟨not_mem_of_mem_lines h, fun hlast => hs (subset_of_mem_lines h (List.mem_of_getLast? hlast))⟩

/-- The last line is empty only if it has an end. -/
theorem endsWithLineFeed_of_getLast?_lines {s : List Char} (h : (lines s).getLast? = some []) :
    endsWithLineFeed s = true := by
  fun_induction lines s with
  | case1 => cases h
  | case2 r ih =>
    cases r with
    | nil => rfl
    | cons c r =>
      have hne := @lines_ne_nil c r
      rw [List.getLast?_cons_of_ne_nil hne] at h
      simpa [endsWithLineFeed] using ih h
  | case3 r ih =>
    cases r with
    | nil => rfl
    | cons c r =>
      have hne := @lines_ne_nil c r
      rw [List.getLast?_cons_of_ne_nil hne] at h
      simpa [endsWithLineFeed] using ih h
  | case4 c r hcr hlf hr ih => simp at h
  | case5 c r hcr hlf first rest hr ih =>
    rw [hr] at ih
    cases rest with
    | nil => simp at h
    | cons second rest =>
      have hlast := ih (by simpa using h)
      cases r with
      | nil => cases hr
      | cons d r => simpa [endsWithLineFeed] using hlast

theorem lines_append_cons {line : List Char} (h : Plain line) (s : List Char) :
    lines (line ++ '\n' :: s) = line :: lines s := by
  induction line with
  | nil => rw [List.nil_append, lines]
  | cons c line ih =>
    obtain ⟨hlf, hcr⟩ := h
    obtain ⟨hc, hline⟩ : '\n' ≠ c ∧ '\n' ∉ line := by simpa using hlf
    -- only the last character can be taken for a part of the end of the line
    cases line with
    | nil =>
      have hne : c ≠ '\r' := by simpa using hcr
      rw [List.cons_append, List.nil_append, lines]
      · rw [lines]
      · intro r hr
        exact absurd hr hne
      · exact Ne.symm hc
    | cons d line =>
      have hd : d ≠ '\n' := fun heq => hline (heq ▸ List.mem_cons_self)
      rw [List.cons_append, lines, ih ⟨hline, by simpa using hcr⟩]
      · intro r hr hrest
        rw [List.cons_append] at hrest
        exact hd (List.cons.inj hrest).1
      · exact Ne.symm hc

theorem lines_of_not_mem {line : List Char} (h : '\n' ∉ line) :
    lines line = if line = [] then [] else [line] := by
  induction line with
  | nil => rfl
  | cons c line ih =>
    obtain ⟨hc, hline⟩ : '\n' ≠ c ∧ '\n' ∉ line := by simpa using h
    rw [if_neg (by simp), lines, ih hline]
    · by_cases hnil : line = []
      · rw [if_pos hnil, hnil]
      · rw [if_neg hnil]
    · intro r _ hr
      exact hline (hr ▸ List.mem_cons_self)
    · exact Ne.symm hc

/-- Lines joined in front of a last one are read as they are. -/
theorem lines_joinWith {ls : List (List Char)} (h : ∀ l ∈ ls, Plain l) (last : List Char) :
    lines (joinWith ['\n'] (ls ++ [last])) = ls ++ lines last := by
  induction ls with
  | nil => rfl
  | cons l ls ih =>
    have hrest := ih fun l' hl' => h l' (List.mem_cons_of_mem l hl')
    rw [List.cons_append, joinWith_cons '\n' l (by simp),
      lines_append_cons (h l List.mem_cons_self), hrest]
    rfl

theorem endsWithLineFeed_joinWith {ls : List (List Char)} (hne : ls ≠ []) (last : List Char) :
    endsWithLineFeed (joinWith ['\n'] (ls ++ [last]))
      = (last.isEmpty || endsWithLineFeed last) := by
  rw [joinWith_concat '\n' hne]
  cases last with
  | nil => simp [endsWithLineFeed]
  | cons c last => simp [endsWithLineFeed, List.getLast?_cons]

end Worksheet.Text
