import Mathlib.Data.List.Forall2
import Worksheet.Proofs.Expression.Formula

/-!
# Variables and calls as operands

What stands for a name in a formula: a variable, a call of a function with literals, or a call of the
function that a variable holds.

* **`items_denotes`** — literals with commas between them are read as the arguments of a call, one level
  deeper.
* **`readsOperand_variable`**, **`readsOperand_call`**, **`readsOperand_method`** — the three kinds of
  operands, and how deep they nest.
-/

namespace Worksheet.Expression

/-! ## Literals -/

/-- A token that is an expression by itself. -/
inductive Denotes : Token → Expr → Prop where
  | int (n : Int64) : Denotes (.int n) (.int n)
  | real (x : Float) : Denotes (.real x) (.real x)
  | text (s : String) : Denotes (.text s) (.text s)

theorem IsNumber.denotes {t : Token} (ht : IsNumber t) : Denotes t (literal t) := by
  cases ht
  · exact .int _
  · exact .real _

section Literals

variable {t : Token} {e : Expr}

theorem expression_denotes (ht : Denotes t e) {rest : List Token} (hrest : EndsOperand rest) (fuel : Nat)
    (d : Depth) : expression (fuel + 4) d (t :: rest) = if d.Admits 1 then some (e, rest) else none := by
  show d.deeper?.bind _ = _
  rw [Depth.deeper?_eq]
  split
  · have hoperand : operand (fuel + 3) (d.down 1) (t :: rest) = some (e, rest) := by
      cases ht <;> cases hrest <;> rfl
    show (operand (fuel + 3) (d.down 1) (t :: rest)).bind _ = _
    rw [hoperand]
    exact operators_end hrest (fuel + 2) d e
  · rfl

theorem items_denotes_cons (ht : Denotes t e) (fuel : Nat) (d : Depth) (rest : List Token) :
    items (fuel + 1) d ")" (t :: rest) = item fuel d ")" (t :: rest) := by
  cases ht <;> rfl

/-- Literals are read as arguments; by induction on them, with two steps to spend for each. -/
theorem items_denotes {ts : List Token} {es : List Expr} (h : List.Forall₂ Denotes ts es) (hne : ts ≠ [])
    {fuel : Nat} (hfuel : 2 * ts.length + 4 ≤ fuel) (d : Depth) (rest : List Token) :
    items fuel d ")" (arguments ts ++ rest) = if d.Admits 1 then some (es, rest) else none := by
  induction h generalizing fuel with
  | nil => exact absurd rfl hne
  | @cons t e ts es ht hts ih =>
    obtain ⟨k, rfl⟩ : ∃ k, fuel = k + 6 := ⟨fuel - 6, by simp at hfuel; omega⟩
    cases hts with
    | nil =>
      have hexpr := expression_denotes ht (.close rest) k d
      show items (k + 5 + 1) d ")" (t :: .symbol ")" :: rest) = _
      rw [items_denotes_cons ht]
      show (expression (k + 4) d (t :: .symbol ")" :: rest)).bind _ = _
      rw [hexpr]
      split <;> rfl
    | @cons u v ts es hu hts =>
      have hexpr := expression_denotes ht (.comma (arguments (u :: ts) ++ rest)) k d
      have hfuel' : 2 * (u :: ts).length + 4 ≤ k + 4 := by
        simp at hfuel ⊢
        omega
      have hmore := ih (List.cons_ne_nil u ts) hfuel'
      show items (k + 5 + 1) d ")" (t :: .symbol "," :: (arguments (u :: ts) ++ rest)) = _
      rw [items_denotes_cons ht]
      show (expression (k + 4) d (t :: .symbol "," :: (arguments (u :: ts) ++ rest))).bind _ = _
      rw [hexpr]
      split
      · next hdeeper =>
        rw [if_pos hdeeper] at hmore
        show (items (k + 4) d ")" (arguments (u :: ts) ++ rest)).bind _ = _
        rw [hmore]
        rfl
      · rfl

end Literals

/-! ## Operands -/

section Operands

variable {w : String}

theorem term_variable_follows (hw : isVariableName w = true) (fuel : Nat) (d : Depth) {rest : List Token}
    (hrest : Follows .operand rest) : term (fuel + 1) d (.word w :: rest) = some (.variable w, rest) := by
  -- the name is none of the words that are looked for in front of names
  obtain ⟨htrue, hfalse, hif⟩ := isFunctionName_ne (isFunctionName_of_isVariableName hw)
  cases rest with
  | nil =>
    rw [term.eq_def]
    simp [hw]
  | cons t rest =>
    obtain ⟨s, hs, rfl⟩ := hrest t rfl
    simp only [Stratum.followers, List.mem_cons, List.not_mem_nil, or_false] at hs
    rcases hs with rfl | rfl | rfl | rfl | rfl | rfl <;>
    · rw [term.eq_def]
      simp [hw]

theorem readsOperand_variable (hw : isVariableName w = true) : ReadsOperand [.word w] (.variable w) 0 := by
  intro fuel d rest hfuel hd hrest
  obtain ⟨k, rfl⟩ : ∃ k, fuel = k + 2 := ⟨fuel - 2, by simp at hfuel; omega⟩
  have hif := (isFunctionName_ne (isFunctionName_of_isVariableName hw)).2.2
  refine operand_of_term (.word hif rest) ?_ hrest
  rw [if_pos hd]
  exact term_variable_follows hw k d hrest

theorem term_call_eq (hw : isFunctionName w = true) (fuel : Nat) (d : Depth) (rest : List Token) :
    term (fuel + 1) d (.word w :: .symbol "(" :: rest)
      = (d.deeper?.bind fun d' => items fuel d' ")" rest).map fun p => (.call w p.1, p.2) := by
  cases hd : d.deeper? with
  | some d' => exact term_call hw fuel hd rest
  | none =>
    obtain ⟨htrue, hfalse, hif⟩ := isFunctionName_ne hw
    rw [term.eq_def]
    simp only [hw, hd, if_true]
    rfl

section Arguments

variable {ts : List Token} {es : List Expr} (h : List.Forall₂ Denotes ts es) (hne : ts ≠ [])

include h hne

/-- The arguments of a call are two levels deeper than the call. -/
theorem items_deeper {fuel : Nat} (hfuel : 2 * ts.length + 4 ≤ fuel) (d : Depth) (rest : List Token) :
    (d.deeper?.bind fun d' => items fuel d' ")" (arguments ts ++ rest))
      = if d.Admits 2 then some (es, rest) else none := by
  rw [Depth.deeper?_eq]
  by_cases hdeeper : d.Admits 1
  · rw [if_pos hdeeper, Option.bind_some, items_denotes h hne hfuel]
    simp only [Depth.admits_down]
  · rw [if_neg hdeeper, if_neg fun hboth => hdeeper (hboth.of_le (by decide))]
    rfl

theorem readsOperand_call (hw : isFunctionName w = true) :
    ReadsOperand (.word w :: .symbol "(" :: arguments ts) (.call w es) 2 := by
  intro fuel d rest hfuel hd hrest
  have hlength := length_arguments ts
  simp only [List.length_cons] at hfuel
  obtain ⟨k, rfl⟩ : ∃ k, fuel = k + 2 := ⟨fuel - 2, by omega⟩
  have hfuel' : 2 * ts.length + 4 ≤ k := by omega
  have hitems := items_deeper h hne hfuel' d rest
  refine operand_of_term (.word (isFunctionName_ne hw).2.2 _) ?_ hrest
  show term (k + 1) d (.word w :: .symbol "(" :: (arguments ts ++ rest)) = _
  rw [term_call_eq hw, hitems]
  split <;> rfl

theorem readsOperand_method (hw : isVariableName w = true) :
    ReadsOperand (.word w :: .symbol "." :: .word "call" :: .symbol "(" :: arguments ts)
      (.select (.variable w) [.method "call" es]) 2 := by
  intro fuel d rest hfuel hd hrest
  have hlength := length_arguments ts
  simp only [List.length_cons] at hfuel
  obtain ⟨k, rfl⟩ : ∃ k, fuel = k + 3 := ⟨fuel - 3, by omega⟩
  have hfuel' : 2 * ts.length + 4 ≤ k + 1 := by omega
  have hitems := items_deeper h hne hfuel' d rest
  have hselectors : selectors (k + 2) d (.symbol "." :: .word "call" :: .symbol "(" :: (arguments ts ++ rest))
      = if d.Admits 2 then some ([.method "call" es], rest) else none := by
    show (d.deeper?.bind fun d' => (items (k + 1) d' ")" (arguments ts ++ rest)).bind fun p =>
      (selectors (k + 1) d p.2).bind fun q => some (.method "call" p.1 :: q.1, q.2)) = _
    rw [← Option.bind_assoc, hitems]
    split
    · show (selectors (k + 1) d rest).bind _ = _
      rw [selectors_follows hrest]
      rfl
    · rfl
  have hif := (isFunctionName_ne (isFunctionName_of_isVariableName hw)).2.2
  have hterm := term_variable hw (k + 1) d (.inr rfl) (.word "call" :: .symbol "(" :: (arguments ts ++ rest))
  show operand (k + 2 + 1) d (.word w :: .symbol "." :: .word "call" :: .symbol "(" :: (arguments ts ++ rest)) = _
  rw [operand_eq_term (.word hif _), hterm]
  show (selectors (k + 2) d _).bind _ = _
  rw [hselectors]
  split <;> rfl

end Arguments

end Operands

end Worksheet.Expression
