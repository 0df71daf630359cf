import Worksheet.Expression.Parse
import Worksheet.Proofs.Expression.Token

/-!
# Calls with numbers

What the tokens of a call make, whichever numbers its arguments are.

* **`item_numbers`** — numbers separated by commas are the arguments of a call; by induction on the
  numbers, with two steps to spend for each of them.
* **`parseTokens?_call`** — a name and numbers in parentheses behind it are a call.
* **`parseTokens?_noOperand`** — a number with a word behind it begins nothing in parentheses.
-/

namespace Worksheet.Expression

/-- The expression that the token of a number is. -/
def literal : Token → Expr
  | .int n => .int n
  | .real x => .real x
  | _ => .unit

/-- Numbers with commas between them, and the closing parenthesis. -/
def arguments : List Token → List Token
  | [] => [.symbol ")"]
  | [t] => [t, .symbol ")"]
  | t :: ts => t :: .symbol "," :: arguments ts

/-- Tokens that end an operand: no operator and no selector begins there. -/
inductive EndsOperand : List Token → Prop where
  | close (rest : List Token) : EndsOperand (.symbol ")" :: rest)
  | comma (rest : List Token) : EndsOperand (.symbol "," :: rest)
  | word {w : String} (hw : w ≠ "in") (rest : List Token) : EndsOperand (.word w :: rest)

theorem operators_end {rest : List Token} (hrest : EndsOperand rest) (fuel : Nat) (d : Depth)
    (left : Expr) : operators (fuel + 1) d 0 left rest = some (left, rest) := by
  cases hrest with
  | close rest => rfl
  | comma rest => rfl
  | word hw rest =>
    have hprecedence : precedence (.word _) = 0 := if_neg (by simpa using hw)
    rw [operators.eq_def]
    simp [hprecedence, bindsRight]

theorem expression_number {t : Token} (ht : IsNumber t) {rest : List Token} (hrest : EndsOperand rest)
    (fuel : Nat) {d d' : Depth} (hd : d.deeper? = some d') :
    expression (fuel + 4) d (t :: rest) = some (literal t, rest) := by
  have hoperand : operand (fuel + 3) d' (t :: rest) = some (literal t, rest) := by
    cases ht <;> cases hrest <;> rfl
  show d.deeper?.bind _ = _
  rw [hd]
  show (operand (fuel + 3) d' (t :: rest)).bind _ = _
  rw [hoperand]
  exact operators_end hrest (fuel + 2) d (literal t)

theorem items_eq_item {t : Token} (ht : IsNumber t) (fuel : Nat) (d : Depth) (rest : List Token) :
    items (fuel + 1) d ")" (t :: rest) = item fuel d ")" (t :: rest) := by
  cases ht <;> rfl

theorem item_numbers {ts : List Token} (hts : ∀ t ∈ ts, IsNumber t) (hne : ts ≠ []) {fuel : Nat}
    (hfuel : 2 * ts.length + 3 ≤ fuel) {d d' : Depth} (hd : d.deeper? = some d')
    (rest : List Token) :
    item fuel d ")" (arguments ts ++ rest) = some (ts.map literal, rest) := by
  induction ts generalizing fuel with
  | nil => exact absurd rfl hne
  | cons t ts ih =>
    have ht := hts t List.mem_cons_self
    obtain ⟨k, rfl⟩ : ∃ k, fuel = k + 5 := ⟨fuel - 5, by simp at hfuel; omega⟩
    cases ts with
    | nil =>
      have hexpr := expression_number ht (.close rest) k hd
      show (expression (k + 4) d (t :: .symbol ")" :: rest)).bind _ = _
      rw [hexpr]
      rfl
    | cons u ts =>
      have hexpr := expression_number ht (.comma (arguments (u :: ts) ++ rest)) k hd
      have hrest : ∀ v ∈ u :: ts, IsNumber v := fun v hv => hts v (List.mem_cons_of_mem t hv)
      have hitem : item (k + 3) d ")" (arguments (u :: ts) ++ rest)
          = some ((u :: ts).map literal, rest) := ih hrest (by simp) (by simp at hfuel ⊢; omega)
      have hitems : items (k + 4) d ")" (arguments (u :: ts) ++ rest)
          = item (k + 3) d ")" (arguments (u :: ts) ++ rest) := by
        cases ts <;> exact items_eq_item (hts u (by simp)) (k + 3) d _
      show (expression (k + 4) d (t :: .symbol "," :: (arguments (u :: ts) ++ rest))).bind _ = _
      rw [hexpr]
      show (items (k + 4) d ")" (arguments (u :: ts) ++ rest)).bind _ = _
      rw [hitems, hitem]
      rfl

theorem isFunctionName_ne {w : String} (hw : isFunctionName w = true) :
    w ≠ "true" ∧ w ≠ "false" ∧ w ≠ "if" := by
  refine ⟨?_, ?_, ?_⟩ <;> rintro rfl <;> exact absurd hw (by decide)

/-- A name in front of a parenthesis begins a call. -/
theorem term_call {w : String} (hw : isFunctionName w = true) (fuel : Nat) {d d' : Depth}
    (hd : d.deeper? = some d') (rest : List Token) :
    term (fuel + 1) d (.word w :: .symbol "(" :: rest)
      = (items fuel d' ")" rest).map fun p => (.call w p.1, p.2) := by
  obtain ⟨htrue, hfalse, hif⟩ := isFunctionName_ne hw
  rw [term.eq_def]
  simp only [hw, hd, if_true]
  show (items fuel d' ")" rest).bind (fun p => some (Expr.call w p.1, p.2)) = _
  cases items fuel d' ")" rest <;> rfl

/-! ## Whole texts -/

/-- Tokens that begin an expression and no other step: a number, a parenthesis or a name. -/
inductive StartsExpression : List Token → Prop where
  | int (n : Int64) (rest : List Token) : StartsExpression (.int n :: rest)
  | real (x : Float) (rest : List Token) : StartsExpression (.real x :: rest)
  | mark (rest : List Token) : StartsExpression (.symbol "(" :: rest)
  | word {w : String} (hw : w ≠ "if") (rest : List Token) : StartsExpression (.word w :: rest)

theorem fuelFor_cons (t : Token) (ts : List Token) :
    fuelFor (t :: ts) = 8 * ts.length + 14 + 2 := by
  unfold fuelFor
  rw [List.length_cons]
  omega

section Steps

variable {ts : List Token} (hts : StartsExpression ts) {fuel : Nat} {d : Depth}

include hts

theorem step_of_expression {e : Expr} (h : expression fuel d ts = some (e, [])) :
    step (fuel + 1) d ts = some ((e, false), []) := by
  cases hts <;> rw [step.eq_def] <;> simp [*]

theorem step_of_expression_none (h : expression fuel d ts = none) : step (fuel + 1) d ts = none := by
  cases hts <;> rw [step.eq_def] <;> simp [*]

/-- One expression is what the tokens make, if no token is left behind it. -/
theorem parseTokens?_of_expression (hfuel : fuelFor ts = fuel + 2) {e : Expr}
    (h : expression fuel .start ts = some (e, [])) : parseTokens? ts = some e := by
  have hstep := step_of_expression hts h
  have hsteps : steps (fuel + 2) .start ts = some ([e], []) := by
    cases hts <;> rw [steps.eq_def] <;> simp [*]
  unfold parseTokens?
  rw [hfuel, hsteps]
  rfl

theorem parseTokens?_of_expression_none (hfuel : fuelFor ts = fuel + 2)
    (h : expression fuel .start ts = none) : parseTokens? ts = none := by
  have hstep := step_of_expression_none hts h
  have hsteps : steps (fuel + 2) .start ts = none := by
    cases hts <;> rw [steps.eq_def] <;> simp [*]
  unfold parseTokens?
  rw [hfuel, hsteps]

end Steps

theorem length_arguments (ts : List Token) : ts.length ≤ (arguments ts).length := by
  induction ts with
  | nil => exact Nat.zero_le _
  | cons t ts ih =>
    cases ts with
    | nil => simp [arguments]
    | cons u ts =>
      show (u :: ts).length + 1 ≤ (arguments (u :: ts)).length + 1 + 1
      exact Nat.le_succ_of_le (Nat.succ_le_succ ih)

/-- **A call with numbers.** -/
theorem parseTokens?_call {w : String} (hw : isFunctionName w = true) {ts : List Token}
    (hts : ∀ t ∈ ts, IsNumber t) (hne : ts ≠ []) :
    parseTokens? (.word w :: .symbol "(" :: arguments ts) = some (.call w (ts.map literal)) := by
  obtain ⟨k, hk⟩ : ∃ k, fuelFor (.word w :: .symbol "(" :: arguments ts) = k + 5 + 2 :=
    ⟨_, fuelFor_cons _ _⟩
  have hitems : items (k + 2) ⟨2, 64⟩ ")" (arguments ts) = some (ts.map literal, []) := by
    have hlength := length_arguments ts
    have hitem : item (k + 1) ⟨2, 64⟩ ")" (arguments ts ++ []) = some (ts.map literal, []) :=
      item_numbers hts hne (by simp [fuelFor] at hk; omega) rfl []
    rw [List.append_nil] at hitem
    rw [← hitem]
    cases ts with
    | nil => exact absurd rfl hne
    | cons t ts => cases ts <;> exact items_eq_item (hts t List.mem_cons_self) (k + 1) _ _
  have hterm : term (k + 3) ⟨1, 64⟩ (.word w :: .symbol "(" :: arguments ts)
      = some (.call w (ts.map literal), []) := by
    rw [term_call hw (k + 2) rfl (arguments ts), hitems]
    rfl
  have hoperand : operand (k + 4) ⟨1, 64⟩ (.word w :: .symbol "(" :: arguments ts)
      = some (.call w (ts.map literal), []) := by
    show (term (k + 3) ⟨1, 64⟩ (.word w :: .symbol "(" :: arguments ts)).bind _ = _
    rw [hterm]
    rfl
  refine parseTokens?_of_expression (.word (isFunctionName_ne hw).2.2 _) hk ?_
  show (operand (k + 4) ⟨1, 64⟩ (.word w :: .symbol "(" :: arguments ts)).bind _ = _
  rw [hoperand]
  rfl

/-- A word that is no operator goes on with no number, not in parentheses either. -/
theorem parseTokens?_noOperand {t : Token} (ht : IsNumber t) {w : String} (hw : w ≠ "in")
    (rest : List Token) : parseTokens? (.symbol "(" :: t :: .word w :: rest) = none := by
  have hfuel := fuelFor_cons (.symbol "(") (t :: .word w :: rest)
  generalize 8 * (t :: Token.word w :: rest).length = k at hfuel
  have hinner : expression (k + 11) ⟨2, 64⟩ (t :: .word w :: rest)
      = some (literal t, .word w :: rest) := expression_number ht (.word hw rest) (k + 7) rfl
  have hterm : term (k + 12) ⟨1, 64⟩ (.symbol "(" :: t :: .word w :: rest) = none := by
    cases ht <;>
    · show (expression (k + 11) ⟨2, 64⟩ _).bind _ = none
      rw [hinner]
      rfl
  refine parseTokens?_of_expression_none (.mark _) hfuel ?_
  show (operand (k + 13) ⟨1, 64⟩ (.symbol "(" :: t :: .word w :: rest)).bind _ = _
  have hoperand : operand (k + 13) ⟨1, 64⟩ (.symbol "(" :: t :: .word w :: rest) = none := by
    show (term (k + 12) ⟨1, 64⟩ (.symbol "(" :: t :: .word w :: rest)).bind _ = none
    rw [hterm]
    rfl
  rw [hoperand]
  rfl

end Worksheet.Expression
