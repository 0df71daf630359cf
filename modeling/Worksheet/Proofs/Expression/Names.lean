import Worksheet.Expression.Eval
import Worksheet.Proofs.Expression.Parse

/-!
# A function applied to a name

The two ways in which a function is applied to one variable: `f(x)` calls a function of the library,
and `f.call(x)` the function that the variable `f` holds.

* **`parse?_directCall`**, **`parse?_methodCall`** — what the texts are read as, whatever the names are.
* **`value_call`**, **`value_method`** — the values, in terms of what the scope says of the names.
-/

namespace Worksheet.Expression

open Text

/-! ## The texts -/

/-- A name applied to a name. -/
def directCall (f x : String) : List Char := f.toList ++ '(' :: (x.toList ++ [')'])

/-- A function that a variable holds, applied to a name. -/
def methodCall (f x : String) : List Char := f.toList ++ ".call(".toList ++ (x.toList ++ [')'])

/-- A word that is read as a variable. -/
structure IsVariable (w : String) : Prop extends IsWord w.toList where
  unreserved : isVariableName w = true

theorem isOperandWord_of_isVariableName {w : String} (h : isVariableName w = true) :
    isOperandWord w = false := by
  rw [Bool.eq_false_iff]
  intro hoperand
  rw [isOperandWord, Bool.or_eq_true, beq_iff_eq, beq_iff_eq] at hoperand
  rcases hoperand with rfl | rfl <;> exact absurd h (by decide)

/-- An identifier that is no word of the language is read as a variable. -/
theorem isVariable_of_identifier {w : String} (hw : isIdentifier w.toList = true)
    (hvariable : isVariableName w = true) : IsVariable w := by
  obtain ⟨c, r, hlist, hletter⟩ : ∃ c r, w.toList = c :: r ∧ isLetter c = true := by
    cases hlist : w.toList with
    | nil =>
      rw [hlist] at hw
      cases hw
    | cons c r =>
      rw [hlist] at hw
      exact ⟨c, r, rfl, (Bool.and_eq_true_iff.mp hw).1⟩
  have hne : (c == '_') = false := by
    refine beq_false_of_ne ?_
    rintro rfl
    exact absurd hletter (by decide)
  have hoperand : isOperandWord (String.ofList w.toList) = false := by
    rw [String.ofList_toList]
    exact isOperandWord_of_isVariableName hvariable
  refine { start := ⟨c, r, hlist, ?_⟩, chars := isNameChar_of_mem_identifier hw,
           proper := ?_, operand := hoperand, unreserved := hvariable }
  · rw [isNameStart, hletter, Bool.true_or]
  · rw [hlist, isProperName, List.dropWhile_cons_of_neg (by simp [hne])]
    exact hletter

/-! ## Tokens -/

section Tokens

variable {mode : Mode} {f x : String}

theorem tokensFrom?_word {w : String} {rest : List Char} (hw : IsWord w.toList)
    (hrest : EndsName rest) :
    tokensFrom? mode 0 (w.toList ++ rest)
      = (tokensFrom? { mode with afterOperand := true } 0 rest).map fun ts => .word w :: ts := by
  rw [tokensFrom?_name hw hrest, String.ofList_toList]

theorem tokensFrom?_argument (hx : IsWord x.toList) :
    tokensFrom? mode 0 (x.toList ++ [')']) = some [.word x, .symbol ")"] := by
  have hends : EndsName [')'] := by
    rintro c ⟨⟩
    decide
  rw [tokensFrom?_word hx hends, tokensFrom?_close]
  rfl

theorem tokens?_directCall (hf : IsWord f.toList) (hx : IsWord x.toList) :
    tokens? (directCall f x) = some [.word f, .symbol "(", .word x, .symbol ")"] := by
  have hends : EndsName ('(' :: (x.toList ++ [')'])) := by
    rintro c ⟨⟩
    decide
  rw [tokens?, directCall, tokensFrom?_word hf hends, tokensFrom?_open, tokensFrom?_argument hx]
  rfl

/-- A point in front of a letter. -/
theorem tokensFrom?_callMethod (rest : List Char) :
    tokensFrom? mode 0 (".call(".toList ++ rest)
      = (tokensFrom? { mode with afterOperand := false } 0 rest).map fun ts =>
        .symbol "." :: .word "call" :: .symbol "(" :: ts := by
  have hpoint : readToken? mode ('.' :: ([] ++ ("call".toList ++ '(' :: rest)))
      = some (some (.symbol "."), { mode with afterOperand := false }, "call".toList ++ '(' :: rest) := by
    rfl
  have hword : IsWord "call".toList :=
    ⟨⟨'c', "all".toList, rfl, by decide⟩, by decide, by decide, by decide⟩
  have hends : EndsName ('(' :: rest) := by
    rintro c ⟨⟩
    decide
  have htokens := tokensFrom?_of_read hpoint
  rw [List.nil_append, tokensFrom?_word hword hends, tokensFrom?_open, Option.map_map,
    Option.map_map] at htokens
  exact htokens

theorem tokens?_methodCall (hf : IsWord f.toList) (hx : IsWord x.toList) :
    tokens? (methodCall f x)
      = some [.word f, .symbol ".", .word "call", .symbol "(", .word x, .symbol ")"] := by
  have hends : EndsName (".call(".toList ++ (x.toList ++ [')'])) := by
    rintro c ⟨⟩
    decide
  rw [tokens?, methodCall, List.append_assoc, tokensFrom?_word hf hends, tokensFrom?_callMethod,
    tokensFrom?_argument hx]
  rfl

end Tokens

/-! ## Expressions -/

section Parse

variable {w : String}

theorem isFunctionName_of_isVariableName (hw : isVariableName w = true) :
    isFunctionName w = true := by
  rw [isFunctionName, hw, Bool.true_or]

/-- A name in front of a parenthesis that closes or of a point is a variable. -/
theorem term_variable (hw : isVariableName w = true) (fuel : Nat) (d : Depth) {m : String}
    (hm : m = ")" ∨ m = ".") (rest : List Token) :
    term (fuel + 1) d (.word w :: .symbol m :: rest) = some (.variable w, .symbol m :: rest) := by
  -- the name is none of the words that `term` looks for in front of names
  obtain ⟨htrue, hfalse, hif⟩ := isFunctionName_ne (isFunctionName_of_isVariableName hw)
  rcases hm with rfl | rfl <;> rw [term.eq_def] <;> simp [hw]

/-- A variable in parentheses, behind the opening one. -/
theorem items_variable (hw : isVariableName w = true) (fuel : Nat) {d d' : Depth}
    (hd : d.deeper? = some d') :
    items (fuel + 6) d ")" [.word w, .symbol ")"] = some ([.variable w], []) := by
  have hterm := term_variable hw (fuel + 1) d' (.inl rfl) []
  have hoperand : operand (fuel + 3) d' [.word w, .symbol ")"]
      = some (.variable w, [.symbol ")"]) := by
    show (term (fuel + 2) d' [.word w, .symbol ")"]).bind _ = _
    rw [hterm]
    rfl
  have hexpr : expression (fuel + 4) d [.word w, .symbol ")"]
      = some (.variable w, [.symbol ")"]) := by
    show d.deeper?.bind _ = _
    rw [hd]
    show (operand (fuel + 3) d' [.word w, .symbol ")"]).bind _ = _
    rw [hoperand]
    exact operators_end (.close []) (fuel + 2) d (.variable w)
  show (expression (fuel + 4) d [.word w, .symbol ")"]).bind _ = _
  rw [hexpr]
  rfl

theorem parse?_directCall {f x : String} (hf : IsVariable f) (hx : IsVariable x) :
    Expr.parse? (directCall f x) = some (.call f [.variable x]) := by
  have hfunction := isFunctionName_of_isVariableName hf.unreserved
  rw [Expr.parse?, tokens?_directCall hf.toIsWord hx.toIsWord]
  have hterm : term 36 ⟨1, 64⟩ [.word f, .symbol "(", .word x, .symbol ")"]
      = some (.call f [.variable x], []) := by
    rw [term_call hfunction 35 rfl, items_variable hx.unreserved 29 rfl]
    rfl
  have hoperand : operand 37 ⟨1, 64⟩ [.word f, .symbol "(", .word x, .symbol ")"]
      = some (.call f [.variable x], []) := by
    show (term 36 ⟨1, 64⟩ _).bind _ = _
    rw [hterm]
    rfl
  refine parseTokens?_of_expression (.word (isFunctionName_ne hfunction).2.2 _) rfl ?_
  show (operand 37 ⟨1, 64⟩ _).bind _ = _
  rw [hoperand]
  rfl

theorem parse?_methodCall {f x : String} (hf : IsVariable f) (hx : IsVariable x) :
    Expr.parse? (methodCall f x) = some (.select (.variable f) [.method "call" [.variable x]]) := by
  have hif := (isFunctionName_ne (isFunctionName_of_isVariableName hf.unreserved)).2.2
  rw [Expr.parse?, tokens?_methodCall hf.toIsWord hx.toIsWord]
  have hselectors : selectors 52 ⟨1, 64⟩
      [.symbol ".", .word "call", .symbol "(", .word x, .symbol ")"]
        = some ([.method "call" [.variable x]], []) := by
    show (items 51 ⟨2, 64⟩ ")" [.word x, .symbol ")"]).bind _ = _
    rw [items_variable hx.unreserved 45 rfl]
    rfl
  have hoperand : operand 53 ⟨1, 64⟩
      [.word f, .symbol ".", .word "call", .symbol "(", .word x, .symbol ")"]
        = some (.select (.variable f) [.method "call" [.variable x]], []) := by
    show (term 52 ⟨1, 64⟩ _).bind _ = _
    rw [term_variable hf.unreserved 51 _ (.inr rfl)]
    show (selectors 52 ⟨1, 64⟩ _).bind _ = _
    rw [hselectors]
    rfl
  refine parseTokens?_of_expression (.word hif _) rfl ?_
  show (operand 53 ⟨1, 64⟩ _).bind _ = _
  rw [hoperand]
  rfl

end Parse

/-! ## Values -/

section Values

variable {scope : Scope} {x : String} {d : Datum}

theorem value_call (f : String) (hx : scope.lookup x = .ok d) :
    (Expr.call f [.variable x]).value scope
      = invoke (Closure.apply Closure.callLimit) f [d] := by
  rw [Expr.value, Expr.eval, hx]
  rfl

theorem value_call_pair (f : String) {y : String} {e : Datum} (hx : scope.lookup x = .ok d)
    (hy : scope.lookup y = .ok e) :
    (Expr.call f [.variable x, .variable y]).value scope
      = invoke (Closure.apply Closure.callLimit) f [d, e] := by
  simp only [Expr.value, Expr.eval, Expr.evalAll, hx, hy]
  rfl

/-- The argument is looked up before the function. -/
theorem value_method {f : String} {g : Closure} (hf : scope.lookup f = .ok (.function g))
    (hx : scope.lookup x = .ok d) :
    (Expr.select (.variable f) [.method "call" [.variable x]]).value scope
      = Closure.apply Closure.callLimit g [d] := by
  have hselectors : Expr.evalSelectors (Closure.apply Closure.callLimit) scope
      [.method "call" [.variable x]] = .ok [.method "call" [d]] := by
    simp only [Expr.evalSelectors, Expr.evalSelector, Expr.evalAll, Expr.eval, hx]
    rfl
  rw [Expr.value, Expr.eval, hselectors]
  show (Expr.eval _ scope (.variable f) >>= _) = _
  rw [Expr.eval, hf]
  show (Closure.apply Closure.callLimit g [d] >>= fun d => .ok d) = _
  cases Closure.apply Closure.callLimit g [d] <;> rfl

end Values

end Worksheet.Expression
