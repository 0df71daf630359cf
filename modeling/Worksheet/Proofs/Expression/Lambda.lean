import Mathlib.Data.List.Nodup
import Worksheet.Proofs.Expression.Operands
import Worksheet.Proofs.Expression.Renaming

/-!
# Functions with formulas as bodies

A function is written with its parameters between bars, and a formula behind them.

* **`Formula.rename`** — a formula with other names in it, and the expression that it is.
* **`Lambda`** — the parameters and the body of a function.
* **`Lambda.parse`** — the function that the tokens are, unless a parameter is there twice or the body nests
  too deep.
* **`Lambda.rename`**, **`Lambda.Renames`** — a function with other names for its parameters.
* **`Lambda.Renames.injOn`** — the other names are told apart, from each other and from the rest of the body.
-/

namespace Worksheet.Expression

theorem Name.ext {v w : Name} (h : v.word = w.word) : v = w := by
  cases v
  cases h
  rfl

instance : DecidableEq Name := fun v w => decidable_of_iff (v.word = w.word) ⟨Name.ext, congrArg Name.word⟩

/-! ## Literals -/

section Literals

variable {t : Token} {e : Expr} (h : Denotes t e)

include h

theorem Denotes.rename (ρ : String → String) : e.rename ρ = e := by
  cases h <;> rfl

theorem Denotes.closures : e.closures = [] := by
  cases h <;> rfl

theorem Denotes.freeNames : e.freeNames = [] := by
  cases h <;> rfl

end Literals

/-! ## Formulas with other names -/

namespace Formula

/-- The names in a formula. -/
def mentioned {k : Stratum} : Formula k → List Name
  | number _ _ => []
  | name w _ => [w]
  | group _ inside _ => inside.mentioned
  | within _ part => part.mentioned
  | join _ left _ right => left.mentioned ++ right.mentioned

/-- The formula with other names in it. -/
def rename (r : Name → Name) {k : Stratum} : Formula k → Formula k
  | number n blanks => number n blanks
  | name w blanks => name (r w) blanks
  | group front inside blanks => group front (inside.rename r) blanks
  | within h part => within h (part.rename r)
  | join op left front right => join op (left.rename r) front (right.rename r)

variable {names : Naming} {r : Name → Name} {ρ : String → String}

theorem expr_rename {k : Stratum} (a : Formula k)
    (h : ∀ w ∈ a.mentioned, names.expr (r w) = (names.expr w).rename ρ) :
    (a.rename r).expr names = (a.expr names).rename ρ := by
  induction a with
  | number n blanks => exact (n.isNumber_token.denotes.rename ρ).symm
  | name w blanks => exact h w (List.mem_singleton_self w)
  | group front inside blanks ih => exact ih h
  | within _ part ih => exact ih h
  | join op left front right ihl ihr =>
    have hleft := ihl fun w hw => h w (List.mem_append_left _ hw)
    have hright := ihr fun w hw => h w (List.mem_append_right _ hw)
    show Expr.call op.symbol [(left.rename r).expr names, (right.rename r).expr names] = _
    rw [hleft, hright]
    rfl

theorem spine_rename {k : Stratum} (a : Formula k) : (a.rename r).spine = a.spine := by
  induction a with
  | number | name | group => rfl
  | within _ part ih => exact ih
  | join op left front right ihl ihr => exact congrArg (· + 1) ihl

theorem levels_rename {k : Stratum} (a : Formula k) (h : ∀ w ∈ a.mentioned, names.levels (r w) = names.levels w) :
    (a.rename r).levels names = a.levels names := by
  have hboth : (a.rename r).first names = a.first names ∧ (a.rename r).behind names = a.behind names := by
    induction a with
    | number n blanks => exact ⟨rfl, rfl⟩
    | name w blanks => exact ⟨h w (List.mem_singleton_self w), rfl⟩
    | group front inside blanks ih =>
      obtain ⟨hfirst, hbehind⟩ := ih h
      refine ⟨?_, rfl⟩
      show 1 + max (1 + (inside.rename r).first names) ((inside.rename r).behind names) = _
      rw [hfirst, hbehind]
      rfl
    | within _ part ih => exact ih h
    | join op left front right ihl ihr =>
      obtain ⟨hfirst, hbehind⟩ := ihl fun w hw => h w (List.mem_append_left _ hw)
      obtain ⟨hfirst', hbehind'⟩ := ihr fun w hw => h w (List.mem_append_right _ hw)
      refine ⟨hfirst, ?_⟩
      -- the spine is made of operators only, so the right operand stands as deep as before
      show max ((left.rename r).behind names) ((left.rename r).spine + 1 +
        max ((right.rename r).first names) ((right.rename r).behind names)) = _
      rw [hbehind, hfirst', hbehind', left.spine_rename]
      rfl
  rw [levels, hboth.1, hboth.2, levels]

/-- Formulas make no functions, if names stand for none. -/
theorem closures_expr {k : Stratum} (a : Formula k) (h : ∀ w, (names.expr w).closures = []) :
    (a.expr names).closures = [] := by
  induction a with
  | number n blanks => exact n.isNumber_token.denotes.closures
  | name w blanks => exact h w
  | group front inside blanks ih => exact ih
  | within _ part ih => exact ih
  | join op left front right ihl ihr =>
    show (left.expr names).closures ++ ((right.expr names).closures ++ []) = []
    rw [ihl, ihr]
    rfl

theorem mem_freeNames_expr {k : Stratum} {a : Formula k} {n : String} (hn : n ∈ (a.expr names).freeNames) :
    ∃ w ∈ a.mentioned, n ∈ (names.expr w).freeNames := by
  induction a with
  | number m blanks =>
    have hmem : n ∈ (literal m.token).freeNames := hn
    rw [m.isNumber_token.denotes.freeNames] at hmem
    cases hmem
  | name w blanks => exact ⟨w, List.mem_singleton_self w, hn⟩
  | group front inside blanks ih => exact ih hn
  | within _ part ih => exact ih hn
  | join op left front right ihl ihr =>
    rcases Expr.mem_addNames.mp hn with hn | hn
    · obtain ⟨w, hw, hmem⟩ := ihl hn
      exact ⟨w, List.mem_append_left _ hw, hmem⟩
    · rcases Expr.mem_addNames.mp hn with hn | hn
      · obtain ⟨w, hw, hmem⟩ := ihr hn
        exact ⟨w, List.mem_append_right _ hw, hmem⟩
      · cases hn

end Formula

/-! ## Functions as tokens and expressions -/

/-- A function as it is written. -/
structure Lambda where
  /-- Its parameters. -/
  params : List Name
  /-- What it is of them. -/
  body : Formula .sum

/-- Parameters with commas between them, and the closing bar. -/
def paramTokens : List Name → List Token
  | [] => [.symbol "|"]
  | [p] => [.word p.word, .symbol "|"]
  | p :: q :: ps => .word p.word :: .symbol "," :: paramTokens (q :: ps)

theorem parameters?_paramTokens (ps : List Name) (rest : List Token) :
    parameters? (paramTokens ps ++ rest)
      = if (ps.map Name.word).Nodup then some (ps.map Name.word, rest) else none := by
  induction ps with
  | nil => rfl
  | cons p ps ih =>
    have hp : isVariableName p.word = true := p.isVariable.unreserved
    cases ps with
    | nil =>
      rw [if_pos (by simp)]
      exact if_pos hp
    | cons q ps =>
      have hnodup : ((p :: q :: ps).map Name.word).Nodup ↔
          ¬((q :: ps).map Name.word).contains p.word = true ∧ ((q :: ps).map Name.word).Nodup := by
        rw [List.map_cons, List.nodup_cons, List.contains_iff_mem]
      -- behind a comma another name has to follow
      obtain ⟨ts, hts⟩ : ∃ ts, paramTokens (q :: ps) ++ rest = .word q.word :: ts := by
        cases ps <;> exact ⟨_, rfl⟩
      show parameters? (.word p.word :: .symbol "," :: (paramTokens (q :: ps) ++ rest)) = _
      rw [hts] at ih ⊢
      rw [parameters?, if_pos hp, ih]
      by_cases hrest : ((q :: ps).map Name.word).Nodup
      · rw [if_pos hrest, Option.bind_some]
        by_cases hmem : ((q :: ps).map Name.word).contains p.word = true
        · rw [if_neg fun h => (hnodup.mp h).1 hmem]
          exact if_pos hmem
        · rw [if_pos (hnodup.mpr ⟨hmem, hrest⟩)]
          exact if_neg hmem
      · rw [if_neg hrest, if_neg fun h => hrest (hnodup.mp h).2]
        rfl

namespace Lambda

section

variable (names : Naming)

/-- The tokens of a function. -/
def tokens (f : Lambda) : List Token := .symbol "|" :: (paramTokens f.params ++ f.body.tokens names)

/-- The function itself. -/
def expr (f : Lambda) : Expr := .closure (f.params.map Name.word) (f.body.expr names)

/-- Is it read as a function: is each parameter there once, and does the body nest no deeper than the bodies
of functions may? -/
def Admits (f : Lambda) : Prop := (f.params.map Name.word).Nodup ∧ (⟨2, 32⟩ : Depth).Admits (f.body.levels names)

instance (f : Lambda) : Decidable (f.Admits names) := inferInstanceAs (Decidable (_ ∧ _))

end

variable {names : Naming}

/-- The body of a function is two levels deep. -/
theorem step_body (f : Lambda) {fuel : Nat} (hfuel : 4 * (f.body.tokens names).length + 1 ≤ fuel) :
    step (fuel + 2) ⟨2, 32⟩ (f.body.tokens names)
      = if (⟨2, 32⟩ : Depth).Admits (f.body.levels names) then some ((f.body.expr names, false), []) else none := by
  have hstarts : StartsExpression (f.body.tokens names ++ []) := f.body.starts []
  have hclimbs : f.body.Climbs names := f.body.climbs
  have hexpr := hclimbs.expression (d := ⟨2, 32⟩) hfuel (by decide) .nothing
  rw [List.append_nil] at hstarts hexpr
  split
  · next hlevels => exact step_of_expression hstarts (by rw [hexpr, if_pos hlevels])
  · next hlevels => exact step_of_expression_none hstarts (by rw [hexpr, if_neg hlevels])

theorem term_tokens (f : Lambda) {fuel : Nat} (hfuel : 4 * (f.body.tokens names).length + 1 ≤ fuel) :
    term (fuel + 3) ⟨1, 64⟩ (f.tokens names) = if f.Admits names then some (f.expr names, []) else none := by
  show (parameters? (paramTokens f.params ++ f.body.tokens names)).bind (fun p =>
    (step (fuel + 2) ⟨2, 32⟩ p.2).bind fun q => some (Expr.closure p.1 q.1.1, q.2)) = _
  rw [parameters?_paramTokens]
  by_cases hnodup : (f.params.map Name.word).Nodup
  · rw [if_pos hnodup, Option.bind_some, f.step_body hfuel]
    by_cases hlevels : (⟨2, 32⟩ : Depth).Admits (f.body.levels names)
    · have hadmits : f.Admits names := ⟨hnodup, hlevels⟩
      rw [if_pos hlevels, if_pos hadmits]
      rfl
    · have hadmits : ¬f.Admits names := fun h => hlevels h.2
      rw [if_neg hlevels, if_neg hadmits]
      rfl
  · have hadmits : ¬f.Admits names := fun h => hnodup h.1
    rw [if_neg hnodup, if_neg hadmits]
    rfl

/-- Nothing stands behind a function: its body reaches to the end. -/
theorem expression_tokens (f : Lambda) {fuel : Nat} (hfuel : 4 * (f.body.tokens names).length + 1 ≤ fuel) :
    expression (fuel + 5) .start (f.tokens names) = if f.Admits names then some (f.expr names, []) else none := by
  show (((term (fuel + 3) ⟨1, 64⟩ (f.tokens names)).bind fun p => (selectors (fuel + 3) ⟨1, 64⟩ p.2).bind fun q =>
    some (if q.1.isEmpty then p.1 else .select p.1 q.1, q.2)).bind fun p => operators (fuel + 4) .start 0 p.1 p.2) = _
  rw [f.term_tokens hfuel]
  split <;> rfl

/-- **The function that tokens are.** -/
theorem parse (f : Lambda) :
    parseTokens? (f.tokens names) = if f.Admits names then some (f.expr names) else none := by
  obtain ⟨n, hn⟩ : ∃ n, fuelFor (f.tokens names) = n + 5 + 2 := ⟨8 * (f.tokens names).length + 1, rfl⟩
  have hfuel : 4 * (f.body.tokens names).length + 1 ≤ n := by
    unfold fuelFor tokens at hn
    simp only [List.length_cons, List.length_append] at hn
    omega
  have hexpr := f.expression_tokens hfuel
  -- the lemma for formulas does not apply, as none of them begins with a bar
  unfold parseTokens?
  rw [hn]
  by_cases hadmits : f.Admits names
  · have hstep : step (n + 5 + 1) .start (f.tokens names) = some ((f.expr names, false), []) := by
      show (expression (n + 5) .start (f.tokens names)).bind _ = _
      rw [hexpr, if_pos hadmits]
      rfl
    have hsteps : steps (n + 5 + 2) .start (f.tokens names) = some ([f.expr names], []) := by
      show (step (n + 5 + 1) .start (f.tokens names)).bind _ = _
      rw [hstep]
      rfl
    rw [hsteps, if_pos hadmits]
    rfl
  · have hsteps : steps (n + 5 + 2) .start (f.tokens names) = none := by
      show ((expression (n + 5) .start (f.tokens names)).bind _).bind _ = _
      rw [hexpr, if_neg hadmits]
      rfl
    rw [hsteps, if_neg hadmits]

/-! ## Other names for the parameters -/

/-- The function with other names for its parameters. -/
def rename (r : Name → Name) (f : Lambda) : Lambda :=
  ⟨f.params.map r, f.body.rename fun w => if w ∈ f.params then r w else w⟩

/-- Names for the parameters that are told apart from each other and from what else the body mentions. -/
structure Renames (r : Name → Name) (f : Lambda) : Prop where
  distinct : ∀ p ∈ f.params, ∀ q ∈ f.params, r p = r q → p = q
  fresh : ∀ p ∈ f.params, ∀ w ∈ f.body.mentioned, w ∉ f.params → r p ≠ w

/-- The other name for a word. -/
def renamed (r : Name → Name) (f : Lambda) (n : String) : String :=
  match f.params.find? fun p => p.word == n with
  | some p => (r p).word
  | none => n

variable {r : Name → Name} {f : Lambda}

theorem renamed_of_forall_ne {n : String} (hn : ∀ p ∈ f.params, p.word ≠ n) : f.renamed r n = n := by
  have hnone : (f.params.find? fun p => p.word == n) = none :=
    List.find?_eq_none.mpr fun p hp => by simpa using hn p hp
  rw [renamed, hnone]

theorem renamed_word (w : Name) : f.renamed r w.word = (if w ∈ f.params then r w else w).word := by
  split
  · next hw =>
    unfold renamed
    cases hfind : f.params.find? fun p => p.word == w.word with
    | none => exact absurd (beq_self_eq_true w.word) (List.find?_eq_none.mp hfind w hw)
    | some p =>
      have hword : p.word = w.word := by simpa using List.find?_some hfind
      rw [Name.ext hword]
  · next hw =>
    refine renamed_of_forall_ne fun p hp hword => hw ?_
    rwa [← Name.ext hword]

theorem word_params_rename : (f.rename r).params.map Name.word = (f.params.map Name.word).map (f.renamed r) := by
  rw [rename, List.map_map, List.map_map]
  refine List.map_congr_left fun p hp => ?_
  rw [Function.comp_apply, Function.comp_apply, renamed_word, if_pos hp]

/-- The other names are told apart as words. -/
theorem Renames.injOn (h : Renames r f) :
    Set.InjOn (f.renamed r) {n | ∃ w, (w ∈ f.params ∨ w ∈ f.body.mentioned) ∧ w.word = n} := by
  rintro _ ⟨v, hv, rfl⟩ _ ⟨w, hw, rfl⟩ heq
  rw [renamed_word, renamed_word] at heq
  have hsame := Name.ext heq
  congr 1
  by_cases hparam : v ∈ f.params
  · rw [if_pos hparam] at hsame
    by_cases hparam' : w ∈ f.params
    · rw [if_pos hparam'] at hsame
      exact h.distinct v hparam w hparam' hsame
    · rw [if_neg hparam'] at hsame
      exact absurd hsame (h.fresh v hparam w (hw.resolve_left hparam') hparam')
  · rw [if_neg hparam] at hsame
    by_cases hparam' : w ∈ f.params
    · rw [if_pos hparam'] at hsame
      exact absurd hsame.symm (h.fresh w hparam' v (hv.resolve_left hparam) hparam)
    · rwa [if_neg hparam'] at hsame

/-- A parameter is there twice, if its other name is. -/
theorem Renames.nodup_iff (h : Renames r f) :
    ((f.rename r).params.map Name.word).Nodup ↔ (f.params.map Name.word).Nodup := by
  rw [word_params_rename]
  refine ⟨List.Nodup.of_map _, fun hnodup => hnodup.map_on fun m hm n hn heq => h.injOn ?_ ?_ heq⟩
  · obtain ⟨p, hp, rfl⟩ := List.mem_map.mp hm
    exact ⟨p, .inl hp, rfl⟩
  · obtain ⟨p, hp, rfl⟩ := List.mem_map.mp hn
    exact ⟨p, .inl hp, rfl⟩

end Lambda

end Worksheet.Expression
