import Worksheet.Proofs.Declaration.Reading
import Worksheet.Proofs.Expression.Lambda
import Worksheet.Proofs.Notation.Formula

/-!
# Functions as they are written

In the text of a function the notation finds nothing but names, as in a formula, and no units at all. What it
makes of a parameter is the parameter itself, unless it is a word of the clock.

* **`Lambda.text`** — how a function is written.
* **`rewritable_lambda`** — its text is rewritten name by name; `expand_lambda`.
* **`IsParameter`** — names that are left to stand for themselves.
* **`parse?_lambda`** — the function that the text is in a worksheet.
* **`expr_lambda_rename`** — with other names for the parameters it is the renamed function.
-/

namespace Worksheet

open Text Expression Notation

namespace Expression.Lambda

/-- A function with its names written in some way. -/
def textWith (write : Name → List Char) (f : Lambda) : List Char :=
  '|' :: (joinWith [',', ' '] (f.params.map write) ++ '|' :: ' ' :: f.body.textWith write)

/-- A function as it is written. -/
def text (f : Lambda) : List Char := f.textWith Name.chars

end Expression.Lambda

namespace Notation

/-! ## The rules -/

section Rewrites

variable {g : List Char → List Char} {write write' : Name → List Char}

theorem Rewrites.params (hg : Rewrites g write write') (ps : List Name) {rest : List Char} (hrest : Border rest) :
    g (joinWith [',', ' '] (ps.map write) ++ rest) = joinWith [',', ' '] (ps.map write') ++ g rest := by
  induction ps with
  | nil => rfl
  | cons p ps ih =>
    cases ps with
    | nil => exact hg.name p hrest
    | cons q ps =>
      have hcomma : ∀ r, Border ([',', ' '] ++ r) := fun r => border_cons (by decide) _
      have hmarks : ∀ c ∈ [',', ' '], isBlank c = true ∨ c ∈ leadingSigns := by decide
      show g (write p ++ [',', ' '] ++ joinWith [',', ' '] ((q :: ps).map write) ++ rest) = _
      rw [List.append_assoc, List.append_assoc, hg.name p (hcomma _), hg.marks hmarks, ih]
      show _ = write' p ++ [',', ' '] ++ joinWith [',', ' '] ((q :: ps).map write') ++ g rest
      rw [List.append_assoc, List.append_assoc]

/-- **Each name of a function is rewritten by itself.** -/
theorem Rewrites.lambda (hg : Rewrites g write write') (f : Lambda) : g (f.textWith write) = f.textWith write' := by
  have hbar : ∀ r, Border ('|' :: r) := border_cons (by decide)
  unfold Lambda.textWith
  rw [hg.mark (.inr (by decide)), hg.params f.params (hbar _), hg.mark (.inr (by decide)), hg.mark (.inl (by decide)),
    hg.whole]

end Rewrites

/-- A character that a function has in no blank, sign or number, and in none of its names. -/
theorem not_mem_lambda {write : Name → List Char} {m : Char}
    (hm : isBlank m = false ∧ m ∉ ')' :: leadingSigns ∧ isDigit m = false ∧ m ∉ ".e+-".toList)
    (hwrite : ∀ w, m ∉ write w) (f : Lambda) : m ∉ f.textWith write := by
  obtain ⟨hblank, hsign, hdigit, hnumber⟩ := hm
  have hopening : m ∉ ')' :: openingSigns := fun hmem =>
    hsign (List.mem_cons.mpr ((List.mem_cons.mp hmem).imp_right fun h => by simp [leadingSigns, h]))
  have hbody := not_mem_textWith ⟨hblank, hopening, hdigit, hnumber⟩ hwrite f.body
  have hother : ∀ c ∈ [',', ' ', '|'], m ≠ c := by
    have hmarks : ∀ c ∈ [',', ' ', '|'], isBlank c = true ∨ c ∈ ')' :: leadingSigns := by decide
    rintro c hc rfl
    rcases hmarks m hc with h | h
    · rw [h] at hblank
      cases hblank
    · exact hsign h
  intro hmem
  unfold Lambda.textWith at hmem
  rcases List.mem_cons.mp hmem with rfl | hmem
  · exact hother _ (by decide) rfl
  rcases List.mem_append.mp hmem with hmem | hmem
  · rcases Declaration.mem_joinWith hmem with hmem | ⟨part, hpart, hmem⟩
    · exact hother m (List.mem_append_left ['|'] hmem) rfl
    · obtain ⟨w, -, rfl⟩ := List.mem_map.mp hpart
      exact hwrite w hmem
  rcases List.mem_cons.mp hmem with rfl | hmem
  · exact hother _ (by decide) rfl
  rcases List.mem_cons.mp hmem with rfl | hmem
  · exact hother _ (by decide) rfl
  · exact hbody hmem

theorem rewritable_lambda (f : Lambda) : Rewritable fun write => f.textWith write where
  rewrite hg := hg.lambda f
  not_mem hm hwrite := by
    have hall : ∀ m ∈ ['"', '@'], isBlank m = false ∧ m ∉ ')' :: leadingSigns ∧ isDigit m = false ∧
        m ∉ ".e+-".toList := by decide
    exact not_mem_lambda (hall _ hm) hwrite f

/-- In a function no units are looked for. -/
theorem expand_of_functionMark (o : Options) {s : List Char} (htrim : trim s = s) (hmark : s.head? = some functionMark) :
    expand o s = expandStages ⟨o.now, false⟩ s := by
  have hunits : ∀ t, unitsWithin true o t = t := fun t => if_pos (Bool.or_true _)
  have hflag : (s.head? == some functionMark) = true := beq_iff_eq.mpr hmark
  rw [expand_eq_expandWithin, htrim, hflag]
  show stackStage (unitsWithin true o _) = _
  rw [hunits]
  rfl

/-- The rules for operators, ratios and decimals find nothing in a function. -/
theorem expand_lambda (o : Options) (f : Lambda) (htrim : trim f.text = f.text) :
    expand o f.text = f.textWith (writtenAs (nameCall? ⟨o.now, false⟩)) := by
  have hnone : ∀ c ∈ operatorMarks ++ [':'], c ∉ f.text := by
    intro c hc
    have hall : ∀ m ∈ operatorMarks ++ [':'], (isBlank m = false ∧ m ∉ ')' :: leadingSigns ∧ isDigit m = false ∧
        m ∉ ".e+-".toList) ∧ isNameChar m = false := by decide
    exact not_mem_lambda (hall c hc).1 (fun w => not_mem_name w (hall c hc).2) f
  have hoperator : ∀ c ∈ f.text, isOperatorMark c = false := by
    intro c hc
    rw [Bool.eq_false_iff]
    exact fun hmark => hnone c (List.mem_append_left _ (List.contains_iff_mem.mp hmark)) hc
  have hcolon : ':' ∉ f.text := hnone ':' (by decide)
  rw [expand_of_functionMark o htrim rfl, expandStages, operatorStage_eq_self hoperator, substituteAll_ratio hcolon,
    decimals_eq_self hcolon]
  exact (rewritable_lambda f).lateStages _

/-! ## Parameters -/

/-- A name that stands for itself in a function: it is no word of the clock and calls no function. -/
structure IsParameter (isFunction : String → Bool) (p : Name) : Prop where
  clock : p.chars.map fold ∉ clockWords
  call : isFunction p.word = false

theorem IsParameter.nameCall? {isFunction : String → Bool} {p : Name} (h : IsParameter isFunction p) (now : DateTime) :
    nameCall? ⟨now, false⟩ p = none := by
  have htoday : p.chars.map fold ≠ "today".toList := fun heq => h.clock (by rw [heq]; decide)
  have hnow : p.chars.map fold ≠ "now".toList := fun heq => h.clock (by rw [heq]; decide)
  rw [nameCall?_eq_clockCall? rfl, clockCall?, if_neg htoday, if_neg hnow]

/-! ## Tokens -/

section Tokens

variable {mode : Mode}

theorem tokensFrom?_bar {d : Char} (hd : d ∉ secondSigns) (rest : List Char) :
    tokensFrom? mode 0 ('|' :: d :: rest)
      = (tokensFrom? { mode with afterOperand := false } 0 (d :: rest)).map fun ts => .symbol "|" :: ts := by
  have hread : readToken? mode ('|' :: ([] ++ d :: rest))
      = some (some (.symbol "|"), { mode with afterOperand := false }, d :: rest) := by
    show (readSymbol? ('|' :: d :: rest)).bind _ = _
    rw [readSymbol?_one (by decide) hd]
    rfl
  exact tokensFrom?_of_read hread

/-- Parameters, up to the bar behind them. -/
theorem tokensFrom?_params {ps : List Name} (hne : ps ≠ []) (rest : List Char) :
    tokensFrom? mode 0 (joinWith [',', ' '] (ps.map Name.chars) ++ '|' :: ' ' :: rest)
      = (tokensFrom? { mode with afterOperand := false } 0 rest).map fun ts => paramTokens ps ++ ts := by
  have hbar : ∀ r, EndsName ('|' :: r) := by
    rintro r c ⟨⟩
    decide
  have hcomma : ∀ r, EndsName ([',', ' '] ++ r) := by
    rintro r c ⟨⟩
    decide
  induction ps generalizing mode with
  | nil => exact absurd rfl hne
  | cons p ps ih =>
    have hword := p.isVariable.toIsWord
    cases ps with
    | nil =>
      show tokensFrom? mode 0 (p.word.toList ++ '|' :: ' ' :: rest) = _
      rw [tokensFrom?_word hword (hbar _), tokensFrom?_bar (by decide), tokensFrom?_space, Option.map_map]
      rfl
    | cons q ps =>
      have hmore := @ih { mode with afterOperand := false } (List.cons_ne_nil q ps)
      show tokensFrom? mode 0 (p.word.toList ++ [',', ' '] ++ joinWith [',', ' '] ((q :: ps).map Name.chars) ++ _) = _
      rw [List.append_assoc, List.append_assoc, tokensFrom?_word hword (hcomma _)]
      show Option.map _ (tokensFrom? _ 0 (',' :: ' ' :: (joinWith [',', ' '] ((q :: ps).map Name.chars) ++ _))) = _
      rw [tokensFrom?_comma, tokensFrom?_space, hmore, Option.map_map, Option.map_map]
      rfl

end Tokens

/-! ## Expressions -/

section Expressions

variable {isFunction : String → Bool} {call? : Name → Option NameCall}

/-- **The function that a text is** where some names are functions, unless a parameter is there twice or the
body nests too deep. -/
theorem parse?_lambda {f : Lambda} (hne : f.params ≠ []) (hparams : ∀ p ∈ f.params, call? p = none) :
    Expr.parse? (bindCalls isFunction (f.textWith (writtenAs call?)))
      = if f.Admits (naming isFunction call?) then some (f.expr (naming isFunction call?)) else none := by
  have hwritten : f.params.map (boundAs isFunction call?) = f.params.map Name.chars :=
    List.map_congr_left fun p hp => by rw [boundAs, hparams p hp]
  have hbody : tokensFrom? ⟨false, []⟩ 0 (f.body.textWith (boundAs isFunction call?))
      = some (f.body.tokens (naming isFunction call?)) := by
    have hformula := (written_naming isFunction call?).tokensFrom?_formula f.body ⟨false, []⟩ border_nil
    rw [List.append_nil] at hformula
    exact hformula.trans (congrArg some (List.append_nil _))
  -- the name behind the first bar begins no longer sign
  obtain ⟨c, r, hcons, hc⟩ : ∃ c r, joinWith [',', ' '] (f.params.map Name.chars) ++
      '|' :: ' ' :: f.body.textWith (boundAs isFunction call?) = c :: r ∧ c ∉ secondSigns := by
    obtain ⟨p, ps, hps⟩ := List.exists_cons_of_ne_nil hne
    obtain ⟨c, r, hcons, hc⟩ := p.isVariable.start
    have hopens : c ∉ secondSigns := Opens.not_mem (.inr (.inl (isNameChar_of_isNameStart hc)))
    have hchars : p.chars = c :: r := hcons
    rw [hps]
    cases ps with
    | nil => exact ⟨c, _, by rw [List.map_cons, hchars]; rfl, hopens⟩
    | cons q ps => exact ⟨c, _, by rw [List.map_cons, hchars]; rfl, hopens⟩
  have htokens : tokens? (f.textWith (boundAs isFunction call?)) = some (f.tokens (naming isFunction call?)) := by
    unfold Lambda.textWith tokens?
    rw [hwritten, hcons, tokensFrom?_bar hc, ← hcons, tokensFrom?_params hne]
    show Option.map _ (Option.map _ (tokensFrom? ⟨false, []⟩ 0 _)) = _
    rw [hbody]
    rfl
  rw [(rewrites_bindCalls isFunction call?).lambda, Expr.parse?, htokens, Option.bind_some, f.parse]

end Expressions

/-! ## Other names for the parameters -/

section Literals

variable {ts : List Token} {es : List Expr} (h : List.Forall₂ Denotes ts es)

include h

theorem renameAll_denotes (ρ : String → String) : Expr.renameAll ρ es = es := by
  induction h with
  | nil => rfl
  | cons hd _ ih => rw [Expr.renameAll, hd.rename, ih]

theorem closuresAll_denotes : Expr.closuresAll es = [] := by
  induction h with
  | nil => rfl
  | cons hd _ ih => rw [Expr.closuresAll, hd.closures, ih, List.append_nil]

theorem freeNamesAll_denotes : Expr.freeNamesAll es = [] := by
  induction h with
  | nil => rfl
  | cons hd _ ih => rw [Expr.freeNamesAll, hd.freeNames, ih, Expr.addNames, List.foldl_nil]

end Literals

section Naming

variable (isFunction : String → Bool) (call? : Name → Option NameCall) (w : Name)

theorem closures_naming : ((naming isFunction call?).expr w).closures = [] := by
  unfold naming
  dsimp only
  split
  · rfl
  · next c _ =>
    have hnone := closuresAll_denotes c.denotes
    split
    · show [] ++ (Expr.closuresAll c.exprs ++ []) = []
      rw [hnone]
      rfl
    · exact hnone

/-- What a name stands for mentions the name itself or functions. -/
theorem mem_freeNames_naming {n : String} (hn : n ∈ ((naming isFunction call?).expr w).freeNames) :
    n = w.word ∨ isFunction n = true := by
  unfold naming at hn
  dsimp only at hn
  split at hn
  · exact .inl (List.mem_singleton.mp hn)
  · next c _ =>
    have hnone := freeNamesAll_denotes c.denotes
    split at hn
    · next hfunction =>
      rcases Expr.mem_addNames.mp hn with hn | hn
      · rw [List.mem_singleton.mp hn]
        exact .inr hfunction
      · rcases Expr.mem_addNames.mp hn with hn | hn
        · rw [Expr.selectorNames, hnone] at hn
          cases hn
        · cases hn
    · rw [Expr.freeNames, hnone] at hn
      cases hn

/-- Functions keep their names, and what stands for nothing but itself is called by its other name. -/
theorem rename_naming {ρ : String → String} (hρ : ∀ n, isFunction n = true → ρ n = n) {v : Name}
    (hv : v = w ∨ (call? v = none ∧ call? w = none)) (hword : ρ w.word = v.word) :
    (naming isFunction call?).expr v = ((naming isFunction call?).expr w).rename ρ := by
  unfold naming
  dsimp only
  cases hcall : call? w with
  | none =>
    have hnone : call? v = none := by
      rcases hv with rfl | hv
      · exact hcall
      · exact hv.1
    rw [hnone]
    exact congrArg Expr.variable hword.symm
  | some c =>
    obtain rfl : v = w := by
      refine hv.resolve_right fun hnone => ?_
      rw [hcall] at hnone
      cases hnone.2
    have hargs := renameAll_denotes c.denotes ρ
    rw [hcall]
    dsimp only
    split
    · next hfunction =>
      rw [Expr.rename, Expr.rename, Expr.renameSelectors, Expr.renameSelector, hargs, hρ _ hfunction]
      rfl
    · rw [Expr.rename, hargs]

end Naming

section Lambda

variable {isFunction : String → Bool} (now : DateTime) {f : Lambda} {r : Name → Name} (h : f.Renames r)
  (hparams : ∀ p ∈ f.params, IsParameter isFunction p ∧ IsParameter isFunction (r p))

include hparams

/-- No parameter has the name of a function. -/
theorem renamed_function {n : String} (hn : isFunction n = true) : f.renamed r n = n := by
  refine Lambda.renamed_of_forall_ne fun p hp hword => ?_
  have hother := (hparams p hp).1.call
  rw [hword, hn] at hother
  cases hother

theorem nameCall?_renamed {w : Name} (hw : w ∈ f.params) :
    nameCall? ⟨now, false⟩ (r w) = none ∧ nameCall? ⟨now, false⟩ w = none :=
  ⟨(hparams w hw).2.nameCall? now, (hparams w hw).1.nameCall? now⟩

theorem expr_renamed (w : Name) :
    (naming isFunction (nameCall? ⟨now, false⟩)).expr (if w ∈ f.params then r w else w)
      = ((naming isFunction (nameCall? ⟨now, false⟩)).expr w).rename (f.renamed r) := by
  refine rename_naming _ _ w (fun n hn => renamed_function hparams hn) ?_ (Lambda.renamed_word w)
  split
  · next hw => exact .inr (nameCall?_renamed now hparams hw)
  · exact .inl rfl

theorem levels_renamed (w : Name) :
    (naming isFunction (nameCall? ⟨now, false⟩)).levels (if w ∈ f.params then r w else w)
      = (naming isFunction (nameCall? ⟨now, false⟩)).levels w := by
  split
  · next hw =>
    obtain ⟨hother, hself⟩ := nameCall?_renamed now hparams hw
    unfold naming
    dsimp only
    rw [hother, hself]
  · rfl

/-- **The function with other names for its parameters** as an expression. -/
theorem expr_lambda_rename : (f.rename r).expr (naming isFunction (nameCall? ⟨now, false⟩))
    = .closure ((f.params.map Name.word).map (f.renamed r))
      ((f.body.expr (naming isFunction (nameCall? ⟨now, false⟩))).rename (f.renamed r)) := by
  have hbody := f.body.expr_rename fun w _ => expr_renamed now hparams w
  rw [Lambda.expr, Lambda.word_params_rename]
  exact congrArg _ hbody

include h

/-- It is read as a function if the function itself is. -/
theorem admits_lambda_rename : (f.rename r).Admits (naming isFunction (nameCall? ⟨now, false⟩))
    ↔ f.Admits (naming isFunction (nameCall? ⟨now, false⟩)) := by
  have hlevels := f.body.levels_rename fun w _ => levels_renamed now hparams w
  refine and_congr h.nodup_iff ?_
  show Depth.Admits _ (Formula.levels _ (f.body.rename _)) ↔ _
  rw [hlevels]

/-- The other names are told apart from all that the body mentions. -/
theorem renamesParameters_lambda : Expr.RenamesParameters (f.renamed r) (f.params.map Name.word)
    (f.body.expr (naming isFunction (nameCall? ⟨now, false⟩))) := by
  -- what the body mentions are its names and functions
  have hmentioned : ∀ n, n ∈ f.params.map Name.word ∨
      n ∈ (f.body.expr (naming isFunction (nameCall? ⟨now, false⟩))).freeNames →
        (∃ w, (w ∈ f.params ∨ w ∈ f.body.mentioned) ∧ w.word = n) ∨ isFunction n = true := by
    rintro n (hn | hn)
    · obtain ⟨p, hp, rfl⟩ := List.mem_map.mp hn
      exact .inl ⟨p, .inl hp, rfl⟩
    · obtain ⟨w, hw, hmem⟩ := Formula.mem_freeNames_expr hn
      rcases mem_freeNames_naming _ _ w hmem with rfl | hfunction
      · exact .inl ⟨w, .inr hw, rfl⟩
      · exact .inr hfunction
  have hfunction : ∀ {m n}, (∃ w, (w ∈ f.params ∨ w ∈ f.body.mentioned) ∧ w.word = m) → isFunction n = true →
      f.renamed r m = n → m = n := by
    rintro _ n ⟨w, -, rfl⟩ hn heq
    rw [Lambda.renamed_word] at heq
    split at heq
    · next hw =>
      have hother := (hparams w hw).2.call
      rw [heq, hn] at hother
      cases hother
    · exact heq
  constructor
  · intro m hm n hn heq
    rcases hmentioned m hm with hm | hm
    · rcases hmentioned n hn with hn | hn
      · exact h.injOn hm hn heq
      · rw [renamed_function hparams hn] at heq
        exact hfunction hm hn heq
    · rw [renamed_function hparams hm] at heq
      rcases hmentioned n hn with hn | hn
      · exact (hfunction hn hm heq.symm).symm
      · rwa [renamed_function hparams hn] at heq
  · intro n _ hother
    exact Lambda.renamed_of_forall_ne fun p hp hword => hother (List.mem_map.mpr ⟨p, hp, hword⟩)

end Lambda

end Notation

end Worksheet
