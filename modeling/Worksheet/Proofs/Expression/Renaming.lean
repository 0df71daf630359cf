import Mathlib.Data.List.Nodup
import Mathlib.Data.Set.Function
import Worksheet.Expression.Eval

/-!
# Other names for parameters

A name stands for what the scope says of it. If other names stand for the same, an expression with these
names in it has the same value, and so has a function whose parameters are called differently.

* **`Expr.rename`** — an expression with other names for its variables.
* **`Expr.eval_rename`** — its value, if the other names stand for the same; by induction on the expression.
* **`Expr.freeNames_rename`** — the variables that it mentions.
* **`captures_rename`**, **`Closure.alike_rename`** — a function with other names for its parameters keeps the
  same outer variables and gives the same results.
-/

namespace Worksheet

open Expression

namespace Expr

/-! ## Renaming -/

mutual
/-- The expression with other names for its variables. -/
def rename (ρ : String → String) : Expr → Expr
  | .unit => .unit
  | .bool b => .bool b
  | .int n => .int n
  | .real x => .real x
  | .char c => .char c
  | .text s => .text s
  | .template parts => .template (renameAll ρ parts)
  | .variable name => .variable (ρ name)
  | .array items => .array (renameAll ρ items)
  | .call name args => .call name (renameAll ρ args)
  | .select base selectors => .select (rename ρ base) (renameSelectors ρ selectors)
  | .and left right => .and (rename ρ left) (rename ρ right)
  | .or left right => .or (rename ρ left) (rename ρ right)
  | .coalesce left right => .coalesce (rename ρ left) (rename ρ right)
  | .conditional condition yes no => .conditional (rename ρ condition) (rename ρ yes) (rename ρ no)
  | .block steps => .block (renameAll ρ steps)
  | .assign name value => .assign (ρ name) (rename ρ value)
  | .closure params body => .closure (params.map ρ) (rename ρ body)

/-- Expressions with other names for their variables. -/
def renameAll (ρ : String → String) : List Expr → List Expr
  | [] => []
  | e :: rest => rename ρ e :: renameAll ρ rest

/-- A selector with other names for the variables in its arguments. -/
def renameSelector (ρ : String → String) : Selector → Selector
  | .property name => .property name
  | .method name args => .method name (renameAll ρ args)
  | .index position => .index (rename ρ position)

/-- Selectors with other names for the variables in their arguments. -/
def renameSelectors (ρ : String → String) : List Selector → List Selector
  | [] => []
  | s :: rest => renameSelector ρ s :: renameSelectors ρ rest
end

/-! ## Names that are mentioned -/

theorem mem_addNames {seen new : List String} {n : String} : n ∈ addNames seen new ↔ n ∈ seen ∨ n ∈ new := by
  unfold addNames
  induction new generalizing seen with
  | nil => simp
  | cons m new ih =>
    rw [List.foldl_cons, ih]
    by_cases hm : seen.contains m
    · have hmem : m ∈ seen := List.contains_iff_mem.mp hm
      rw [if_pos hm, List.mem_cons]
      constructor
      · tauto
      · rintro (h | rfl | h)
        · exact .inl h
        · exact .inl hmem
        · exact .inr h
    · rw [if_neg hm, List.mem_append, List.mem_singleton, List.mem_cons]
      tauto

theorem forall_mem_addNames {seen new : List String} {A : Set String} :
    (∀ n ∈ addNames seen new, n ∈ A) ↔ (∀ n ∈ seen, n ∈ A) ∧ ∀ n ∈ new, n ∈ A := by
  simp only [mem_addNames, or_imp, forall_and]

section Names

variable {ρ : String → String} {A : Set String} (hρ : Set.InjOn ρ A)

include hρ

theorem contains_map {ns : List String} {n : String} (hns : ∀ m ∈ ns, m ∈ A) (hn : n ∈ A) :
    (ns.map ρ).contains (ρ n) = ns.contains n := by
  rw [Bool.eq_iff_iff, List.contains_iff_mem, List.contains_iff_mem, List.mem_map]
  constructor
  · rintro ⟨m, hm, heq⟩
    rwa [← hρ (hns m hm) hn heq]
  · exact fun h => ⟨n, h, rfl⟩

/-- Names that a renaming tells apart are added alike. -/
theorem map_addNames {seen new : List String} (hnames : ∀ n ∈ addNames seen new, n ∈ A) :
    (addNames seen new).map ρ = addNames (seen.map ρ) (new.map ρ) := by
  have hall : ∀ n, n ∈ seen ∨ n ∈ new → n ∈ A := fun n h => hnames n (mem_addNames.mpr h)
  clear hnames
  unfold addNames
  induction new generalizing seen with
  | nil => rfl
  | cons m new ih =>
    have hm : m ∈ A := hall m (.inr List.mem_cons_self)
    have hcontains := contains_map hρ (fun n hn => hall n (.inl hn)) hm
    rw [List.map_cons, List.foldl_cons, List.foldl_cons, hcontains]
    split
    · exact ih fun n hn => hall n (hn.imp_right (List.mem_cons_of_mem m))
    · rw [ih, List.map_append]
      · rfl
      · rintro n (hn | hn)
        · rcases List.mem_append.mp hn with hn | hn
          · exact hall n (.inl hn)
          · rwa [List.mem_singleton.mp hn]
        · exact hall n (.inr (List.mem_cons_of_mem m hn))

theorem map_addNames_of {seen new seen' new' : List String} (hnames : ∀ n ∈ addNames seen new, n ∈ A)
    (hseen : (∀ n ∈ seen, n ∈ A) → seen' = seen.map ρ) (hnew : (∀ n ∈ new, n ∈ A) → new' = new.map ρ) :
    addNames seen' new' = (addNames seen new).map ρ := by
  obtain ⟨hseenA, hnewA⟩ := forall_mem_addNames.mp hnames
  rw [map_addNames hρ hnames, hseen hseenA, hnew hnewA]

mutual
/-- **The variables of an expression** that makes no functions are renamed as it is. -/
theorem freeNames_rename : (e : Expr) → e.closures = [] → (∀ n ∈ e.freeNames, n ∈ A) →
    (e.rename ρ).freeNames = e.freeNames.map ρ
  | .unit, _, _ | .bool _, _, _ | .int _, _, _ | .real _, _, _ | .char _, _, _ | .text _, _, _ => rfl
  | .variable _, _, _ => rfl
  | .template parts, hmakes, hnames | .array parts, hmakes, hnames | .block parts, hmakes, hnames =>
    freeNamesAll_rename parts hmakes hnames
  | .call _ args, hmakes, hnames => freeNamesAll_rename args hmakes hnames
  | .select base selectors, hmakes, hnames => by
    obtain ⟨hbase, hselectors⟩ := List.append_eq_nil_iff.mp hmakes
    exact map_addNames_of hρ hnames (freeNames_rename base hbase) (selectorNamesAll_rename selectors hselectors)
  | .and left right, hmakes, hnames | .or left right, hmakes, hnames | .coalesce left right, hmakes, hnames => by
    obtain ⟨hleft, hright⟩ := List.append_eq_nil_iff.mp hmakes
    exact map_addNames_of hρ hnames (freeNames_rename left hleft) (freeNames_rename right hright)
  | .conditional condition yes no, hmakes, hnames => by
    obtain ⟨hfront, hno⟩ := List.append_eq_nil_iff.mp hmakes
    obtain ⟨hcondition, hyes⟩ := List.append_eq_nil_iff.mp hfront
    refine map_addNames_of hρ hnames (fun hnames => ?_) (freeNames_rename no hno)
    exact map_addNames_of hρ hnames (freeNames_rename condition hcondition) (freeNames_rename yes hyes)
  | .assign name value, hmakes, hnames =>
    map_addNames_of hρ hnames (fun _ => rfl) (freeNames_rename value hmakes)
  | .closure _ _, hmakes, _ => by cases hmakes

theorem freeNamesAll_rename : (es : List Expr) → closuresAll es = [] → (∀ n ∈ freeNamesAll es, n ∈ A) →
    freeNamesAll (renameAll ρ es) = (freeNamesAll es).map ρ
  | [], _, _ => rfl
  | e :: rest, hmakes, hnames => by
    obtain ⟨hfirst, hrest⟩ := List.append_eq_nil_iff.mp hmakes
    exact map_addNames_of hρ hnames (freeNames_rename e hfirst) (freeNamesAll_rename rest hrest)

theorem selectorNamesAll_rename : (ss : List Selector) → selectorClosures ss = [] →
    (∀ n ∈ selectorNamesAll ss, n ∈ A) → selectorNamesAll (renameSelectors ρ ss) = (selectorNamesAll ss).map ρ
  | [], _, _ => rfl
  | .property _ :: rest, hmakes, hnames =>
    map_addNames_of hρ hnames (fun _ => rfl) (selectorNamesAll_rename rest hmakes)
  | .method _ args :: rest, hmakes, hnames => by
    obtain ⟨hargs, hrest⟩ := List.append_eq_nil_iff.mp hmakes
    exact map_addNames_of hρ hnames (freeNamesAll_rename args hargs) (selectorNamesAll_rename rest hrest)
  | .index position :: rest, hmakes, hnames => by
    obtain ⟨hposition, hrest⟩ := List.append_eq_nil_iff.mp hmakes
    exact map_addNames_of hρ hnames (freeNames_rename position hposition) (selectorNamesAll_rename rest hrest)
end

end Names

/-! ## Values -/

section Values

variable {ρ : String → String} {A : Set String} {apply : Application} {scope scope' : Scope}

theorem rename_ne_variable {e : Expr} (he : ∀ v, e ≠ .variable v) (v : String) : e.rename ρ ≠ .variable v := by
  cases e <;> first | exact absurd rfl (he _) | exact Expr.noConfusion

theorem evalInTurn_assign (name : String) (value e : Expr) (rest : List Expr) :
    evalInTurn apply scope (.assign name value :: e :: rest) = (eval apply scope value).bind fun d =>
      (scope.lookup name).bind fun _ => evalInTurn apply ((name, d) :: scope) (e :: rest) := rfl

theorem evalInTurn_of_ne {e : Expr} (he : ∀ name value, e ≠ .assign name value) (e' : Expr) (rest : List Expr) :
    evalInTurn apply scope (e :: e' :: rest)
      = (eval apply scope e).bind fun _ => evalInTurn apply scope (e' :: rest) := by
  cases e <;> first | rfl | exact absurd rfl (he _ _)

theorem rename_ne_assign {e : Expr} (he : ∀ name value, e ≠ .assign name value) (name : String) (value : Expr) :
    e.rename ρ ≠ .assign name value := by
  cases e <;> first | exact absurd rfl (he _ _) | exact Expr.noConfusion

/-- A variable more in scope, with its name in one scope and the other name in the other. -/
theorem lookup_cons_rename (hρ : Set.InjOn ρ A) (hlookup : ∀ n ∈ A, scope'.lookup (ρ n) = scope.lookup n) {name : String}
    (hname : name ∈ A) (d : Datum) :
    ∀ n ∈ A, Scope.lookup ((ρ name, d) :: scope') (ρ n) = Scope.lookup ((name, d) :: scope) n := by
  intro n hn
  unfold Scope.lookup
  by_cases heq : name = n
  · subst heq
    simp
  · have hne : ρ name ≠ ρ n := fun h => heq (hρ hname hn h)
    rw [List.find?_cons_of_neg (by simpa using hne), List.find?_cons_of_neg (by simpa using heq)]
    exact hlookup n hn

mutual
/-- **The value of an expression** that makes no functions is the same with other names for its variables,
if these stand for the same. -/
theorem eval_rename (hρ : Set.InjOn ρ A) : (e : Expr) → e.closures = [] → (∀ n ∈ e.freeNames, n ∈ A) →
    ∀ {scope scope' : Scope}, (∀ n ∈ A, scope'.lookup (ρ n) = scope.lookup n) →
      (e.rename ρ).eval apply scope' = e.eval apply scope
  | .unit, _, _, _, _, _ | .bool _, _, _, _, _, _ | .int _, _, _, _, _, _ | .real _, _, _, _, _, _ => rfl
  | .char _, _, _, _, _, _ | .text _, _, _, _, _, _ => rfl
  | .variable name, _, hnames, _, _, hlookup => hlookup name (hnames name (List.mem_singleton_self name))
  | .template parts, hmakes, hnames, _, _, hlookup => by
    rw [rename, eval, eval, evalAll_rename hρ parts hmakes hnames hlookup]
  | .array items, hmakes, hnames, _, _, hlookup => by
    rw [rename, eval, eval, evalAll_rename hρ items hmakes hnames hlookup]
  | .call name [], _, _, _, _, _ => rfl
  | .call name (e :: rest), hmakes, hnames, _, _, hlookup => by
    obtain ⟨hmakesFirst, hmakesRest⟩ := List.append_eq_nil_iff.mp hmakes
    obtain ⟨hnamesFirst, hnamesRest⟩ := forall_mem_addNames.mp hnames
    have hrest := evalAll_rename hρ rest hmakesRest hnamesRest hlookup
    -- a variable that a function is called on is looked up behind the other arguments
    by_cases hvariable : ∃ v, e = .variable v
    · obtain ⟨v, rfl⟩ := hvariable
      have hlooked := hlookup v (hnamesFirst v (List.mem_singleton_self v))
      rw [rename, renameAll, rename, eval_call_variable, eval_call_variable, hrest, hlooked]
    · have hne : ∀ v, e ≠ .variable v := fun v h => hvariable ⟨v, h⟩
      rw [rename, renameAll, eval_call_of_ne (rename_ne_variable hne), eval_call_of_ne hne, evalAll, evalAll,
        eval_rename hρ e hmakesFirst hnamesFirst hlookup, hrest]
  | .select base selectors, hmakes, hnames, _, _, hlookup => by
    obtain ⟨hmakesBase, hmakesRest⟩ := List.append_eq_nil_iff.mp hmakes
    obtain ⟨hnamesBase, hnamesRest⟩ := forall_mem_addNames.mp hnames
    rw [rename, eval, eval, evalSelectors_rename hρ selectors hmakesRest hnamesRest hlookup,
      eval_rename hρ base hmakesBase hnamesBase hlookup]
  | .and left right, hmakes, hnames, _, _, hlookup | .or left right, hmakes, hnames, _, _, hlookup
  | .coalesce left right, hmakes, hnames, _, _, hlookup => by
    obtain ⟨hmakesLeft, hmakesRight⟩ := List.append_eq_nil_iff.mp hmakes
    obtain ⟨hnamesLeft, hnamesRight⟩ := forall_mem_addNames.mp hnames
    rw [rename, eval, eval, eval_rename hρ left hmakesLeft hnamesLeft hlookup,
      eval_rename hρ right hmakesRight hnamesRight hlookup]
  | .conditional condition yes no, hmakes, hnames, _, _, hlookup => by
    obtain ⟨hmakesFront, hmakesNo⟩ := List.append_eq_nil_iff.mp hmakes
    obtain ⟨hmakesCondition, hmakesYes⟩ := List.append_eq_nil_iff.mp hmakesFront
    obtain ⟨hnamesFront, hnamesNo⟩ := forall_mem_addNames.mp hnames
    obtain ⟨hnamesCondition, hnamesYes⟩ := forall_mem_addNames.mp hnamesFront
    rw [rename, eval, eval, eval_rename hρ condition hmakesCondition hnamesCondition hlookup,
      eval_rename hρ yes hmakesYes hnamesYes hlookup, eval_rename hρ no hmakesNo hnamesNo hlookup]
  | .block steps, hmakes, hnames, _, _, hlookup => by
    rw [rename, eval, eval, evalInTurn_rename hρ steps hmakes hnames hlookup]
  | .assign name value, hmakes, hnames, _, _, hlookup => by
    obtain ⟨hname, hnamesValue⟩ := forall_mem_addNames.mp hnames
    rw [rename, eval, eval, eval_rename hρ value hmakes hnamesValue hlookup,
      hlookup name (hname name (List.mem_singleton_self name))]
  | .closure _ _, hmakes, _, _, _, _ => by cases hmakes

theorem evalAll_rename (hρ : Set.InjOn ρ A) : (es : List Expr) → closuresAll es = [] → (∀ n ∈ freeNamesAll es, n ∈ A) →
    ∀ {scope scope' : Scope}, (∀ n ∈ A, scope'.lookup (ρ n) = scope.lookup n) →
      evalAll apply scope' (renameAll ρ es) = evalAll apply scope es
  | [], _, _, _, _, _ => rfl
  | e :: rest, hmakes, hnames, _, _, hlookup => by
    obtain ⟨hmakesFirst, hmakesRest⟩ := List.append_eq_nil_iff.mp hmakes
    obtain ⟨hnamesFirst, hnamesRest⟩ := forall_mem_addNames.mp hnames
    rw [renameAll, evalAll, evalAll, eval_rename hρ e hmakesFirst hnamesFirst hlookup,
      evalAll_rename hρ rest hmakesRest hnamesRest hlookup]

theorem evalSelectors_rename (hρ : Set.InjOn ρ A) : (ss : List Selector) → selectorClosures ss = [] →
    (∀ n ∈ selectorNamesAll ss, n ∈ A) →
    ∀ {scope scope' : Scope}, (∀ n ∈ A, scope'.lookup (ρ n) = scope.lookup n) →
      evalSelectors apply scope' (renameSelectors ρ ss) = evalSelectors apply scope ss
  | [], _, _, _, _, _ => rfl
  | .property _ :: rest, hmakes, hnames, _, _, hlookup => by
    obtain ⟨-, hnamesRest⟩ := forall_mem_addNames.mp hnames
    rw [renameSelectors, renameSelector, evalSelectors, evalSelectors, evalSelector, evalSelector,
      evalSelectors_rename hρ rest hmakes hnamesRest hlookup]
  | .method _ args :: rest, hmakes, hnames, _, _, hlookup => by
    obtain ⟨hmakesArgs, hmakesRest⟩ := List.append_eq_nil_iff.mp hmakes
    obtain ⟨hnamesArgs, hnamesRest⟩ := forall_mem_addNames.mp hnames
    rw [renameSelectors, renameSelector, evalSelectors, evalSelectors, evalSelector, evalSelector,
      evalAll_rename hρ args hmakesArgs hnamesArgs hlookup, evalSelectors_rename hρ rest hmakesRest hnamesRest hlookup]
  | .index position :: rest, hmakes, hnames, _, _, hlookup => by
    obtain ⟨hmakesPosition, hmakesRest⟩ := List.append_eq_nil_iff.mp hmakes
    obtain ⟨hnamesPosition, hnamesRest⟩ := forall_mem_addNames.mp hnames
    rw [renameSelectors, renameSelector, evalSelectors, evalSelectors, evalSelector, evalSelector,
      eval_rename hρ position hmakesPosition hnamesPosition hlookup,
      evalSelectors_rename hρ rest hmakesRest hnamesRest hlookup]

theorem evalInTurn_rename (hρ : Set.InjOn ρ A) : (es : List Expr) → closuresAll es = [] → (∀ n ∈ freeNamesAll es, n ∈ A) →
    ∀ {scope scope' : Scope}, (∀ n ∈ A, scope'.lookup (ρ n) = scope.lookup n) →
      evalInTurn apply scope' (renameAll ρ es) = evalInTurn apply scope es
  | [], _, _, _, _, _ => rfl
  | [e], hmakes, hnames, _, _, hlookup =>
    eval_rename hρ e (List.append_eq_nil_iff.mp hmakes).1 (forall_mem_addNames.mp hnames).1 hlookup
  | e :: e' :: rest, hmakes, hnames, _, _, hlookup => by
    obtain ⟨hmakesFirst, hmakesRest⟩ := List.append_eq_nil_iff.mp hmakes
    obtain ⟨hnamesFirst, hnamesRest⟩ := forall_mem_addNames.mp hnames
    -- behind an assignment the later steps have a variable more
    by_cases hassign : ∃ name value, e = .assign name value
    · obtain ⟨name, value, rfl⟩ := hassign
      obtain ⟨hnames', hnamesValue⟩ := forall_mem_addNames.mp hnamesFirst
      have hname : name ∈ A := hnames' name (List.mem_singleton_self name)
      rw [renameAll, rename, renameAll, evalInTurn_assign, evalInTurn_assign,
        eval_rename hρ value hmakesFirst hnamesValue hlookup, hlookup name hname]
      congr 1
      funext d
      congr 1
      funext _
      exact evalInTurn_rename hρ (e' :: rest) hmakesRest hnamesRest (lookup_cons_rename hρ hlookup hname d)
    · have hne : ∀ name value, e ≠ .assign name value := fun name value h => hassign ⟨name, value, h⟩
      rw [renameAll, renameAll, evalInTurn_of_ne (rename_ne_assign hne), evalInTurn_of_ne hne, ← renameAll,
        eval_rename hρ e hmakesFirst hnamesFirst hlookup, evalInTurn_rename hρ (e' :: rest) hmakesRest hnamesRest hlookup]
end

end Values

/-! ## Functions -/

/-- Names for the parameters of a function that are told apart from each other and from the outer variables
that its body mentions, which stay as they are. -/
structure RenamesParameters (ρ : String → String) (params : List String) (body : Expr) : Prop where
  injOn : Set.InjOn ρ {n | n ∈ params ∨ n ∈ body.freeNames}
  outer : ∀ n ∈ body.freeNames, n ∉ params → ρ n = n

/-- The outer variables that a function mentions. -/
def outerNames (params : List String) (body : Expr) : List String :=
  body.freeNames.filter fun n => !params.contains n

/-- What a function keeps of a scope. -/
def captures (scope : Scope) (params : List String) (body : Expr) : Evaluated (List (String × Datum)) :=
  (outerNames params body).mapM fun n => (scope.lookup n).map fun d => (n, d)

theorem eval_closure (apply : Application) (scope : Scope) (params : List String) (body : Expr) :
    (Expr.closure params body).eval apply scope
      = (captures scope params body).map fun captured => .function (.mk params body captured) := by
  have hlookup : (fun n => (do .ok (n, ← scope.lookup n) : Evaluated (String × Datum)))
      = fun n => (scope.lookup n).map fun d => (n, d) := by
    funext n
    cases scope.lookup n <;> rfl
  rw [eval, hlookup]
  show (captures scope params body).bind _ = _
  cases captures scope params body <;> rfl

section Functions

variable {ρ : String → String} {params : List String} {body : Expr} (h : RenamesParameters ρ params body)
  (hmakes : body.closures = [])

include h hmakes

theorem outerNames_rename : outerNames (params.map ρ) (body.rename ρ) = outerNames params body := by
  have hcontains : ∀ n ∈ body.freeNames, (params.map ρ).contains (ρ n) = params.contains n := fun n hn =>
    contains_map h.injOn (fun _ hp => .inl hp) (.inr hn)
  have hfixed : ∀ n ∈ outerNames params body, ρ n = n := by
    intro n hn
    obtain ⟨hmem, hparam⟩ := List.mem_filter.mp hn
    exact h.outer n hmem (by simpa using hparam)
  calc outerNames (params.map ρ) (body.rename ρ)
      = (body.freeNames.filter fun n => !(params.map ρ).contains (ρ n)).map ρ := by
        rw [outerNames, freeNames_rename h.injOn body hmakes fun _ hn => .inr hn, List.filter_map]
        rfl
    _ = (outerNames params body).map ρ := by
        rw [outerNames, List.filter_congr fun n hn => congrArg not (hcontains n hn)]
    _ = outerNames params body := (List.map_congr_left hfixed).trans (List.map_id _)

/-- **The outer variables that a function keeps** are the same with other names for its parameters. -/
theorem captures_rename (scope : Scope) : captures scope (params.map ρ) (body.rename ρ) = captures scope params body := by
  rw [captures, outerNames_rename h hmakes, captures]

end Functions

/-- Values that parameters are given, with the other names in one scope. -/
theorem lookup_zip_rename {ρ : String → String} {A : Set String} {scope scope' : Scope} (hρ : Set.InjOn ρ A)
    {params : List String} (hparams : ∀ p ∈ params, p ∈ A) {args : List Datum} (hargs : args.length = params.length)
    {n : String} (hn : n ∈ A) (hlookup : n ∉ params → scope'.lookup (ρ n) = scope.lookup n) :
    Scope.lookup ((params.map ρ).zip args ++ scope') (ρ n) = Scope.lookup (params.zip args ++ scope) n := by
  induction params generalizing args with
  | nil => exact hlookup List.not_mem_nil
  | cons p params ih =>
    obtain ⟨d, args, rfl⟩ : ∃ d rest, args = d :: rest := List.exists_cons_of_length_eq_add_one hargs
    have hrest : args.length = params.length := Nat.succ_inj.mp hargs
    unfold Scope.lookup at ih ⊢
    simp only [List.map_cons, List.zip_cons_cons, List.cons_append]
    by_cases heq : p = n
    · subst heq
      simp
    · have hne : ρ p ≠ ρ n := fun hsame => heq (hρ (hparams p List.mem_cons_self) hn hsame)
      rw [List.find?_cons_of_neg (by simpa using hne), List.find?_cons_of_neg (by simpa using heq)]
      refine ih (fun q hq => hparams q (List.mem_cons_of_mem p hq)) hrest fun hother => hlookup ?_
      simpa [Ne.symm heq] using hother

end Expr

/-- A function of so many parameters. -/
theorem Closure.apply_of_length {f : Closure} {args : List Datum} (hargs : args.length = f.params.length) (calls : Nat) :
    Closure.apply calls f args = match calls with
      | 0 => .error .tooDeep
      | n + 1 => (f.body.eval (Closure.apply n) (f.params.zip args ++ f.captured)).mapError .inCall := by
  rw [Closure.apply.eq_def, if_neg (not_not.mpr hargs.symm)]
  cases calls with
  | zero => rfl
  | succ n =>
    dsimp only
    cases f.body.eval (Closure.apply n) (f.params.zip args ++ f.captured) <;> rfl

/-- **A function with other names for its parameters** has the same results. -/
theorem Closure.apply_rename {ρ : String → String} {params : List String} {body : Expr}
    (h : Expr.RenamesParameters ρ params body) (hmakes : body.closures = []) (captured : List (String × Datum))
    (calls : Nat) {args : List Datum} (hargs : args.length = params.length) :
    Closure.apply calls (.mk (params.map ρ) (body.rename ρ) captured) args
      = Closure.apply calls (.mk params body captured) args := by
  have hlookup : ∀ n ∈ {n | n ∈ params ∨ n ∈ body.freeNames},
      Scope.lookup ((params.map ρ).zip args ++ captured) (ρ n) = Scope.lookup (params.zip args ++ captured) n := by
    intro n hn
    refine Expr.lookup_zip_rename h.injOn (fun p hp => .inl hp) hargs hn fun hother => ?_
    rw [h.outer n (hn.resolve_left hother) hother]
  have hcount : args.length = (params.map ρ).length := by rw [List.length_map, hargs]
  rw [apply_of_length hcount, apply_of_length hargs]
  cases calls with
  | zero => rfl
  | succ n => exact congrArg (Except.mapError _) (Expr.eval_rename h.injOn body hmakes (fun n hn => .inr hn) hlookup)

/-- Two functions that nothing tells apart but their names in messages: they have the same results, and called
with another number of arguments each of them is unknown, under its own name. -/
structure Closure.Alike (f g : Closure) : Prop where
  results : ∀ calls args, args.length = f.params.length → Closure.apply calls f args = Closure.apply calls g args
  unknown : ∀ calls args, args.length ≠ f.params.length → ∃ kinds,
    Closure.apply calls f args = .error (.unknownFunction (f.name ++ kinds)) ∧
    Closure.apply calls g args = .error (.unknownFunction (g.name ++ kinds))

theorem Closure.alike_rename {ρ : String → String} {params : List String} {body : Expr}
    (h : Expr.RenamesParameters ρ params body) (hmakes : body.closures = []) (captured : List (String × Datum)) :
    Closure.Alike (.mk params body captured) (.mk (params.map ρ) (body.rename ρ) captured) where
  results calls _ hargs := (apply_rename h hmakes captured calls hargs).symm
  unknown calls args hargs := by
    have hunknown : ∀ f : Closure, f.params.length ≠ args.length → f.captured = captured →
        Closure.apply calls f args = .error (.unknownFunction (f.name ++
          (" (" ++ String.intercalate ", " ((captured.map Prod.snd ++ args).map Datum.argumentTypeName) ++ ")"))) := by
      intro f hcount hcaptured
      rw [Closure.apply.eq_def, if_pos hcount, hcaptured, callSignature, String.append_assoc, String.append_assoc,
        String.append_assoc]
    have hcount : (params.map ρ).length ≠ args.length := by
      rw [List.length_map]
      exact Ne.symm hargs
    exact ⟨_, hunknown (.mk params body captured) (Ne.symm hargs) rfl, hunknown _ hcount rfl⟩

end Worksheet
