import Worksheet.Context
import Worksheet.Proofs.Declaration.Calls
import Worksheet.Proofs.Expression.Parse
import Worksheet.Proofs.Library.Constructors
import Worksheet.Proofs.Notation.Pieces

/-!
# What pieces of notation depend on

* **`Expr.OnStack`** — expressions that read nothing but the current stack.
* **`Hygienic`** — texts that are such expressions, and in which nothing changes when the calls of
  functions are bound, as long as some names are no functions.
* **`Piece.hygienic`** — the expansion of a piece is of this kind, for the names of the functions that
  it calls.
-/

namespace Worksheet

open Text Notation Expression

/-! ## Expressions on the stack -/

/-- Does an expression depend on nothing but the values in the current stack? And what it makes of data
is no function. -/
def Expr.OnStack (e : Expr) : Prop :=
  ∀ items : List Datum, (∀ d ∈ items, ∀ f, d ≠ .function f) → ∃ r, IsData r ∧
    ∀ scope : Scope, scope.lookup Context.currentStackName = .ok (.array items) → e.value scope = r

theorem Expr.onStack_of_value {e : Expr} {r : Evaluated Datum} (hr : IsData r)
    (h : ∀ scope, e.value scope = r) : e.OnStack :=
  fun _ _ => ⟨r, hr, fun scope _ => h scope⟩

theorem eval_literal {t : Token} (ht : IsNumber t) :
    ∃ d, IsNumeric d ∧ ∀ application scope, Expr.eval application scope (literal t) = .ok d := by
  cases ht with
  | int n => exact ⟨_, .int n, fun _ _ => rfl⟩
  | real x => exact ⟨_, .real x, fun _ _ => rfl⟩

theorem evalAll_literals {ts : List Token} (hts : ∀ t ∈ ts, IsNumber t) :
    ∃ ds, (∀ d ∈ ds, IsNumeric d) ∧
      ∀ application scope, Expr.evalAll application scope (ts.map literal) = .ok ds := by
  induction ts with
  | nil => exact ⟨[], by simp, fun _ _ => rfl⟩
  | cons t ts ih =>
    obtain ⟨ds, hds, hall⟩ := ih fun u hu => hts u (List.mem_cons_of_mem t hu)
    obtain ⟨d, hd, hone⟩ := eval_literal (hts t List.mem_cons_self)
    refine ⟨d :: ds, by simpa using ⟨hd, hds⟩, fun application scope => ?_⟩
    rw [List.map_cons, Expr.evalAll, hone, hall]
    rfl

theorem invoke_eq_apply {name : String} (hname : name ∉ ["call", "map", "filter", "reduce"])
    (application : Application) (args : List Datum) :
    invoke application name args = Library.apply name args := by
  unfold invoke
  split <;> simp_all

theorem onStack_call_numbers {name : String} (hname : name ∈ Library.numericNames) {ts : List Token}
    (hts : ∀ t ∈ ts, IsNumber t) : (Expr.call name (ts.map literal)).OnStack := by
  obtain ⟨ds, hds, hall⟩ := evalAll_literals hts
  refine Expr.onStack_of_value (Library.isData_apply hname hds) fun scope => ?_
  have hcall : (Expr.call name (ts.map literal)).value scope
      = (Expr.evalAll (Closure.apply Closure.callLimit) scope (ts.map literal)).bind
        fun ds => invoke (Closure.apply Closure.callLimit) name ds := by
    cases ts with
    | nil => rfl
    | cons t ts => cases hts t List.mem_cons_self <;> rfl
  have hnames : ∀ n ∈ Library.numericNames, n ∉ ["call", "map", "filter", "reduce"] := by decide
  rw [hcall, hall]
  exact invoke_eq_apply (hnames name hname) _ ds

/-! ## Calls of names that are no functions -/

theorem paren_mem_of_callSite? {before after : List Char} {m : List Char × List Char}
    (h : callSite? before after = some m) :
    ∃ c r, after = c :: r ∧ c ≠ '(' ∧ c ≠ '.' ∧ '(' ∈ r := by
  unfold callSite? at h
  split at h
  · cases h
  · next c r =>
    split at h
    · next hstart =>
      have hname : isNameStart c = true := (Bool.and_eq_true_iff.mp hstart).1
      have hne : c ≠ '(' := by
        rintro rfl
        exact absurd hname (by decide)
      have hdot : c ≠ '.' := by
        rintro rfl
        exact absurd hname (by decide)
      split at h
      · next rest hrest =>
        have hmem : '(' ∈ c :: r := by
          have htrim : '(' ∈ trimStart ((c :: r).dropWhile isNameChar) := by
            rw [hrest]
            exact List.mem_cons_self
          exact List.dropWhile_subset _ (List.dropWhile_subset _ htrim)
        exact ⟨c, r, rfl, hne, hdot, (List.mem_cons.mp hmem).resolve_left (Ne.symm hne)⟩
      · cases h
    · cases h

/-- Behind the first character of a call there is a parenthesis. -/
theorem paren_mem_of_boundCall {isFunction : String → Bool} {before : List Char} {c : Char}
    {r : List Char} {m : List Char × List Char} (h : boundCall isFunction before (c :: r) = some m) :
    '(' ∈ r := by
  by_cases hdot : c = '.'
  · subst hdot
    obtain ⟨m', hm', -⟩ := Option.map_eq_some_iff.mp h
    obtain ⟨d, t, rfl, -, -, hmem⟩ := paren_mem_of_callSite? hm'
    exact List.mem_cons_of_mem d hmem
  · rw [boundCall_of_ne isFunction before hdot] at h
    obtain ⟨m', hm', -⟩ := Option.map_eq_some_iff.mp h
    obtain ⟨d, t, heq, -, -, hmem⟩ := paren_mem_of_callSite? hm'
    rwa [(List.cons.inj heq).2]

theorem boundCall_eq_self (isFunction : String → Bool) {s : List Char} (hs : '(' ∉ s.tail) :
    (boundCall isFunction).substitute s = s := by
  refine Pattern.substitute_eq_self_of_none fun pre c r hsplit => ?_
  cases hmatch : boundCall isFunction pre.reverse (c :: r) with
  | none => rfl
  | some m =>
    refine absurd ?_ hs
    have hmem := paren_mem_of_boundCall hmatch
    rw [hsplit]
    cases pre with
    | nil => exact hmem
    | cons d pre => exact List.mem_append_right pre (List.mem_cons_of_mem c hmem)

theorem bindCalls_eq_self (isFunction : String → Bool) {s : List Char} (hs : '(' ∉ s) :
    bindCalls isFunction s = s := by
  have hkeep : ∀ t : List Char, (∀ c ∈ t, c ≠ '(') → (boundCall isFunction).substitute t = t :=
    fun t ht => boundCall_eq_self isFunction fun hmem => ht _ (List.mem_of_mem_tail hmem) rfl
  refine mapPlain_eq_self _ hkeep ?_
  rintro c hc rfl
  exact hs hc

/-- A parenthesis without a name in front of it is no call. -/
theorem bindCalls_open (isFunction : String → Bool) {s : List Char} (hs : '(' ∉ s) (hquote : '"' ∉ s) :
    bindCalls isFunction ('(' :: s) = '(' :: s := by
  unfold bindCalls
  rw [mapPlain_of_not_mem _ (by simpa using hquote)]
  exact boundCall_eq_self isFunction hs

theorem isCall_of_mem {name : String} (hname : name ∈ constructorNames) {pre : List Char}
    (hquote : '"' ∉ pre) (hedge : ∀ c ∈ pre.getLast?, isWordChar c = false ∧ c ≠ '.') :
    IsCall pre name.toList [] := by
  have hnames : ∀ n ∈ constructorNames, n.toList.head?.any isNameStart = true ∧
      ∀ c ∈ n.toList, isNameChar c = true := by decide
  obtain ⟨hstart, hchars⟩ := hnames name hname
  refine ⟨closed_of_not_mem hquote, hedge, ?_, hchars, by simp⟩
  cases hlist : name.toList with
  | nil =>
    rw [hlist] at hstart
    cases hstart
  | cons c r =>
    rw [hlist] at hstart
    exact ⟨c, r, rfl, hstart⟩

/-- The call of a constructor stays as it is if its name is no function. -/
theorem bindCalls_name {name : String} (hname : name ∈ constructorNames) {isFunction : String → Bool}
    (hunbound : isFunction name = false) {pre : List Char} (hquote : '"' ∉ pre)
    (hedge : ∀ c ∈ pre.getLast?, isWordChar c = false ∧ c ≠ '.') (post : List Char) :
    bindCalls isFunction (pre ++ (name.toList ++ '(' :: post))
      = bindCalls isFunction pre ++ (name.toList ++ '(' :: bindCalls isFunction post) := by
  have hcall := bindCalls_call isFunction (isCall_of_mem hname hquote hedge) post
  rw [List.nil_append] at hcall
  rw [hcall, callText, String.ofList_toList, hunbound]
  simp

theorem bindCalls_constructor {name : String} (hname : name ∈ constructorNames)
    {isFunction : String → Bool} (hunbound : isFunction name = false) (post : List Char) :
    bindCalls isFunction (name.toList ++ '(' :: post)
      = name.toList ++ '(' :: bindCalls isFunction post := by
  have hnothing : '"' ∉ ([] : List Char) := by simp
  have hcall := bindCalls_name hname hunbound hnothing (by simp) post
  have hempty : bindCalls isFunction [] = [] := bindCalls_eq_self isFunction (by simp)
  rwa [hempty] at hcall

/-! ## Tokens of calls -/

theorem isWord_of_mem {name : String} (hname : name ∈ constructorNames) :
    IsWord name.toList ∧ isFunctionName name = true := by
  have hnames : ∀ n ∈ constructorNames, isProperName n.toList = true ∧
      isOperandWord (String.ofList n.toList) = false ∧ isFunctionName n = true := by decide
  obtain ⟨hproper, hoperand, hfunction⟩ := hnames name hname
  have hcall : IsCall [] name.toList [] := isCall_of_mem hname (by simp) (by simp)
  exact ⟨⟨hcall.start, hcall.chars, hproper, hoperand⟩, hfunction⟩

theorem tokensFrom?_constructor {name : String} (hname : name ∈ constructorNames) (args : List Char) :
    tokensFrom? .start 0 (name.toList ++ '(' :: args)
      = (tokensFrom? .start 0 args).map fun ts => .word name :: .symbol "(" :: ts := by
  have hends : EndsName ('(' :: args) := by
    rintro c ⟨⟩
    decide
  rw [tokensFrom?_name (isWord_of_mem hname).1 hends, tokensFrom?_open, Option.map_map,
    String.ofList_toList]
  rfl

/-- A text that is read as a number where an operand begins, if it is read at all. -/
def IsArgument (s : List Char) : Prop :=
  ∀ rest, Stops rest → OneToken .start s rest ∨ tokensFrom? .start 0 (s ++ rest) = none

theorem isArgument_decimal (whole : Decimals) (fraction : Option Decimals) :
    IsArgument (whole.chars ++ fractionText fraction) :=
  fun _ hrest => tokens_decimal .start whole fraction hrest

theorem tokensFrom?_comma_space (s : List Char) :
    tokensFrom? { Mode.start with afterOperand := true } 0 (',' :: ' ' :: s)
      = (tokensFrom? .start 0 s).map fun ts => .symbol "," :: ts := by
  rw [tokensFrom?_comma, tokensFrom?_space]
  rfl

/-- The arguments of a call, which are numbers if they are read at all. -/
theorem tokens_arguments {args : List (List Char)} (hargs : ∀ a ∈ args, IsArgument a)
    (hne : args ≠ []) :
    (∃ ts, ts ≠ [] ∧ (∀ t ∈ ts, IsNumber t) ∧
      tokensFrom? .start 0 (List.intercalate [',', ' '] args ++ [')']) = some (arguments ts)) ∨
    tokensFrom? .start 0 (List.intercalate [',', ' '] args ++ [')']) = none := by
  induction args with
  | nil => exact absurd rfl hne
  | cons a args ih =>
    cases args with
    | nil =>
      -- the last argument stops at the parenthesis
      have htext : List.intercalate [',', ' '] [a] = a := by simp [List.intercalate]
      have hstops : Stops [')'] := by
        rintro c ⟨⟩
        decide
      rw [htext]
      refine (hargs a List.mem_cons_self [')'] hstops).imp_left ?_
      rintro ⟨t, ht, htokens⟩
      refine ⟨[t], by simp, by simpa using ht, ?_⟩
      rw [htokens, tokensFrom?_close]
      rfl
    | cons b args =>
      -- any other one stops at the comma
      have hstops : ∀ r, Stops (',' :: r) := by
        rintro r c ⟨⟩
        decide
      have htext : List.intercalate [',', ' '] (a :: b :: args) ++ [')']
          = a ++ ',' :: ' ' :: (List.intercalate [',', ' '] (b :: args) ++ [')']) := by
        simp [List.intercalate]
      rw [htext]
      rcases hargs a List.mem_cons_self _ (hstops _) with ⟨t, ht, htokens⟩ | hnone
      · rw [htokens, tokensFrom?_comma_space]
        refine (ih (fun c hc => hargs c (List.mem_cons_of_mem a hc)) (by simp)).imp ?_ ?_
        · rintro ⟨ts, hne, hts, hrest⟩
          refine ⟨t :: ts, by simp, by simpa using ⟨ht, hts⟩, ?_⟩
          rw [hrest]
          cases ts with
          | nil => exact absurd rfl hne
          | cons u ts => rfl
        · intro hrest
          rw [hrest]
          rfl
      · exact Or.inr hnone

/-! ## Hygiene -/

/-- A text that is an expression on the stack if it is one at all, and in which nothing changes when
calls are bound, as long as none of these names is a function. -/
structure Hygienic (names : List String) (text : List Char) : Prop where
  unbound : ∀ isFunction : String → Bool, (∀ n ∈ names, isFunction n = false) →
    bindCalls isFunction text = text
  onStack : ∀ e, Expr.parse? text = some e → e.OnStack

theorem hygienic_numberCall {name : String} (hname : name ∈ Library.numericNames)
    {args : List (List Char)} (hargs : ∀ a ∈ args, IsArgument a) (hne : args ≠ [])
    (hparen : ∀ a ∈ args, '(' ∉ a) :
    Hygienic [name] (numberCall name (List.intercalate [',', ' '] args)) := by
  have hconstructors : ∀ n ∈ Library.numericNames, n ∈ constructorNames := by decide
  have hconstructor := hconstructors name hname
  refine ⟨fun isFunction hunbound => ?_, fun e he => ?_⟩
  · have hpost : '(' ∉ List.intercalate [',', ' '] args ++ [')'] := by
      refine List.not_mem_append (fun hmem => ?_) (by decide)
      rcases mem_intercalate hmem with hmem | ⟨a, ha, hmem⟩
      · exact absurd hmem (by decide)
      · exact hparen a ha hmem
    unfold numberCall
    rw [bindCalls_constructor hconstructor (hunbound name (by simp)),
      bindCalls_eq_self isFunction hpost]
  · unfold Expr.parse? tokens? numberCall at he
    rw [tokensFrom?_constructor hconstructor] at he
    rcases tokens_arguments hargs hne with ⟨ts, htsne, hts, htokens⟩ | hnone
    · have hparse := parseTokens?_call (isWord_of_mem hconstructor).2 hts htsne
      rw [htokens, Option.map_some, Option.bind_some, hparse] at he
      cases he
      exact onStack_call_numbers hname hts
    · rw [hnone] at he
      cases he

/-! ## Calls with numbers -/

theorem hygienic_numericCall {name : String} (hname : name ∈ Library.numericNames) {args : List Int}
    (hne : args ≠ []) : Hygienic [name] (numericCall name args) := by
  rw [numericCall_eq]
  refine hygienic_numberCall hname ?_ (by simpa using hne) ?_ <;> intro a ha <;>
    obtain ⟨n, -, rfl⟩ := List.mem_map.mp ha
  · exact fun rest hrest => Or.inl (oneToken_showInt rfl n hrest)
  · exact not_mem_showInt (by decide) (by decide) n

theorem paren_not_mem_count {whole : Decimals} {fraction : Option Decimals} :
    '(' ∉ whole.chars ++ fractionText fraction := by
  intro hmem
  rcases mem_count hmem with hdecimal | heq
  · exact absurd hdecimal (by decide)
  · exact absurd heq (by decide)

theorem hygienic_span {w : SpanWords} (hw : w ∈ spanTable) (whole : Decimals)
    (fraction : Option Decimals) :
    Hygienic [w.constructor] (numberCall w.constructor (whole.chars ++ fractionText fraction)) := by
  have hname : w.constructor ∈ Library.numericNames :=
    List.mem_append_right _ (List.mem_map_of_mem hw)
  have hcall : Hygienic [w.constructor] (numberCall w.constructor
      (List.intercalate [',', ' '] [whole.chars ++ fractionText fraction])) :=
    hygienic_numberCall hname (by simpa using isArgument_decimal whole fraction) (by simp)
      (by simpa using paren_not_mem_count)
  simpa [List.intercalate] using hcall

theorem hygienic_ratio (a b : Decimals) :
    Hygienic ["Fraction"] (numberCall "Fraction" (a.chars ++ [',', ' '] ++ b.chars)) := by
  have hargument : ∀ d : Decimals, IsArgument d.chars := fun d => by
    simpa [fractionText] using isArgument_decimal d none
  have hparen : ∀ d : Decimals, '(' ∉ d.chars := fun d => d.not_mem (by decide)
  have hcall : Hygienic ["Fraction"]
      (numberCall "Fraction" (List.intercalate [',', ' '] [a.chars, b.chars])) :=
    hygienic_numberCall (by decide) (by simp [hargument]) (by simp) (by simp [hparen])
  simpa [List.intercalate] using hcall

theorem hygienic_factorial {d : List Char} (hne : d ≠ []) (hd : ∀ c ∈ d, isDigit c = true) :
    Hygienic ["factorial"] (numberCall "factorial" d) := by
  have hargument : IsArgument d := fun rest hrest => Or.inl (oneToken_digits .start ⟨hne, hd⟩ hrest)
  have hparen : '(' ∉ d := fun hmem => absurd (hd _ hmem) (by decide)
  have hcall : Hygienic ["factorial"] (numberCall "factorial" (List.intercalate [',', ' '] [d])) :=
    hygienic_numberCall (by decide) (by simpa using hargument) (by simp) (by simpa using hparen)
  simpa [List.intercalate] using hcall

/-! ## Calls with texts -/

/-- A text that a literal holds as it is. -/
structure IsQuotable (d : List Char) : Prop where
  quote : '"' ∉ d
  escape : '\\' ∉ d
  line : '\n' ∉ d
  paren : '(' ∉ d

theorem tokensFrom?_inQuotes {d : List Char} (hd : IsQuotable d) (mode : Mode) {rest : List Char}
    (hrest : rest.head? ≠ some '"') :
    tokensFrom? mode 0 (inQuotes d ++ rest)
      = (tokensFrom? { mode with afterOperand := true } 0 rest).map
        fun ts => .text (String.ofList d) :: ts := by
  have htext : inQuotes d ++ rest = '"' :: (d ++ '"' :: rest) := by simp [inQuotes]
  rw [htext, tokensFrom?_text hd.quote hd.escape hd.line hrest]

theorem isQuotable_decimal {d : List Char} (hd : ∀ c ∈ d, isDigit c = true ∨ c = '.') : IsQuotable d :=
  ⟨not_mem_of_decimal hd (by decide), not_mem_of_decimal hd (by decide),
    not_mem_of_decimal hd (by decide), not_mem_of_decimal hd (by decide)⟩

theorem isQuotable_symbol {u : MeasureUnit} (hu : u ∈ MeasureUnit.table) :
    IsQuotable u.symbol.toList := by
  have hletters := (isLetter_of_mem_symbol u hu).2
  refine ⟨?_, ?_, ?_, ?_⟩ <;> exact fun hmem => absurd (hletters _ hmem) (by decide)

section TextCall

variable {name : String} {d rest : List Char}

/-- A call with a text in it, and what stands behind. -/
def textCall (name : String) (d rest : List Char) : List Char :=
  name.toList ++ '(' :: (inQuotes d ++ ')' :: rest)

theorem bindCalls_textCall (hname : name ∈ constructorNames) {isFunction : String → Bool}
    (hunbound : isFunction name = false) (hd : '(' ∉ d) (hrest : '(' ∉ rest) :
    bindCalls isFunction (textCall name d rest) = textCall name d rest := by
  have hpost : '(' ∉ inQuotes d ++ ')' :: rest := by simp [inQuotes, hd, hrest]
  unfold textCall
  rw [bindCalls_constructor hname hunbound, bindCalls_eq_self isFunction hpost]

theorem tokensFrom?_textCall (hname : name ∈ constructorNames) (hd : IsQuotable d) :
    tokensFrom? .start 0 (textCall name d rest)
      = (tokensFrom? { Mode.start with afterOperand := true } 0 rest).map fun ts =>
        .word name :: .symbol "(" :: .text (String.ofList d) :: .symbol ")" :: ts := by
  unfold textCall
  rw [tokensFrom?_constructor hname, tokensFrom?_inQuotes hd _ (by simp), tokensFrom?_close,
    Option.map_map, Option.map_map]
  rfl

end TextCall

/-- The value of a fraction that is written as a text. -/
theorem apply_fraction (s : String) : Library.apply "Fraction" [.text s]
    = match Fraction.parse? s.toList with
      | some f => .ok (.rational f)
      | none => raise (.fractionText s) := by
  rfl

theorem hygienic_exactDecimal {d : List Char} (hd : IsQuotable d) :
    Hygienic ["Fraction"] ("Fraction(".toList ++ (inQuotes d ++ [')'])) := by
  have hname : "Fraction" ∈ constructorNames := by decide
  show Hygienic ["Fraction"] (textCall "Fraction" d [])
  refine ⟨fun isFunction hunbound => ?_, fun e he => ?_⟩
  · exact bindCalls_textCall hname (hunbound _ (by simp)) hd.paren (by simp)
  · unfold Expr.parse? tokens? at he
    rw [tokensFrom?_textCall hname hd] at he
    obtain rfl : Expr.call "Fraction" [.text (String.ofList d)] = e := Option.some.inj he
    refine Expr.onStack_of_value ?_ fun scope => rfl
    show IsData (Library.apply "Fraction" [.text (String.ofList d)])
    rw [apply_fraction]
    split <;> simp

theorem hygienic_nearDecimal {d : List Char} (hd : IsQuotable d) :
    Hygienic ["approximate", "Fraction"]
      ("approximate(Fraction(".toList ++ (inQuotes d ++ [')', ')'])) := by
  have hname : "Fraction" ∈ constructorNames := by decide
  have houter : "approximate" ∈ constructorNames := by decide
  show Hygienic _ ("approximate".toList ++ '(' :: textCall "Fraction" d [')'])
  refine ⟨fun isFunction hunbound => ?_, fun e he => ?_⟩
  · rw [bindCalls_constructor houter (hunbound _ (by simp)),
      bindCalls_textCall hname (hunbound _ (by simp)) hd.paren (by decide)]
  · unfold Expr.parse? tokens? at he
    rw [tokensFrom?_constructor houter, tokensFrom?_textCall hname hd] at he
    generalize String.ofList d = s at he
    obtain rfl : Expr.call "approximate" [.call "Fraction" [.text s]] = e := Option.some.inj he
    have hvalue : ∀ scope, (Expr.call "approximate" [.call "Fraction" [.text s]]).value scope
        = (Library.apply "Fraction" [.text s]).bind fun x => Library.apply "approximate" [x] := by
      intro scope
      have hinner : Expr.eval (Closure.apply Closure.callLimit) scope (.call "Fraction" [.text s])
          = Library.apply "Fraction" [.text s] := rfl
      show (Expr.evalAll (Closure.apply Closure.callLimit) scope [.call "Fraction" [.text s]]).bind _
        = _
      rw [Expr.evalAll, hinner]
      cases Library.apply "Fraction" [.text s] <;> rfl
    refine Expr.onStack_of_value ?_ hvalue
    rw [apply_fraction]
    cases Fraction.parse? s.toList with
    | none => exact isData_raise _
    | some f =>
      show IsData (.ok (.rational f.approximate))
      simp

/-- What `unit` makes of a symbol. -/
theorem apply_unit (s : String) :
    (∃ q, Library.apply "unit" [.text s] = .ok (.quantity q)) ∨
      Library.apply "unit" [.text s] = raise (.quantity (.unknownUnit s)) := by
  have happly : some (Library.apply "unit" [.text s]) = Library.quantity? "unit" [.text s] := rfl
  rw [Library.quantity?] at happly
  cases hsymbol : Quantity.ofSymbol? s with
  | none => exact Or.inr (by simpa only [hsymbol, Option.some.injEq] using happly)
  | some q => exact Or.inl ⟨q, by simpa only [hsymbol, Option.some.injEq] using happly⟩

theorem hygienic_unit {u : MeasureUnit} (hu : u ∈ MeasureUnit.table) :
    Hygienic ["unit"] (unitCall u.symbol.toList) := by
  have hd := isQuotable_symbol hu
  have hname : "unit" ∈ constructorNames := by decide
  have htext : unitCall u.symbol.toList = textCall "unit" u.symbol.toList [] := by
    simp [unitCall, textCall]
  rw [htext]
  refine ⟨fun isFunction hunbound => ?_, fun e he => ?_⟩
  · exact bindCalls_textCall hname (hunbound _ (by simp)) hd.paren (by simp)
  · unfold Expr.parse? tokens? at he
    rw [tokensFrom?_textCall hname hd] at he
    generalize String.ofList u.symbol.toList = s at he
    obtain rfl : Expr.call "unit" [.text s] = e := Option.some.inj he
    refine Expr.onStack_of_value (r := Library.apply "unit" [.text s]) ?_ fun scope => rfl
    rcases apply_unit s with ⟨q, hq⟩ | hraise
    · simp [hq]
    · simp [hraise]

/-- A number of some unit is a number or a quantity. -/
theorem onStack_product {t : Token} (ht : IsNumber t) (s : String) :
    (Expr.call "*" [literal t, .call "unit" [.text s]]).OnStack := by
  obtain ⟨d, hd, hone⟩ := eval_literal ht
  have hvalue : ∀ scope, (Expr.call "*" [literal t, .call "unit" [.text s]]).value scope
      = (Library.apply "unit" [.text s]).bind fun q => Library.apply "*" [d, q] := by
    intro scope
    have hinner : Expr.eval (Closure.apply Closure.callLimit) scope (.call "unit" [.text s])
        = Library.apply "unit" [.text s] := rfl
    have hcall : (Expr.call "*" [literal t, .call "unit" [.text s]]).value scope
        = (Expr.evalAll (Closure.apply Closure.callLimit) scope
          [literal t, .call "unit" [.text s]]).bind
            fun ds => invoke (Closure.apply Closure.callLimit) "*" ds := by
      cases ht <;> rfl
    rw [hcall, Expr.evalAll, hone, Expr.evalAll, hinner]
    cases Library.apply "unit" [.text s] <;> rfl
  refine Expr.onStack_of_value ?_ hvalue
  rcases apply_unit s with ⟨q, hq⟩ | hraise
  · have hsettle : ∀ p, IsData (.ofOutcome (.ok (Arithmetic.settle p))) := by
      intro p
      show IsData (.ok (Arithmetic.settle p).toDatum)
      unfold Arithmetic.settle
      split <;> simp [Value.toDatum]
    rw [hq]
    cases hd with
    | int n => exact hsettle (q.scale (Real.ofWord n))
    | real x => exact hsettle (q.scale x)
  · rw [hraise]
    exact isData_raise _

section Quantities

variable (n : Numeral) {u : MeasureUnit}

theorem quantityCall_eq (u : MeasureUnit) :
    quantityCall n.text u.symbol.toList
      = '(' :: (n.text ++ " * ".toList) ++ textCall "unit" u.symbol.toList [')'] := by
  simp [quantityCall, textCall]

/-- In front of the call of `unit` no other call and no literal begins. -/
theorem not_mem_factor {c : Char} (hc : c = '(' ∨ c = '"') : c ∉ n.text ++ " * ".toList := by
  have hsigns : c ∉ ".eE+-".toList := by rcases hc with rfl | rfl <;> decide
  have hdecimal : isDecimal c = false := by rcases hc with rfl | rfl <;> decide
  refine List.not_mem_append (fun hmem => ?_) (by rcases hc with rfl | rfl <;> decide)
  rcases Numeral.mem_text hmem with hmem | hmem
  · rw [hdecimal] at hmem
    cases hmem
  · exact hsigns hmem

theorem bindCalls_quantity {isFunction : String → Bool} (hunbound : isFunction "unit" = false)
    (hu : u ∈ MeasureUnit.table) :
    bindCalls isFunction (quantityCall n.text u.symbol.toList)
      = quantityCall n.text u.symbol.toList := by
  have hparen := not_mem_factor n (Or.inl rfl)
  have hquote := not_mem_factor n (Or.inr rfl)
  have hlast : ('(' :: (n.text ++ " * ".toList)).getLast? = some ' ' := by
    rw [← List.cons_append, List.getLast?_append]
    rfl
  have hedge : ∀ c ∈ ('(' :: (n.text ++ " * ".toList)).getLast?,
      isWordChar c = false ∧ c ≠ '.' := by
    rw [hlast]
    rintro c ⟨⟩
    decide
  have hpost : '(' ∉ inQuotes u.symbol.toList ++ [')', ')'] := by
    simp [inQuotes, (isQuotable_symbol hu).paren]
  rw [quantityCall_eq]
  unfold textCall
  rw [bindCalls_name (by decide) hunbound (by simpa using hquote) hedge,
    bindCalls_open isFunction hparen hquote, bindCalls_eq_self isFunction hpost]

/-- Behind the number of a quantity stand the tokens of a product with a call of `unit`. -/
theorem tokensFrom?_factor (hu : u ∈ MeasureUnit.table) :
    tokensFrom? { Mode.start with afterOperand := true } 0
        (" * ".toList ++ textCall "unit" u.symbol.toList [')'])
      = some [.symbol "*", .word "unit", .symbol "(", .text (String.ofList u.symbol.toList),
        .symbol ")", .symbol ")"] := by
  show tokensFrom? _ 0 (' ' :: '*' :: ' ' :: textCall "unit" u.symbol.toList [')']) = _
  rw [tokensFrom?_space, tokensFrom?_times]
  show (tokensFrom? .start 0 (textCall "unit" u.symbol.toList [')'])).map _ = _
  rw [tokensFrom?_textCall (by decide) (isQuotable_symbol hu)]
  rfl

/-- A quantity is the product of a number and a unit, if it is an expression at all. -/
theorem parse?_quantity (hu : u ∈ MeasureUnit.table) :
    (∃ t, IsNumber t ∧ Expr.parse? (quantityCall n.text u.symbol.toList)
      = some (.call "*" [literal t, .call "unit" [.text (String.ofList u.symbol.toList)]])) ∨
    Expr.parse? (quantityCall n.text u.symbol.toList) = none := by
  have hstops : Stops (" * ".toList ++ textCall "unit" u.symbol.toList [')']) := by
    rintro c ⟨⟩
    decide
  have hparse : Expr.parse? (quantityCall n.text u.symbol.toList)
      = ((tokensFrom? .start 0 (n.text ++ (" * ".toList ++ textCall "unit" u.symbol.toList [')']))).map
        fun ts => .symbol "(" :: ts).bind parseTokens? := by
    rw [quantityCall_eq]
    unfold Expr.parse? tokens?
    rw [List.cons_append, tokensFrom?_open, List.append_assoc]
    rfl
  rw [hparse]
  rcases n.tokens .start hstops with ⟨t, ht, htokens⟩ | hnone
  · refine Or.inl ⟨t, ht, ?_⟩
    rw [htokens, tokensFrom?_factor hu]
    cases ht <;> rfl
  · -- a numeral that is cut leaves two tokens in a row, and no expression begins like that
    right
    rw [Option.bind_eq_none_iff]
    intro ts hts
    obtain ⟨us, hus, rfl⟩ := Option.map_eq_some_iff.mp hts
    obtain ⟨t, w, more, ht, hw, rfl⟩ := hnone us hus
    exact parseTokens?_noOperand ht hw more

end Quantities

theorem hygienic_quantity (n : Numeral) {u : MeasureUnit} (hu : u ∈ MeasureUnit.table) :
    Hygienic ["unit"] (quantityCall n.text u.symbol.toList) := by
  refine ⟨fun isFunction hunbound => bindCalls_quantity n (hunbound _ (by simp)) hu, fun e he => ?_⟩
  rcases parse?_quantity n hu with ⟨t, ht, hparse⟩ | hnone
  · obtain rfl := Option.some.inj (hparse.symm.trans he)
    exact onStack_product ht _
  · rw [hnone] at he
    cases he

/-- What is taken from a stack of data is no function. -/
theorem fromTop_ne_function {items : List Datum} (hitems : ∀ d ∈ items, ∀ f, d ≠ .function f)
    (n : Int64) (f : Closure) : Library.fromTop items n ≠ .function f := by
  unfold Library.fromTop
  split
  · rw [List.getD_eq_getElem?_getD]
    cases hget : items[items.length - n.toInt.toNat]? with
    | none => simp
    | some d => exact hitems d (List.mem_of_getElem? hget) f
  · simp

section Elements

variable {p : Int} {t : Token}

theorem elementCall_eq (d : List Char) :
    elementCall d = "stack_at".toList ++
      '(' :: ("_stack".toList ++ ',' :: ' ' :: (showInt (stackPosition d) ++ [')'])) := by
  unfold elementCall
  generalize showInt (stackPosition d) = position
  simp [stackName]

theorem bindCalls_element {isFunction : String → Bool} (hunbound : isFunction "stack_at" = false)
    (d : List Char) : bindCalls isFunction (elementCall d) = elementCall d := by
  have hpost : '(' ∉ "_stack".toList ++ ',' :: ' ' :: (showInt (stackPosition d) ++ [')']) := by
    have hparen : '(' ∉ showInt (stackPosition d) := not_mem_showInt (by decide) (by decide) _
    simp [hparen]
  rw [elementCall_eq, bindCalls_constructor (by decide) hunbound, bindCalls_eq_self isFunction hpost]

/-- The position is the one token of its number. -/
theorem parse?_element (ht : IsNumber t) {d : List Char}
    (htokens : tokensFrom? .start 0 (showInt (stackPosition d) ++ [')']) = some [t, .symbol ")"]) :
    Expr.parse? (elementCall d) = some (.call "stack_at" [.variable "_stack", literal t]) := by
  have hword : IsWord "_stack".toList := ⟨⟨'_', "stack".toList, rfl, by decide⟩, by decide, by decide, by decide⟩
  have hends : EndsName (',' :: ' ' :: (showInt (stackPosition d) ++ [')'])) := by
    rintro c ⟨⟩
    decide
  have hargs : tokensFrom? .start 0
      ("_stack".toList ++ ',' :: ' ' :: (showInt (stackPosition d) ++ [')']))
        = some [.word "_stack", .symbol ",", t, .symbol ")"] := by
    rw [tokensFrom?_name hword hends, tokensFrom?_comma, tokensFrom?_space]
    show ((tokensFrom? .start 0 (showInt (stackPosition d) ++ [')'])).map _).map _ = _
    rw [htokens]
    rfl
  rw [elementCall_eq]
  unfold Expr.parse? tokens?
  rw [tokensFrom?_constructor (by decide), hargs]
  cases ht <;> rfl

theorem value_element {e : Expr} {x : Datum} {items : List Datum} {scope : Scope}
    (he : e.eval (Closure.apply Closure.callLimit) scope = .ok x)
    (hscope : scope.lookup "_stack" = .ok (.array items)) :
    (Expr.call "stack_at" [.variable "_stack", e]).value scope
      = Library.apply "stack_at" [.array items, x] := by
  show (Expr.evalAll (Closure.apply Closure.callLimit) scope [e]).bind _ = _
  rw [Expr.evalAll, he]
  show (scope.lookup "_stack").bind _ = _
  rw [hscope]
  rfl

end Elements

theorem hygienic_element (d : Decimals) : Hygienic ["stack_at"] (elementCall d.chars) := by
  refine ⟨fun isFunction hunbound => bindCalls_element (hunbound _ (by simp)) _, fun e he => ?_⟩
  have hstops : Stops [')'] := by
    rintro c ⟨⟩
    decide
  obtain ⟨t, ht, htokens⟩ : OneToken .start (showInt (stackPosition d.chars)) [')'] :=
    oneToken_showInt rfl _ hstops
  obtain rfl : Expr.call "stack_at" [.variable "_stack", literal t] = e :=
    Option.some.inj ((parse?_element ht htokens).symm.trans he)
  intro items hitems
  obtain ⟨x, hx, hone⟩ := eval_literal ht
  refine ⟨Library.apply "stack_at" [.array items, x], ?_, fun scope hscope => ?_⟩
  · cases hx with
    | int n => exact isData_ok_iff.mpr fun f => fromTop_ne_function hitems n f
    | real x => exact isData_error _
  · exact value_element (hone _ _) hscope

/-- **What a piece of notation stands for depends on the current stack alone**, as long as the functions
that it calls are those of the library. -/
theorem Notation.Piece.hygienic {o : Options} {s : List Char} {names : List String}
    (h : Piece o s names) : Hygienic names (expand o s) := by
  cases h with
  | today hs =>
    rw [expand_today o hs]
    exact hygienic_numericCall (by decide) (by simp)
  | now hs =>
    rw [expand_now o hs]
    exact hygienic_numericCall (by decide) (by simp)
  | @span w hw whole fraction hfraction blanks word hblanks hword =>
    rw [expand_span o hw hfraction hblanks hword]
    exact hygienic_span hw whole fraction
  | ratio a b =>
    rw [expand_ratio]
    exact hygienic_ratio a b
  | exactDecimal hne hd =>
    rw [expand_exactDecimal o hne hd]
    exact hygienic_exactDecimal (isQuotable_decimal hd)
  | nearDecimal hne hd =>
    rw [expand_nearDecimal o hne hd]
    exact hygienic_nearDecimal (isQuotable_decimal hd)
  | factorial hne hd =>
    rw [expand_factorial o hne hd]
    exact hygienic_factorial hne hd
  | quantity hnatural n hblanks hu =>
    rw [expand_quantity o hnatural hblanks hu]
    exact hygienic_quantity n hu
  | unit hnatural hu =>
    rw [expand_unit o hnatural hu]
    exact hygienic_unit hu
  | element d =>
    rw [expand_element]
    exact hygienic_element d

end Worksheet
