import Worksheet.Proofs.Expression.Operands
import Worksheet.Proofs.Notation.Borders
import Worksheet.Proofs.Notation.Hygiene

/-!
# Formulas as they are written

The notation finds nothing in a formula but names: the words of the clock and the units, which become
calls. Between the operands there are borders, so that each of them is rewritten by itself.

* **`Formula.textWith`** — a formula with its names written in some way.
* **`Rewrites`** — a rewriting that changes nothing in formulas but how the names are written;
  `Rewrites.formula` is by induction on the formula. There is one such lemma for each pattern, and one for
  the calls of declared functions.
* **`NameCall`** — what a name becomes; `Rewritable.lateStages` says that nothing else changes, in any text
  that is rewritten name by name.
* **`parse?_formula`** — the expression that a formula is in a worksheet.
-/

namespace Worksheet

open Text Expression Notation

/-! ## Texts -/

namespace Expression

/-- How a name is written. -/
def Name.chars (w : Name) : List Char := w.word.toList

namespace Formula

/-- A formula with its names written in some way. -/
def textWith (write : Name → List Char) {k : Stratum} : Formula k → List Char
  | number n blanks => n.text ++ blanks.chars
  | name w blanks => write w ++ blanks.chars
  | group front inside blanks => '(' :: (front.chars ++ (inside.textWith write ++ ')' :: blanks.chars))
  | within _ part => part.textWith write
  | join op left front right =>
    left.textWith write ++ (op.symbol.toList ++ (front.chars ++ right.textWith write))

/-- A formula as it is written. -/
def text {k : Stratum} (a : Formula k) : List Char := a.textWith Name.chars

end Formula

/-! ### Characters -/

theorem Number.mem_text {n : Number} {c : Char} (h : c ∈ n.text) : isDigit c = true ∨ c ∈ ".e+-".toList := by
  unfold Numeral.text at h
  rcases List.mem_append.mp h with h | h
  · exact Or.inl (n.whole_digits.digits c h)
  rcases List.mem_append.mp h with h | h
  · cases hfraction : n.fraction with
    | none =>
      rw [hfraction] at h
      cases h
    | some f =>
      rw [hfraction] at h
      rcases List.mem_cons.mp h with rfl | h
      · exact Or.inr (by decide)
      · exact Or.inl ((n.fraction_digits f hfraction).digits c h)
  · cases hexponent : n.exponent with
    | none =>
      rw [hexponent] at h
      cases h
    | some e =>
      obtain ⟨hletter, hdigits⟩ := n.exponent_digits e hexponent
      rw [hexponent] at h
      rcases List.mem_cons.mp h with rfl | h
      · rw [hletter]
        exact Or.inr (by decide)
      · rcases List.mem_append.mp h with h | h
        · rcases e.sign_eq c (Option.mem_toList.mp h) with rfl | rfl <;> exact Or.inr (by decide)
        · exact Or.inl (hdigits.digits c h)

/-- A number ends in a digit. -/
theorem Number.last_text (n : Number) : ∀ c ∈ n.text.getLast?, isDigit c = true := by
  have hend : ∀ {a s : List Char}, IsDigits s → ∀ c ∈ (a ++ s).getLast?, isDigit c = true := by
    intro a s hs c hc
    refine hs.digits c (List.mem_of_mem_getLast? ?_)
    rwa [List.getLast?_append_of_ne_nil _ hs.nonempty] at hc
  unfold Numeral.text
  cases hexponent : n.exponent with
  | none =>
    rw [exponentText, List.append_nil]
    cases hfraction : n.fraction with
    | none =>
      have hwhole := hend (a := []) n.whole_digits
      simpa [fractionText] using hwhole
    | some f =>
      have hdigits := hend (a := n.whole.chars ++ ['.']) (n.fraction_digits f hfraction)
      simpa [fractionText] using hdigits
  | some e =>
    have hdigits := hend (a := n.whole.chars ++ (fractionText n.fraction ++ e.letter :: e.sign.toList))
      (n.exponent_digits e hexponent).2
    simpa [exponentText, Exponent.text] using hdigits

theorem Number.text_ne_nil (n : Number) : n.text ≠ [] := by
  unfold Numeral.text
  simp [n.whole_digits.nonempty]

namespace Formula

/-- What holds of the characters of all parts of a formula holds of its characters. -/
theorem forall_mem_textWith {write : Name → List Char} {P : Char → Prop} (hblank : ∀ c, isBlank c = true → P c)
    (hsign : ∀ c ∈ ')' :: openingSigns, P c) (hnumber : ∀ n : Number, ∀ c ∈ n.text, P c)
    (hname : ∀ w, ∀ c ∈ write w, P c) {k : Stratum} (a : Formula k) : ∀ c ∈ a.textWith write, P c := by
  have hblanks : ∀ b : Blanks, ∀ c ∈ b.chars, P c := fun b c hc => hblank c (b.blank c hc)
  induction a with
  | number n blanks =>
    intro c hc
    exact (List.mem_append.mp hc).elim (hnumber n c) (hblanks blanks c)
  | name w blanks =>
    intro c hc
    exact (List.mem_append.mp hc).elim (hname w c) (hblanks blanks c)
  | group front inside blanks ih =>
    intro c hc
    rcases List.mem_cons.mp hc with rfl | hc
    · exact hsign _ (by decide)
    rcases List.mem_append.mp hc with hc | hc
    · exact hblanks front c hc
    rcases List.mem_append.mp hc with hc | hc
    · exact ih c hc
    rcases List.mem_cons.mp hc with rfl | hc
    · exact hsign _ (by decide)
    · exact hblanks blanks c hc
  | within h part ih => exact ih
  | join op left front right ihl ihr =>
    intro c hc
    rcases List.mem_append.mp hc with hc | hc
    · exact ihl c hc
    rcases List.mem_append.mp hc with hc | hc
    · have hsymbol : ∀ d ∈ op.symbol.toList, d ∈ ')' :: openingSigns := by cases op <;> decide
      exact hsign c (hsymbol c hc)
    rcases List.mem_append.mp hc with hc | hc
    · exact hblanks front c hc
    · exact ihr c hc

/-- A formula begins as an operand does. -/
theorem textWith_eq_cons {write : Name → List Char} (hwrite : ∀ w, ∃ c r, write w = c :: r ∧ isNameChar c = true)
    {k : Stratum} (a : Formula k) : ∃ c r, a.textWith write = c :: r ∧ (isNameChar c = true ∨ c = '(') := by
  induction a with
  | number n blanks =>
    obtain ⟨c, r, hcons⟩ := List.exists_cons_of_ne_nil n.whole_digits.nonempty
    have hdigit := n.whole_digits.digits c (by rw [hcons]; exact List.mem_cons_self)
    rw [textWith, Numeral.text, hcons]
    exact ⟨c, _, rfl, .inl (isNameChar_of_isDigit hdigit)⟩
  | name w blanks =>
    obtain ⟨c, r, hcons, hc⟩ := hwrite w
    rw [textWith, hcons]
    exact ⟨c, _, rfl, .inl hc⟩
  | group front inside blanks => exact ⟨'(', _, rfl, .inr rfl⟩
  | within h part ih => exact ih
  | join op left front right ihl ihr =>
    obtain ⟨c, r, hcons, hc⟩ := ihl
    rw [textWith, hcons]
    exact ⟨c, _, rfl, hc⟩

theorem text_eq_cons {k : Stratum} (a : Formula k) :
    ∃ c r, a.text = c :: r ∧ (isNameChar c = true ∨ c = '(') := by
  refine a.textWith_eq_cons fun w => ?_
  obtain ⟨c, r, hcons, hc⟩ := w.isVariable.start
  exact ⟨c, r, hcons, isNameChar_of_isNameStart hc⟩

end Formula

end Expression

/-! ## Rewritings -/

namespace Notation

/-- A rewriting that changes nothing in formulas but how the names are written. -/
structure Rewrites (f : List Char → List Char) (write write' : Name → List Char) : Prop where
  nil : f [] = []
  mark : ∀ {c}, isBlank c = true ∨ c ∈ leadingSigns → ∀ r, f (c :: r) = c :: f r
  close : ∀ {rest}, Border rest → f (')' :: rest) = ')' :: f rest
  number : ∀ (n : Number) {rest}, Border rest → f (n.text ++ rest) = n.text ++ f rest
  name : ∀ w {rest}, Border rest → f (write w ++ rest) = write' w ++ f rest

section Rewrites

variable {f : List Char → List Char} {write write' : Name → List Char}

theorem Rewrites.marks (hf : Rewrites f write write') {u : List Char}
    (hu : ∀ c ∈ u, isBlank c = true ∨ c ∈ leadingSigns) (r : List Char) : f (u ++ r) = u ++ f r := by
  induction u with
  | nil => rfl
  | cons c u ih =>
    rw [List.cons_append, hf.mark (hu c List.mem_cons_self), ih fun d hd => hu d (List.mem_cons_of_mem c hd)]
    rfl

theorem Rewrites.blanks (hf : Rewrites f write write') (b : Blanks) (r : List Char) :
    f (b.chars ++ r) = b.chars ++ f r :=
  hf.marks (fun c hc => Or.inl (b.blank c hc)) r

/-- **Each operand of a formula is rewritten by itself.** -/
theorem Rewrites.formula (hf : Rewrites f write write') {k : Stratum} (a : Formula k) {rest : List Char}
    (hrest : Border rest) : f (a.textWith write ++ rest) = a.textWith write' ++ f rest := by
  induction a generalizing rest with
  | number n blanks =>
    show f (n.text ++ blanks.chars ++ rest) = n.text ++ blanks.chars ++ f rest
    rw [List.append_assoc, hf.number n (hrest.append_blanks blanks.blank), hf.blanks, List.append_assoc]
  | name w blanks =>
    show f (write w ++ blanks.chars ++ rest) = write' w ++ blanks.chars ++ f rest
    rw [List.append_assoc, hf.name w (hrest.append_blanks blanks.blank), hf.blanks, List.append_assoc]
  | group front inside blanks ih =>
    have hblanks : Border (blanks.chars ++ rest) := hrest.append_blanks blanks.blank
    have hclose : Border (')' :: (blanks.chars ++ rest)) := border_cons (by decide) _
    simp only [Formula.textWith, List.cons_append, List.append_assoc]
    rw [hf.mark (.inr (by decide)), hf.blanks, ih hclose, hf.close hblanks, hf.blanks]
  | within h part ih => exact ih hrest
  | join op left front right ihl ihr =>
    have hsymbol : (∃ c r, op.symbol.toList = c :: r ∧ c ∈ borderSigns) ∧
        ∀ c ∈ op.symbol.toList, c ∈ leadingSigns := by
      cases op <;> exact ⟨⟨_, _, rfl, by decide⟩, by decide⟩
    obtain ⟨⟨c, r, hcons, hc⟩, hsigns⟩ := hsymbol
    have hborder : Border (op.symbol.toList ++ (front.chars ++ (right.textWith write ++ rest))) := by
      rw [hcons]
      exact border_cons hc _
    simp only [Formula.textWith, List.append_assoc]
    rw [ihl hborder, hf.marks fun d hd => Or.inr (hsigns d hd), hf.blanks, ihr hrest]

theorem Rewrites.whole (hf : Rewrites f write write') {k : Stratum} (a : Formula k) :
    f (a.textWith write) = a.textWith write' := by
  have hformula := hf.formula a border_nil
  rwa [hf.nil, List.append_nil, List.append_nil] at hformula

/-- A pattern that stops at borders rewrites names by themselves. -/
theorem rewrites_of_bordered {p : Pattern (List Char)} (hp : Bordered p)
    (hnumber : ∀ n : Number, StopsBehind p n.text ∧ p.substitute n.text = n.text)
    (hname : ∀ w, StopsBehind p (write w) ∧ p.substitute (write w) = write' w) :
    Rewrites p.substitute write write' where
  nil := rfl
  mark hc r := hp.substitute_cons hc r
  close hrest := by
    have hstops : StopsBehind p [')'] := by
      intro pre b rest hb hsplit _
      obtain ⟨c, r, rfl⟩ := List.exists_cons_of_ne_nil hb
      have hmem : c ∈ [')'] := by
        rw [hsplit]
        simp
      obtain rfl := List.mem_singleton.mp hmem
      rw [List.cons_append, hp.mark _ _ _ (.inr (by decide)), hp.mark _ _ _ (.inr (by decide))]
      rfl
    have hself : p.substitute [')'] = [')'] := by
      rw [Pattern.substitute, Pattern.scanFrom_of_none (hp.mark [] ')' [] (.inr (by decide)))]
      rfl
    have happend := hp.substitute_append hstops hrest
    rwa [hself] at happend
  number n rest hrest := by rw [hp.substitute_append (hnumber n).1 hrest, (hnumber n).2]
  name w rest hrest := by rw [hp.substitute_append (hname w).1 hrest, (hname w).2]

end Rewrites

/-! ## Numbers -/

/-- A letter that no number holds. -/
def isWordLetter (c : Char) : Bool := isSmall (fold c) && fold c != 'e'

theorem isWordLetter_of_mem_text {n : Number} {c : Char} (h : c ∈ n.text) : isWordLetter c = false := by
  rcases n.mem_text h with hdigit | hsign
  · rw [isWordLetter, isSmall_fold_of_isDecimal (isDecimal_of_isDigit hdigit), Bool.false_and]
  · have hsigns : ∀ d ∈ ".e+-".toList, isWordLetter d = false := by decide
    exact hsigns c hsign

/-- A pattern that fits at the beginning of some word needs a letter that no number holds. -/
theorem needs_of_infix {p : Pattern (List Char)} {ws : List (List Char)}
    (hws : ∀ w ∈ ws, (w.any fun k => isSmall k && k != 'e') = true)
    (h : ∀ ⦃before after m⦄, p before after = some m → ∃ w ∈ ws, w <:+: after.map fold) :
    Needs isWordLetter p := by
  intro before after m hm
  obtain ⟨w, hw, hinside⟩ := h hm
  obtain ⟨k, hk, hletter⟩ := List.any_eq_true.mp (hws w hw)
  obtain ⟨c, hc, rfl⟩ := List.mem_map.mp (hinside.subset hk)
  exact ⟨c, hc, hletter⟩

theorem needs_clockWord {word : List Char} (hword : word ∈ clockWords) (out : List Char) :
    Needs isWordLetter (clockWord word out) := by
  have hletters : ∀ w ∈ clockWords, IsKeyword w ∧ (w.any fun k => isSmall k && k != 'e') = true := by
    decide
  obtain ⟨hkeyword, hletter⟩ := hletters word hword
  refine needs_of_infix (List.forall_mem_singleton.mpr hletter) ?_
  rintro before after ⟨out', rest⟩ hm
  obtain ⟨a, rfl, ha⟩ := (stripKeyword?_eq_some_iff hkeyword.small).mp (clockWord_eq_some hm).2
  refine ⟨word, List.mem_singleton_self word, ?_⟩
  rw [List.map_append, ha]
  exact (List.prefix_append _ _).isInfix

theorem needs_span {w : SpanWords} (hw : w ∈ spanTable) : Needs isWordLetter (span w) := by
  have hletters : ∀ w ∈ spanTable, ∀ k ∈ w.words.map String.toList,
      (k.any fun c => isSmall c && c != 'e') = true := by decide
  refine needs_of_infix (hletters w hw) ?_
  intro before after m hm
  obtain ⟨-, k, hk, hinside⟩ := exists_of_span hw hm
  exact ⟨k.toList, List.mem_map_of_mem hk, hinside⟩

theorem letter_of_symbol : ∀ s ∈ MeasureUnit.table.map fun u => u.symbol.toList.map fold,
    (s.any fun k => isSmall k && k != 'e') = true := by
  decide

theorem needs_quantity : Needs isWordLetter quantity := by
  refine needs_of_infix letter_of_symbol ?_
  intro before after m hm
  obtain ⟨-, u, hu, hinside⟩ := exists_of_quantity hm
  exact ⟨_, List.mem_map_of_mem hu, hinside.map fold⟩

theorem needs_bareUnit : Needs isWordLetter bareUnit := by
  refine needs_of_infix letter_of_symbol ?_
  intro before after m hm
  obtain ⟨⟨symbol, rest⟩, hread, -⟩ := Option.map_eq_some_iff.mp hm
  unfold unitToken at hread
  split at hread
  · obtain ⟨rfl, u, hu, rfl⟩ := eq_symbol_of_stripUnit? hread
    refine ⟨_, List.mem_map_of_mem hu, ?_⟩
    rw [List.map_append]
    exact (List.prefix_append _ _).isInfix
  · cases hread

theorem Needs.substitute_number {p : Pattern (List Char)} (hp : Needs isWordLetter p) (n : Number) :
    p.substitute n.text = n.text :=
  hp.substitute fun _ hc => isWordLetter_of_mem_text hc

theorem stopsBehind_quantity_number (n : Number) : StopsBehind quantity n.text := by
  refine stopsBehind_quantity fun c hc hletter => ?_
  have hdigit := n.last_text c hc
  simp only [List.mem_cons, List.not_mem_nil, or_false] at hletter
  rcases hletter with rfl | rfl <;> exact absurd hdigit (by decide)

/-! ## Names -/

/-- A pattern that fits at no place but where a number begins. -/
def FitsAtNumbers (p : Pattern (List Char)) : Prop :=
  ∀ ⦃before after m⦄, p before after = some m →
    wordStart before after = true ∧ ∃ c r, after = c :: r ∧ isDecimal c = true

section FitsAtNumbers

variable {p : Pattern (List Char)} {s : List Char}

/-- In a text without numbers it fits nowhere, whatever stands behind the text. -/
theorem FitsAtNumbers.eq_none (hp : FitsAtNumbers p) (hs : NoNumber s) {pre b : List Char}
    (hsplit : s = pre ++ b) (hb : b ≠ []) (rest : List Char) : p pre.reverse (b ++ rest) = none := by
  obtain ⟨c, r, rfl⟩ := List.exists_cons_of_ne_nil hb
  cases hmatch : p pre.reverse (c :: r ++ rest) with
  | none => rfl
  | some m =>
    obtain ⟨hstart, d, u, hd, hdecimal⟩ := hp hmatch
    obtain ⟨rfl, -⟩ := List.cons.inj hd
    rw [hs pre c r hsplit (edge_of_wordStart hstart (isWordChar_of_isDecimal hdecimal))] at hdecimal
    cases hdecimal

theorem FitsAtNumbers.stopsBehind (hp : FitsAtNumbers p) (hs : NoNumber s) : StopsBehind p s := by
  intro pre b rest hb hsplit _
  have hempty := hp.eq_none hs hsplit hb []
  rw [List.append_nil] at hempty
  rw [hp.eq_none hs hsplit hb, hempty]
  rfl

theorem FitsAtNumbers.substitute (hp : FitsAtNumbers p) (hs : NoNumber s) : p.substitute s = s := by
  refine Pattern.substitute_eq_self_of_none fun pre c r hsplit => ?_
  have hempty := hp.eq_none hs hsplit (List.cons_ne_nil c r) []
  rwa [List.append_nil] at hempty

end FitsAtNumbers

theorem fitsAtNumbers_span {w : SpanWords} (hw : w ∈ spanTable) : FitsAtNumbers (span w) :=
  fun _ _ _ hm => (exists_of_span hw hm).1

theorem fitsAtNumbers_quantity : FitsAtNumbers quantity := fun _ _ _ hm => (exists_of_quantity hm).1

theorem isDecimal_of_isNameStart {c : Char} (h : isNameStart c = true) : isDecimal c = false := by
  have hcode := toNat_of_isNameChar (isNameChar_of_isNameStart h)
  have hascii : c.toNat < 0x80 := by omega
  rw [isDecimal, if_pos hascii]
  exact isDigit_of_isNameStart h

/-- No digit begins a name. -/
theorem isNameStart_of_isDecimal {c : Char} (h : isDecimal c = true) : isNameStart c = false := by
  rw [Bool.eq_false_iff]
  intro hstart
  rw [isDecimal_of_isNameStart hstart] at h
  cases h

section Names

variable (w : Name)

theorem isNameChar_of_mem_name {c : Char} (hc : c ∈ w.chars) : isNameChar c = true :=
  w.isVariable.chars c hc

theorem words_name : words w.chars = [w.chars] :=
  words_eq_singleton fun _ hc => isWordChar_of_isNameChar (isNameChar_of_mem_name w hc)

theorem name_ne_nil : w.chars ≠ [] := by
  obtain ⟨c, r, hcons, -⟩ := w.isVariable.start
  rw [Name.chars, hcons]
  exact List.cons_ne_nil c r

/-- The one word that a name is does not begin with a digit. -/
theorem noNumber_name : NoNumber w.chars := by
  obtain ⟨d, u, hcons, hstart⟩ := w.isVariable.start
  intro pre c r hsplit hedge
  cases pre using List.reverseRecOn with
  | nil =>
    rw [Name.chars, hcons] at hsplit
    obtain ⟨rfl, -⟩ := List.cons.inj hsplit
    exact isDecimal_of_isNameStart hstart
  | append_singleton pre d =>
    have hchar : isNameChar d = true := isNameChar_of_mem_name w (by rw [hsplit]; simp)
    have hword := hedge d List.getLast?_concat
    rw [isWordChar_of_isNameChar hchar] at hword
    cases hword

theorem not_mem_name {c : Char} (hc : isNameChar c = false) : c ∉ w.chars := by
  intro hmem
  rw [isNameChar_of_mem_name w hmem] at hc
  cases hc

end Names

/-! ## What names become -/

/-- A call that stands for a name: its arguments are literals, and no call is found in them. -/
structure NameCall where
  /-- The function. -/
  function : String
  /-- The arguments, up to the closing parenthesis. -/
  args : List Char
  /-- The tokens of the arguments. -/
  tokens : List Token
  /-- The expressions that they are. -/
  exprs : List Expr
  known : function ∈ constructorNames
  nonempty : tokens ≠ []
  denotes : List.Forall₂ Denotes tokens exprs
  at_not_mem : '@' ∉ args
  bound : ∀ isFunction {rest}, Border rest → bindCalls isFunction (args ++ rest) = args ++ bindCalls isFunction rest
  reads : ∀ {mode : Mode} (rest), mode.afterOperand = false → tokensFrom? mode 0 (args ++ rest)
    = (tokensFrom? { mode with afterOperand := true } 0 rest).map fun ts => arguments tokens ++ ts

/-- How the call is written. -/
def NameCall.text (c : NameCall) : List Char := c.function.toList ++ '(' :: c.args

theorem bindCalls_append (isFunction : String → Bool) {a rest : List Char} (hquote : '"' ∉ a) (hparen : '(' ∉ a)
    (hrest : Border rest) : bindCalls isFunction (a ++ rest) = a ++ bindCalls isFunction rest := by
  have hself : (boundCall isFunction).substitute a = a :=
    boundCall_eq_self isFunction fun hmem => hparen (List.mem_of_mem_tail hmem)
  unfold bindCalls
  rw [(bordered_boundCall isFunction).mapPlain_append (stopsBehind_boundCall isFunction a) hquote hrest, hself]

theorem tokensFrom?_integers {ns : List Int} (hne : ns ≠ []) {mode : Mode} (hmode : mode.afterOperand = false)
    (rest : List Char) :
    tokensFrom? mode 0 (List.intercalate [',', ' '] (ns.map showInt) ++ ')' :: rest)
      = (tokensFrom? { mode with afterOperand := true } 0 rest).map
        fun ts => arguments (ns.map integerToken) ++ ts := by
  have hclose : Stops (')' :: rest) := by
    rintro c ⟨⟩
    decide
  have hcomma : ∀ r, Stops (',' :: r) := by
    rintro r c ⟨⟩
    decide
  obtain ⟨afterOperand, braces⟩ := mode
  obtain rfl : afterOperand = false := hmode
  induction ns with
  | nil => exact absurd rfl hne
  | cons n ns ih =>
    cases ns with
    | nil =>
      have htext : List.intercalate [',', ' '] ([n].map showInt) = showInt n := by simp [List.intercalate]
      rw [htext, tokensFrom?_showInt rfl n hclose, tokensFrom?_close, Option.map_map]
      rfl
    | cons m ns =>
      have htext : List.intercalate [',', ' '] ((n :: m :: ns).map showInt) ++ ')' :: rest
          = showInt n ++ ',' :: ' ' :: (List.intercalate [',', ' '] ((m :: ns).map showInt) ++ ')' :: rest) := by
        simp [List.intercalate]
      rw [htext, tokensFrom?_showInt rfl n (hcomma _), tokensFrom?_comma, tokensFrom?_space]
      dsimp only
      rw [ih (List.cons_ne_nil m ns), Option.map_map, Option.map_map]
      rfl

/-- A call with integers. -/
def NameCall.integers (name : String) (hname : name ∈ constructorNames) (ns : List Int) (hne : ns ≠ []) :
    NameCall where
  function := name
  args := List.intercalate [',', ' '] (ns.map showInt) ++ [')']
  tokens := ns.map integerToken
  exprs := ns.map fun n => literal (integerToken n)
  known := hname
  nonempty := by simpa using hne
  denotes := by
    rw [List.forall₂_map_left_iff, List.forall₂_map_right_iff, List.forall₂_same]
    exact fun n _ => (isNumber_integerToken n).denotes
  at_not_mem := by
    refine List.not_mem_append (not_mem_intercalate (by decide) fun part hpart hmem => ?_) (by decide)
    obtain ⟨n, -, rfl⟩ := List.mem_map.mp hpart
    exact absurd (isArgChar_of_mem_showInt hmem) (by decide)
  bound isFunction rest hrest := by
    have hchars : ∀ c, isArgChar c = false → c ∉ List.intercalate [',', ' '] (ns.map showInt) ++ [')'] := by
      intro c hc hmem
      refine absurd ?_ (ne_true_of_eq_false hc)
      rcases List.mem_append.mp hmem with hmem | hmem
      · rcases mem_intercalate hmem with hmem | ⟨part, hpart, hmem⟩
        · have hsep : ∀ c ∈ [',', ' '], isArgChar c = true := by decide
          exact hsep c hmem
        · obtain ⟨n, -, rfl⟩ := List.mem_map.mp hpart
          exact isArgChar_of_mem_showInt hmem
      · rw [List.mem_singleton.mp hmem]
        decide
    exact bindCalls_append isFunction (hchars _ (by decide)) (hchars _ (by decide)) hrest
  reads rest hmode := by
    rw [List.append_assoc]
    exact tokensFrom?_integers hne hmode rest

/-- A call with a text. -/
def NameCall.quoted (name : String) (hname : name ∈ constructorNames) (s : List Char) (hs : IsQuotable s)
    (hat : '@' ∉ s) : NameCall where
  function := name
  args := inQuotes s ++ [')']
  tokens := [.text (String.ofList s)]
  exprs := [.text (String.ofList s)]
  known := hname
  nonempty := List.cons_ne_nil _ _
  denotes := .cons (.text _) .nil
  at_not_mem := by simp [inQuotes, hat]
  bound isFunction rest hrest := by
    have hliteral := mapPlain_append_literal (boundCall isFunction).substitute List.not_mem_nil
      (isLiteral_inQuotes hs.quote hs.escape) ([')'] ++ rest)
    have hclose := bindCalls_append isFunction (a := [')']) (by decide) (by decide) hrest
    rw [List.append_assoc]
    refine hliteral.trans ?_
    show inQuotes s ++ bindCalls isFunction ([')'] ++ rest) = _
    rw [hclose, List.append_assoc]
  reads rest hmode := by
    rw [List.append_assoc, tokensFrom?_inQuotes hs _ (by simp)]
    show Option.map _ (tokensFrom? _ 0 (')' :: rest)) = _
    rw [tokensFrom?_close, Option.map_map]
    rfl

/-- Is the name the symbol of a unit, where they are looked for? -/
def IsUnit (o : Options) (w : Name) : Prop :=
  o.naturalUnits = true ∧ ∃ u ∈ MeasureUnit.table, u.symbol.toList = w.chars

instance (o : Options) (w : Name) : Decidable (IsUnit o w) := inferInstanceAs (Decidable (_ ∧ _))

/-- The call that a word of the clock stands for. -/
def clockCall? (now : DateTime) (w : Name) : Option NameCall :=
  if w.chars.map fold = "today".toList then
    some (.integers "date" (by decide) [now.date.year, now.date.month, now.date.day] (by simp))
  else if w.chars.map fold = "now".toList then
    some (.integers "datetime" (by decide)
      [now.date.year, now.date.month, now.date.day, now.hour, now.minute, now.second] (by simp))
  else none

theorem quotable_name (w : Name) : IsQuotable w.chars ∧ '@' ∉ w.chars :=
  ⟨⟨not_mem_name w (by decide), not_mem_name w (by decide), not_mem_name w (by decide),
    not_mem_name w (by decide)⟩, not_mem_name w (by decide)⟩

/-- The call that a name stands for, if it is none of a variable. -/
def nameCall? (o : Options) (w : Name) : Option NameCall :=
  match clockCall? o.now w with
  | some c => some c
  | none =>
    if IsUnit o w then some (.quoted "unit" (by decide) w.chars (quotable_name w).1 (quotable_name w).2)
    else none

/-- Where no units are looked for, only words of the clock are calls. -/
theorem nameCall?_eq_clockCall? {o : Options} (hnatural : o.naturalUnits = false) (w : Name) :
    nameCall? o w = clockCall? o.now w := by
  have hunit : ¬IsUnit o w := by
    rintro ⟨htrue, -⟩
    rw [hnatural] at htrue
    cases htrue
  unfold nameCall?
  rw [if_neg hunit]
  cases clockCall? o.now w <;> rfl

/-- How a name is written if it stands for a call. -/
def writtenAs (call? : Name → Option NameCall) (w : Name) : List Char :=
  match call? w with
  | some c => c.text
  | none => w.chars

/-! ## The rules in formulas -/

theorem text_integers (name : String) (hname : name ∈ constructorNames) (ns : List Int) (hne : ns ≠ []) :
    (NameCall.integers name hname ns hne).text = numericCall name ns := by
  simp [NameCall.text, NameCall.integers, numericCall]

/-- The rules for numbers with words behind them and for units find nothing in the call of the clock. -/
theorem untouched_clockCall (o : Options) {now : DateTime} {w : Name} {c : NameCall}
    (hc : clockCall? now w = some c) : Untouched o c.text ∧ '@' ∉ c.text := by
  unfold clockCall? at hc
  split at hc
  · cases hc
    rw [text_integers]
    exact untouched_numericCall (by decide) _
  · split at hc
    · cases hc
      rw [text_integers]
      exact untouched_numericCall (by decide) _
    · cases hc

theorem last_clockCall {now : DateTime} {w : Name} {c : NameCall} (hc : clockCall? now w = some c) :
    c.text.getLast? = some ')' := by
  have hlast : ∀ name hname ns hne, (NameCall.integers name hname ns hne).text.getLast? = some ')' := by
    intro name hname ns hne
    rw [text_integers, numericCall]
    exact List.getLast?_concat
  unfold clockCall? at hc
  split at hc
  · cases hc
    exact hlast ..
  · split at hc
    · cases hc
      exact hlast ..
    · cases hc

section Clock

variable (now : DateTime)

/-- How names are written behind the rule for the first word of the clock. -/
def todayWritten (w : Name) : List Char :=
  if w.chars.map fold = "today".toList then dateCall now else w.chars

theorem substitute_clockWord_name {word : List Char} (hword : IsKeyword word) (out : List Char) (w : Name) :
    (clockWord word out).substitute w.chars = if w.chars.map fold = word then out else w.chars := by
  split
  · next hfold => exact Spells.clockWord ⟨hword, hfold⟩ out
  · next hfold =>
    refine clockWord_substitute_eq_self out hword ?_
    rw [words_name]
    exact List.forall_mem_singleton.mpr hfold

theorem rewrites_today :
    Rewrites (clockWord "today".toList (dateCall now)).substitute Name.chars (todayWritten now) :=
  rewrites_of_bordered (bordered_clockWord isKeyword_words.1 _)
    (fun n => ⟨stopsBehind_clockWord isKeyword_words.1 _ _, (needs_clockWord (by decide) _).substitute_number n⟩)
    fun w => ⟨stopsBehind_clockWord isKeyword_words.1 _ _, substitute_clockWord_name isKeyword_words.1 _ w⟩

theorem rewrites_now : Rewrites (clockWord "now".toList (dateTimeCall now)).substitute (todayWritten now)
    (writtenAs (clockCall? now)) := by
  refine rewrites_of_bordered (bordered_clockWord isKeyword_words.2.1 _)
    (fun n => ⟨stopsBehind_clockWord isKeyword_words.2.1 _ _, (needs_clockWord (by decide) _).substitute_number n⟩)
    fun w => ⟨stopsBehind_clockWord isKeyword_words.2.1 _ _, ?_⟩
  by_cases htoday : w.chars.map fold = "today".toList
  · have hcall : Untouched ⟨now, false⟩ (dateCall now) := (untouched_numericCall (by decide) _).1
    have hwritten : writtenAs (clockCall? now) w = dateCall now := by
      rw [writtenAs, clockCall?, if_pos htoday]
      exact text_integers ..
    rw [todayWritten, if_pos htoday, hwritten]
    exact clockWord_substitute_eq_self _ isKeyword_words.2.1
      fun v hv heq => hcall.clock v hv (by rw [heq]; decide)
  · rw [todayWritten, if_neg htoday, substitute_clockWord_name isKeyword_words.2.1, writtenAs, clockCall?,
      if_neg htoday]
    split
    · exact (text_integers ..).symm
    · rfl

/-- A pattern that fits at numbers only changes no name. -/
theorem rewrites_of_fitsAtNumbers {p : Pattern (List Char)} (hp : Bordered p) (hfits : FitsAtNumbers p)
    (hneeds : Needs isWordLetter p) (hnumber : ∀ n : Number, StopsBehind p n.text)
    (hcall : ∀ {w c}, clockCall? now w = some c → StopsBehind p c.text ∧ p.substitute c.text = c.text) :
    Rewrites p.substitute (writtenAs (clockCall? now)) (writtenAs (clockCall? now)) := by
  refine rewrites_of_bordered hp (fun n => ⟨hnumber n, hneeds.substitute_number n⟩) fun w => ?_
  unfold writtenAs
  split
  · next c hc => exact hcall hc
  · exact ⟨hfits.stopsBehind (noNumber_name w), hfits.substitute (noNumber_name w)⟩

theorem rewrites_span {s : SpanWords} (hs : s ∈ spanTable) :
    Rewrites (span s).substitute (writtenAs (clockCall? now)) (writtenAs (clockCall? now)) :=
  rewrites_of_fitsAtNumbers now (bordered_span s) (fitsAtNumbers_span hs) (needs_span hs)
    (fun _ => stopsBehind_span hs _)
    fun hc => ⟨stopsBehind_span hs _, (untouched_clockCall ⟨now, false⟩ hc).1.span hs⟩

theorem rewrites_quantity :
    Rewrites quantity.substitute (writtenAs (clockCall? now)) (writtenAs (clockCall? now)) := by
  refine rewrites_of_fitsAtNumbers now bordered_quantity fitsAtNumbers_quantity needs_quantity
    stopsBehind_quantity_number fun {w c} hc => ⟨stopsBehind_quantity fun d hd => ?_, ?_⟩
  · rw [last_clockCall hc, Option.mem_some_iff] at hd
    rw [← hd]
    decide
  · exact (untouched_clockCall ⟨now, false⟩ hc).1.quantity

end Clock

theorem rewrites_bareUnit {o : Options} (hnatural : o.naturalUnits = true) :
    Rewrites bareUnit.substitute (writtenAs (clockCall? o.now)) (writtenAs (nameCall? o)) := by
  refine rewrites_of_bordered bordered_bareUnit
    (fun n => ⟨stopsBehind_bareUnit _, needs_bareUnit.substitute_number n⟩)
    fun w => ⟨stopsBehind_bareUnit _, ?_⟩
  unfold writtenAs nameCall?
  cases hc : clockCall? o.now w with
  | some c => exact bareUnit_substitute_eq_self ((untouched_clockCall o hc).1.unit hnatural)
  | none =>
    dsimp only
    split
    · next hcall =>
      split at hcall
      · next hunit =>
        obtain ⟨-, u, hu, hsymbol⟩ := hunit
        cases hcall
        have hwritten := bareUnit_symbol hu
        rw [hsymbol] at hwritten
        rw [hwritten]
        simp [unitCall, NameCall.text, NameCall.quoted]
      · cases hcall
    · next hcall =>
      split at hcall
      · cases hcall
      · next hunit =>
        refine bareUnit_substitute_eq_self fun u hu hmem => hunit ⟨hnatural, u, hu, ?_⟩
        rw [words_name] at hmem
        exact List.mem_singleton.mp hmem

/-- A character that a formula has in no blank, sign or number, and in none of its names. -/
theorem not_mem_textWith {write : Name → List Char} {m : Char}
    (hm : isBlank m = false ∧ m ∉ ')' :: openingSigns ∧ isDigit m = false ∧ m ∉ ".e+-".toList)
    (hwrite : ∀ w, m ∉ write w) {k : Stratum} (a : Formula k) : m ∉ a.textWith write := by
  obtain ⟨hblank, hsign, hdigit, hnumber⟩ := hm
  intro hmem
  refine a.forall_mem_textWith (P := fun c => c ≠ m) ?_ ?_ ?_ ?_ m hmem rfl
  · rintro c hc rfl
    rw [hc] at hblank
    cases hblank
  · rintro c hc rfl
    exact hsign hc
  · rintro n c hc rfl
    rcases n.mem_text hc with hc | hc
    · rw [hc] at hdigit
      cases hdigit
    · exact hnumber hc
  · rintro w c hc rfl
    exact hwrite w hc

theorem not_mem_writtenAs {call? : Name → Option NameCall} {m : Char} (hm : isNameChar m = false)
    (hcall : ∀ w c, call? w = some c → m ∉ c.text) (w : Name) : m ∉ writtenAs call? w := by
  unfold writtenAs
  split
  · next c hc => exact hcall w c hc
  · exact not_mem_name w hm

theorem at_not_mem_call (c : NameCall) : '@' ∉ c.text := by
  have hnames : ∀ n ∈ constructorNames, '@' ∉ n.toList := by decide
  simp [NameCall.text, hnames _ c.known, c.at_not_mem]

section Stages

/-- A text with names in it, each of which is rewritten by itself. -/
structure Rewritable (text : (Name → List Char) → List Char) : Prop where
  rewrite : ∀ {f write write'}, Rewrites f write write' → f (text write) = text write'
  not_mem : ∀ {write : Name → List Char} {m : Char}, m ∈ ['"', '@'] → (∀ w, m ∉ write w) → m ∉ text write

/-- The rules behind the one for decimals make calls of names, and change nothing else. -/
theorem Rewritable.lateStages {text : (Name → List Char) → List Char} (h : Rewritable text) (o : Options) :
    lateStages o (text Name.chars) = text (writtenAs (nameCall? o)) := by
  have hquote : '"' ∉ text Name.chars := h.not_mem (by decide) fun w => not_mem_name w (by decide)
  have hquote' : '"' ∉ text (writtenAs (clockCall? o.now)) := h.not_mem (by decide)
    (not_mem_writtenAs (by decide) fun _ _ hc => (untouched_clockCall o hc).1.quote)
  have hclock : clockStage o.now (text Name.chars) = text (writtenAs (clockCall? o.now)) := by
    unfold clockStage substituteAll
    rw [mapPlain_of_not_mem _ hquote]
    show Pattern.substitute _ (Pattern.substitute _ (text Name.chars)) = _
    rw [h.rewrite (rewrites_today o.now), h.rewrite (rewrites_now o.now)]
  have hspan : spanStage (text (writtenAs (clockCall? o.now))) = text (writtenAs (clockCall? o.now)) := by
    unfold spanStage substituteAll
    rw [mapPlain_of_not_mem _ hquote']
    refine foldl_substitute_eq_self fun p hp => ?_
    obtain ⟨s, hs, rfl⟩ := List.mem_map.mp hp
    exact h.rewrite (rewrites_span o.now hs)
  have hunits : unitsWithin false o (text (writtenAs (clockCall? o.now))) = text (writtenAs (nameCall? o)) := by
    unfold unitsWithin
    cases hnatural : o.naturalUnits with
    | false =>
      have hsame : nameCall? o = clockCall? o.now := funext (nameCall?_eq_clockCall? hnatural)
      rw [hsame]
      rfl
    | true =>
      show mapPlain _ (mapPlain _ _) = _
      rw [mapPlain_of_not_mem _ hquote', h.rewrite (rewrites_quantity o.now), mapPlain_of_not_mem _ hquote',
        h.rewrite (rewrites_bareUnit hnatural)]
  have hat : '@' ∉ text (writtenAs (nameCall? o)) := h.not_mem (by decide)
    (not_mem_writtenAs (by decide) fun _ c _ => at_not_mem_call c)
  rw [Notation.lateStages, hclock, hspan, hunits, stackStage_eq_self hat]

variable {k : Stratum} (a : Formula k)

theorem rewritable_formula : Rewritable fun write => a.textWith write where
  rewrite hf := hf.whole a
  not_mem hm hwrite := by
    have hall : ∀ m ∈ ['"', '@'], isBlank m = false ∧ m ∉ ')' :: openingSigns ∧ isDigit m = false ∧
        m ∉ ".e+-".toList := by decide
    exact not_mem_textWith (hall _ hm) hwrite a

theorem lateStages_text (o : Options) : lateStages o a.text = a.textWith (writtenAs (nameCall? o)) :=
  (rewritable_formula a).lateStages o

/-- Without blanks at its end a formula passes the rules in front of the one for the clock. -/
theorem expand_text (o : Options) (htrim : trim a.text = a.text) :
    expand o a.text = a.textWith (writtenAs (nameCall? o)) := by
  have hmarks : ∀ c ∈ a.text, c ∉ marks := by
    intro c hc hmark
    refine absurd hc (not_mem_textWith ?_ (fun w => not_mem_name w ?_) a)
    · have hall : ∀ m ∈ marks, isBlank m = false ∧ m ∉ ')' :: openingSigns ∧ isDigit m = false ∧
          m ∉ ".e+-".toList := by decide
      exact hall c hmark
    · have hall : ∀ m ∈ marks, isNameChar m = false := by decide
      exact hall c hmark
  rw [expand_of_marks o htrim hmarks, lateStages_text]

end Stages

/-! ## Calls of declared functions -/

/-- How a name is written when calls of declared functions are known. -/
def boundAs (isFunction : String → Bool) (call? : Name → Option NameCall) (w : Name) : List Char :=
  match call? w with
  | some c => callText isFunction c.function.toList [] ++ c.args
  | none => w.chars

theorem bindCalls_nil (isFunction : String → Bool) : bindCalls isFunction [] = [] :=
  bindCalls_eq_self isFunction List.not_mem_nil

theorem rewrites_bindCalls (isFunction : String → Bool) (call? : Name → Option NameCall) :
    Rewrites (bindCalls isFunction) (writtenAs call?) (boundAs isFunction call?) where
  nil := bindCalls_nil isFunction
  mark hc r := (bordered_boundCall isFunction).mapPlain_cons hc r
  close hrest := bindCalls_append isFunction (a := [')']) (by decide) (by decide) hrest
  number n rest hrest := by
    have hchars : ∀ c, isDigit c = false → c ∉ ".e+-".toList → c ∉ n.text := by
      intro c hdigit hsign hmem
      rcases n.mem_text hmem with hc | hc
      · rw [hc] at hdigit
        cases hdigit
      · exact hsign hc
    exact bindCalls_append isFunction (hchars _ (by decide) (by decide)) (hchars _ (by decide) (by decide)) hrest
  name w rest hrest := by
    unfold writtenAs boundAs
    split
    · next c hc =>
      have hcall := bindCalls_call isFunction (isCall_of_mem c.known List.not_mem_nil (by simp)) (c.args ++ rest)
      rw [bindCalls_nil, List.nil_append, List.nil_append, List.nil_append, c.bound isFunction hrest] at hcall
      show bindCalls isFunction (c.function.toList ++ '(' :: c.args ++ rest) = _
      rw [List.append_assoc, List.append_assoc]
      exact hcall
    · exact bindCalls_append isFunction (not_mem_name w (by decide)) (not_mem_name w (by decide)) hrest

/-! ## Tokens -/

section Tokens

theorem tokensFrom?_blanks {blanks : List Char} (hblanks : ∀ c ∈ blanks, isBlank c = true) (mode : Mode)
    (rest : List Char) : tokensFrom? mode 0 (blanks ++ rest) = tokensFrom? mode 0 rest := by
  induction blanks with
  | nil => rfl
  | cons c blanks ih =>
    have hread : readToken? mode (c :: ([] ++ (blanks ++ rest))) = some (none, mode, blanks ++ rest) := by
      unfold readToken?
      simp [hblanks c List.mem_cons_self]
    have htokens := tokensFrom?_of_read hread
    rw [List.nil_append, ih fun d hd => hblanks d (List.mem_cons_of_mem c hd)] at htokens
    rw [List.cons_append, htokens]
    cases tokensFrom? mode 0 rest <;> rfl

/-- A character that an operand begins with, or a blank. -/
def Opens (c : Char) : Prop := isBlank c = true ∨ isNameChar c = true ∨ c = '('

theorem Opens.not_mem {c : Char} (hc : Opens c) : c ∉ secondSigns := by
  have hnone : ∀ d ∈ secondSigns, isBlank d = false ∧ isNameChar d = false ∧ d ≠ '(' := by decide
  intro hmem
  obtain ⟨hblank, hname, hparen⟩ := hnone c hmem
  rcases hc with h | h | h
  · rw [h] at hblank
    cases hblank
  · rw [h] at hname
    cases hname
  · exact hparen h

/-- A sign that nothing but a second sign could make another one of. -/
theorem tokensFrom?_sign {c d : Char} (hc : c ∈ ['+', '-', '*']) (hd : d ∉ secondSigns) (braces : List Nat)
    (rest : List Char) :
    tokensFrom? ⟨true, braces⟩ 0 (c :: d :: rest)
      = (tokensFrom? ⟨false, braces⟩ 0 (d :: rest)).map fun ts => .symbol (String.singleton c) :: ts := by
  have hread : readToken? ⟨true, braces⟩ (c :: ([] ++ d :: rest))
      = some (some (.symbol (String.singleton c)), ⟨false, braces⟩, d :: rest) := by
    have hone := readSymbol?_one (c := c) (by revert hc; revert c; decide) hd rest
    simp only [List.mem_cons, List.not_mem_nil, or_false] at hc
    rcases hc with rfl | rfl | rfl
    all_goals
      show (readSymbol? _).bind _ = _
      rw [List.nil_append, hone]
      rfl
  exact tokensFrom?_of_read hread

/-- An operator that an operand stands behind is one sign. -/
theorem tokensFrom?_operator {k l r : Stratum} (op : Join k l r) {mode : Mode} (hmode : mode.afterOperand = true)
    {d : Char} (hd : Opens d) (rest : List Char) :
    tokensFrom? mode 0 (op.symbol.toList ++ d :: rest)
      = (tokensFrom? { mode with afterOperand := false } 0 (d :: rest)).map
        fun ts => .symbol op.symbol :: ts := by
  obtain ⟨afterOperand, braces⟩ := mode
  obtain rfl : afterOperand = true := hmode
  have hsecond := hd.not_mem
  -- a slash may begin a comment, and two stars are one sign
  cases op with
  | add => exact tokensFrom?_sign (by decide) hsecond braces rest
  | sub => exact tokensFrom?_sign (by decide) hsecond braces rest
  | mul => exact tokensFrom?_sign (by decide) hsecond braces rest
  | div =>
    have hsymbol := readSymbol?_one (c := '/') (by decide) hsecond rest
    have hcomment : d ≠ '/' ∧ d ≠ '*' := by
      constructor <;> rintro rfl <;> exact hsecond (by decide)
    have hread : readToken? ⟨true, braces⟩ ('/' :: ([] ++ d :: rest))
        = some (some (.symbol "/"), ⟨false, braces⟩, d :: rest) := by
      unfold readToken?
      simp [hsymbol, hcomment]
      rfl
    exact tokensFrom?_of_read hread
  | pow =>
    have hread : readToken? ⟨true, braces⟩ ('*' :: (['*'] ++ d :: rest))
        = some (some (.symbol "**"), ⟨false, braces⟩, d :: rest) := by
      show (readSymbol? ('*' :: '*' :: d :: rest)).bind _ = _
      rw [readSymbol?_power hsecond]
      rfl
    exact tokensFrom?_of_read hread

theorem Border.stops {rest : List Char} (hrest : Border rest) : Stops rest := by
  intro c hc
  obtain ⟨hword, -, hpoint, -⟩ := hrest.head c hc
  exact ⟨isNameChar_of_not_isWordChar hword, hpoint⟩

theorem readNumber?_text (n : Number) {rest : List Char} (hrest : Stops rest) :
    readNumber? false (n.text ++ rest) = some (n.token, rest) := by
  have hread : ReadUpTo n.whole.chars (fractionText n.fraction) (n.fraction.map Decimals.chars) :=
    readUpTo_digits n.whole_digits n.fraction_digits
  unfold Numeral.text Number.token
  rw [List.append_assoc, List.append_assoc]
  cases hexponent : n.exponent with
  | none =>
    rw [exponentText, List.nil_append, hread _ hrest.endsFraction, hrest.afterExponent?]
    rfl
  | some e =>
    obtain ⟨hletter, hdigits⟩ := n.exponent_digits e hexponent
    have hvalue := afterExponent?_digits e.sign_eq hdigits.digits hrest hdigits.nonempty
    have htext : exponentText (some e) ++ rest = 'e' :: (e.sign.toList ++ (e.digits.chars ++ rest)) := by
      simp [exponentText, Exponent.text, hletter]
    have hends : EndsFraction ('e' :: (e.sign.toList ++ (e.digits.chars ++ rest))) := by
      refine ⟨?_, rfl⟩
      rintro c ⟨⟩
      decide
    rw [htext, hread _ hends, hvalue]
    rfl

theorem tokensFrom?_number (n : Number) (mode : Mode) {rest : List Char} (hrest : Stops rest) :
    tokensFrom? mode 0 (n.text ++ rest)
      = (tokensFrom? { mode with afterOperand := true } 0 rest).map fun ts => n.token :: ts := by
  have hread := readNumber?_text n hrest
  unfold Numeral.text at hread ⊢
  rw [List.append_assoc] at hread ⊢
  exact tokensFrom?_digits mode n.whole_digits hread

/-- Names that are written so as to be read as the operands that they stand for. -/
structure Written (names : Naming) (write : Name → List Char) : Prop where
  starts : ∀ w, ∃ c r, write w = c :: r ∧ isNameChar c = true
  reads : ∀ w mode {rest}, Border rest → tokensFrom? mode 0 (write w ++ rest)
    = (tokensFrom? { mode with afterOperand := true } 0 rest).map fun ts => names.tokens w ++ ts

section Written

variable {names : Naming} {write : Name → List Char}

theorem Written.opens (h : Written names write) {k : Stratum} (a : Formula k) :
    ∃ c r, a.textWith write = c :: r ∧ Opens c := by
  obtain ⟨c, r, hcons, hc⟩ := a.textWith_eq_cons h.starts
  exact ⟨c, r, hcons, .inr hc⟩

/-- **The tokens of a formula as it is written.** -/
theorem Written.tokensFrom?_formula (h : Written names write) {k : Stratum} (a : Formula k) (mode : Mode)
    {rest : List Char} (hrest : Border rest) :
    tokensFrom? mode 0 (a.textWith write ++ rest)
      = (tokensFrom? { mode with afterOperand := true } 0 rest).map fun ts => a.tokens names ++ ts := by
  induction a generalizing mode rest with
  | number n blanks =>
    have hstops := (hrest.append_blanks blanks.blank).stops
    rw [Formula.textWith, List.append_assoc, tokensFrom?_number n mode hstops, tokensFrom?_blanks blanks.blank]
    rfl
  | name w blanks =>
    rw [Formula.textWith, List.append_assoc, h.reads w mode (hrest.append_blanks blanks.blank),
      tokensFrom?_blanks blanks.blank]
    rfl
  | group front inside blanks ih =>
    have hclose : Border (')' :: (blanks.chars ++ rest)) := border_cons (by decide) _
    simp only [Formula.textWith, List.cons_append, List.append_assoc]
    rw [tokensFrom?_open, tokensFrom?_blanks front.blank, ih _ hclose, tokensFrom?_close,
      tokensFrom?_blanks blanks.blank]
    simp [Option.map_map, Function.comp_def, Formula.tokens]
  | within h part ih => exact ih mode hrest
  | join op left front right ihl ihr =>
    have hborder : ∀ r, Border (op.symbol.toList ++ r) := by
      intro r
      cases op <;> exact border_cons (by decide) _
    -- the operator stands in front of a blank or of the right operand
    have hopens : ∃ c r, front.chars ++ (right.textWith write ++ rest) = c :: r ∧ Opens c := by
      obtain ⟨c, r, hcons, hc⟩ := h.opens right
      cases hfront : front.chars with
      | nil => exact ⟨c, r ++ rest, by rw [hcons]; rfl, hc⟩
      | cons d u => exact ⟨d, _, rfl, .inl (front.blank d (by rw [hfront]; exact List.mem_cons_self))⟩
    obtain ⟨c, r, hcons, hc⟩ := hopens
    simp only [Formula.textWith, List.append_assoc]
    rw [ihl mode (hborder _), hcons, tokensFrom?_operator op rfl hc, ← hcons, tokensFrom?_blanks front.blank,
      ihr _ hrest]
    simp [Option.map_map, Function.comp_def, Formula.tokens]

end Written

end Tokens

/-! ## Expressions -/

section Naming

variable (isFunction : String → Bool) (call? : Name → Option NameCall)

theorem isVariableName_of_mem {name : String} (hname : name ∈ constructorNames) : isVariableName name = true := by
  have hall : ∀ n ∈ constructorNames, isVariableName n = true := by decide
  exact hall name hname

/-- What names stand for: variables, calls, and calls of the functions that variables hold. -/
def naming : Naming where
  tokens w := match call? w with
    | none => [.word w.word]
    | some c =>
      if isFunction c.function then
        .word c.function :: .symbol "." :: .word "call" :: .symbol "(" :: arguments c.tokens
      else .word c.function :: .symbol "(" :: arguments c.tokens
  expr w := match call? w with
    | none => .variable w.word
    | some c =>
      if isFunction c.function then .select (.variable c.function) [.method "call" c.exprs]
      else .call c.function c.exprs
  levels w := match call? w with
    | none => 0
    | some _ => 2
  starts w rest := by
    split
    · exact .word (isFunctionName_ne (isFunctionName_of_isVariableName w.isVariable.unreserved)).2.2 _
    · next c _ =>
      have hif := (isFunctionName_ne (isFunctionName_of_isVariableName (isVariableName_of_mem c.known))).2.2
      split <;> exact .word hif _
  reads w := by
    cases call? w with
    | none => exact readsOperand_variable w.isVariable.unreserved
    | some c =>
      dsimp only
      split
      · exact readsOperand_method c.denotes c.nonempty (isVariableName_of_mem c.known)
      · exact readsOperand_call c.denotes c.nonempty
          (isFunctionName_of_isVariableName (isVariableName_of_mem c.known))

/-- The name of a function is read up to the parenthesis, with the call that it may become. -/
theorem tokensFrom?_callText (c : NameCall) (mode : Mode) (rest : List Char) :
    tokensFrom? mode 0 (callText isFunction c.function.toList [] ++ c.args ++ rest)
      = (tokensFrom? { mode with afterOperand := true } 0 rest).map fun ts =>
        (if isFunction c.function then
          .word c.function :: .symbol "." :: .word "call" :: .symbol "(" :: arguments c.tokens
        else .word c.function :: .symbol "(" :: arguments c.tokens) ++ ts := by
  have hword := (isWord_of_mem c.known).1
  have hopen : ∀ r, EndsName ('(' :: r) := by
    rintro r d ⟨⟩
    decide
  have hpoint : ∀ r, EndsName (".call(".toList ++ r) := by
    rintro r d ⟨⟩
    decide
  unfold callText
  rw [String.ofList_toList]
  split
  · rw [List.append_assoc, List.append_assoc, tokensFrom?_word hword (hpoint _), tokensFrom?_callMethod,
      c.reads rest rfl]
    simp [Option.map_map, Function.comp_def]
  · show tokensFrom? mode 0 (c.function.toList ++ ['('] ++ c.args ++ rest) = _
    rw [List.append_assoc, List.append_assoc]
    show tokensFrom? mode 0 (c.function.toList ++ '(' :: (c.args ++ rest)) = _
    rw [tokensFrom?_word hword (hopen _), tokensFrom?_open, c.reads rest rfl]
    simp [Option.map_map, Function.comp_def]

theorem written_naming : Written (naming isFunction call?) (boundAs isFunction call?) where
  starts w := by
    unfold boundAs
    split
    · next c _ =>
      obtain ⟨⟨⟨d, r, hcons, hd⟩, -, -, -⟩, -⟩ := isWord_of_mem c.known
      have hfirst : ∀ s, ∃ d r, c.function.toList ++ s = d :: r ∧ isNameChar d = true := fun s =>
        ⟨d, r ++ s, by rw [hcons]; rfl, isNameChar_of_isNameStart hd⟩
      unfold callText
      split
      · rw [List.append_assoc]
        exact hfirst _
      · rw [List.append_assoc]
        exact hfirst _
    · obtain ⟨d, r, hcons, hd⟩ := w.isVariable.start
      exact ⟨d, r, hcons, isNameChar_of_isNameStart hd⟩
  reads w mode rest hrest := by
    have hname : EndsName rest := fun c hc => (hrest.stops c hc).1
    unfold boundAs naming
    dsimp only
    cases call? w with
    | none => exact tokensFrom?_word w.isVariable.toIsWord hname
    | some c =>
      exact tokensFrom?_callText isFunction c mode rest

end Naming

/-- **The expression that a formula is** where some names are functions, unless it nests too deep. -/
theorem parse?_formula (o : Options) (isFunction : String → Bool) {k : Stratum} (a : Formula k) :
    Expr.parse? (bindCalls isFunction (a.textWith (writtenAs (nameCall? o))))
      = if Depth.start.Admits (a.levels (naming isFunction (nameCall? o))) then
          some (a.expr (naming isFunction (nameCall? o)))
        else none := by
  have htokens := (written_naming isFunction (nameCall? o)).tokensFrom?_formula a .start border_nil
  rw [List.append_nil] at htokens
  have hwhole : tokens? (a.textWith (boundAs isFunction (nameCall? o)))
      = some (a.tokens (naming isFunction (nameCall? o))) :=
    htokens.trans (congrArg some (List.append_nil _))
  rw [(rewrites_bindCalls isFunction (nameCall? o)).whole, Expr.parse?, hwhole, Option.bind_some, a.parse]

end Notation

end Worksheet
