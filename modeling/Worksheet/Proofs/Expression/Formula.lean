import Worksheet.Proofs.Expression.Names
import Worksheet.Proofs.Notation.Numerals

/-!
# Formulas

A formula is made of numbers, names and parentheses with the operators of arithmetic between them. The
grammar climbs along the operators of a formula from left to right, and each operator is one level deeper
than the one in front of it.

* **`Formula`** — formulas by how tight their operators bind, as they are written, blanks included.
* **`Formula.first`**, **`Formula.behind`** — how many levels the first operand and the operators behind
  it need.
* **`Formula.climbs`** — the first operand is read, and the operators behind it are climbed; by induction
  on the formula.
* **`Formula.parse`** — a formula is the expression that it looks like, unless it nests too deep.
-/

namespace Worksheet.Expression

open Text Notation

/-! ## What formulas are made of -/

/-- A run of blanks, which may be empty. -/
structure Blanks where
  /-- The blanks. -/
  chars : List Char
  blank : ∀ c ∈ chars, isBlank c = true

/-- A name that is read as a variable. -/
structure Name where
  /-- The name. -/
  word : String
  isVariable : IsVariable word

/-- A number that expressions know: the digits are ASCII ones, and the letter of an exponent is small. -/
structure Number extends Numeral where
  whole_digits : IsDigits whole.chars
  fraction_digits : ∀ f ∈ fraction, IsDigits f.chars
  exponent_digits : ∀ e ∈ exponent, e.letter = 'e' ∧ IsDigits e.digits.chars

/-- How tight the operators of a formula bind that stand in no parentheses. -/
inductive Stratum where
  | operand
  | power
  | product
  | sum

/-- A formula is also one of the next looser stratum. -/
inductive Within : Stratum → Stratum → Type where
  | power : Within .operand .power
  | product : Within .power .product
  | sum : Within .product .sum

/-- The operators, each with the strata of what it makes and of its operands. -/
inductive Join : Stratum → Stratum → Stratum → Type where
  | pow : Join .power .operand .power
  | mul : Join .product .product .power
  | div : Join .product .product .power
  | add : Join .sum .sum .product
  | sub : Join .sum .sum .product

/-- A formula as it is written. -/
inductive Formula : Stratum → Type where
  | number (n : Number) (blanks : Blanks) : Formula .operand
  | name (w : Name) (blanks : Blanks) : Formula .operand
  | group (front : Blanks) (inside : Formula .sum) (blanks : Blanks) : Formula .operand
  | within {k l : Stratum} (h : Within k l) (part : Formula k) : Formula l
  | join {k l r : Stratum} (op : Join k l r) (left : Formula l) (front : Blanks) (right : Formula r) :
      Formula k

section Join

variable {k l r : Stratum}

/-- The sign of an operator. -/
def Join.symbol : Join k l r → String
  | pow => "**"
  | mul => "*"
  | div => "/"
  | add => "+"
  | sub => "-"

/-- The token that a number is. -/
def Number.token (n : Number) : Token :=
  decimalToken false n.whole.chars (n.fraction.map Decimals.chars)
    (n.exponent.map fun e => exponentValue e.sign e.digits.chars)

theorem Number.isNumber_token (n : Number) : IsNumber n.token := isNumber_decimalToken ..

end Join

/-! ## Names as operands -/

/-- So many levels deeper. -/
def Depth.down (d : Depth) (n : Nat) : Depth := ⟨d.level + n, d.limit⟩

/-- May there be so many levels more? -/
def Depth.Admits (d : Depth) (n : Nat) : Prop := d.level + n ≤ d.limit

instance (d : Depth) (n : Nat) : Decidable (d.Admits n) := inferInstanceAs (Decidable (_ ≤ _))

theorem Depth.deeper?_eq (d : Depth) : d.deeper? = if d.Admits 1 then some (d.down 1) else none := by
  by_cases h : d.Admits 1
  · rw [if_pos h, deeper?, if_neg (Nat.not_lt.mpr h)]
    rfl
  · rw [if_neg h, deeper?, if_pos (Nat.not_le.mp h)]

@[simp] theorem Depth.admits_down (d : Depth) (m n : Nat) :
    (d.down m).Admits n ↔ d.Admits (m + n) := by
  unfold Admits down
  rw [Nat.add_assoc]

theorem Depth.admits_max {d : Depth} {m n : Nat} : d.Admits (max m n) ↔ d.Admits m ∧ d.Admits n := by
  unfold Admits
  omega

theorem Depth.Admits.of_le {d : Depth} {m n : Nat} (h : d.Admits n) (hle : m ≤ n) : d.Admits m :=
  Nat.le_trans (Nat.add_le_add_left hle _) h

@[simp] theorem Depth.down_down (d : Depth) (m n : Nat) : (d.down m).down n = d.down (m + n) := by
  unfold down
  rw [Nat.add_assoc]

/-- The signs that may stand behind a formula. -/
def Stratum.followers : Stratum → List String
  | operand => [")", "+", "-", "*", "/", "**"]
  | power | product => [")", "+", "-", "*", "/"]
  | sum => [")", "+", "-"]

/-- Can tokens stand behind a formula of the stratum? -/
def Follows (k : Stratum) (rest : List Token) : Prop := ∀ t ∈ rest.head?, ∃ s ∈ k.followers, t = .symbol s

/-- Tokens that are read as one operand, which needs so many levels. -/
def ReadsOperand (ts : List Token) (e : Expr) (levels : Nat) : Prop :=
  ∀ {fuel d rest}, 4 * ts.length ≤ fuel → d.Admits 0 → Follows .operand rest →
    operand fuel d (ts ++ rest) = if d.Admits levels then some (e, rest) else none

/-- What the names in formulas stand for: operands. -/
structure Naming where
  /-- The tokens that a name becomes. -/
  tokens : Name → List Token
  /-- The expression that they make. -/
  expr : Name → Expr
  /-- The levels that it needs. -/
  levels : Name → Nat
  starts : ∀ w rest, StartsExpression (tokens w ++ rest)
  reads : ∀ w, ReadsOperand (tokens w) (expr w) (levels w)

/-! ## Formulas as tokens and expressions -/

namespace Formula

section

variable (names : Naming)

/-- The tokens of a formula. -/
def tokens {k : Stratum} : Formula k → List Token
  | number n _ => [n.token]
  | name w _ => names.tokens w
  | group _ inside _ => .symbol "(" :: (inside.tokens ++ [.symbol ")"])
  | within _ part => part.tokens
  | join op left _ right => left.tokens ++ .symbol op.symbol :: right.tokens

/-- The expression that a formula is. Parentheses are no part of it. -/
def expr {k : Stratum} : Formula k → Expr
  | number n _ => literal n.token
  | name w _ => names.expr w
  | group _ inside _ => inside.expr
  | within _ part => part.expr
  | join op left _ right => .call op.symbol [left.expr, right.expr]

/-- The first operand of a formula. -/
def head {k : Stratum} : Formula k → Expr
  | number n _ => literal n.token
  | name w _ => names.expr w
  | group _ inside _ => inside.expr names
  | within _ part => part.head
  | join _ left _ _ => left.head

/-- The tokens behind the first operand. -/
def more {k : Stratum} : Formula k → List Token
  | number _ _ | name _ _ | group _ _ _ => []
  | within _ part => part.more
  | join op left _ right => left.more ++ .symbol op.symbol :: right.tokens names

/-- The operators that are climbed one after the other. -/
def spine {k : Stratum} : Formula k → Nat
  | number _ _ | name _ _ | group _ _ _ => 0
  | within _ part => part.spine
  | join _ left _ _ => left.spine + 1

mutual
/-- The levels that the first operand needs. -/
def first {k : Stratum} : Formula k → Nat
  | number _ _ => 0
  | name w _ => names.levels w
  | group _ inside _ => 1 + max (1 + inside.first) inside.behind
  | within _ part => part.first
  | join _ left _ _ => left.first

/-- The levels that the operators behind it need. -/
def behind {k : Stratum} : Formula k → Nat
  | number _ _ | name _ _ | group _ _ _ => 0
  | within _ part => part.behind
  | join _ left _ right => max left.behind (left.spine + 1 + max right.first right.behind)
end

/-- The levels that a formula needs as a whole expression. -/
def levels {k : Stratum} (a : Formula k) : Nat := max (1 + a.first names) (a.behind names)

end

end Formula

/-! ## Operands -/

/-- Behind no sign an operand is a term with selectors. -/
theorem operand_eq_term {ts : List Token} (hts : StartsExpression ts) (fuel : Nat) (d : Depth) :
    operand (fuel + 1) d ts = (term fuel d ts).bind fun p => (selectors fuel d p.2).bind fun q =>
      some (if q.1.isEmpty then p.1 else .select p.1 q.1, q.2) := by
  cases hts <;> rfl

theorem selectors_follows {rest : List Token} (hrest : Follows .operand rest) (fuel : Nat) (d : Depth) :
    selectors (fuel + 1) d rest = some ([], rest) := by
  cases rest with
  | nil => rfl
  | cons t rest =>
    obtain ⟨s, hs, rfl⟩ := hrest t rfl
    simp only [Stratum.followers, List.mem_cons, List.not_mem_nil, or_false] at hs
    rcases hs with rfl | rfl | rfl | rfl | rfl | rfl <;> rfl

/-- A term that no selector stands behind. -/
theorem operand_of_term {ts rest : List Token} (hts : StartsExpression ts) {fuel : Nat} {d : Depth}
    {e : Expr} {levels : Nat}
    (hterm : term (fuel + 1) d ts = if d.Admits levels then some (e, rest) else none)
    (hrest : Follows .operand rest) :
    operand (fuel + 2) d ts = if d.Admits levels then some (e, rest) else none := by
  rw [operand_eq_term hts, hterm]
  split
  · show (selectors (fuel + 1) d rest).bind _ = _
    rw [selectors_follows hrest]
    rfl
  · rfl

theorem startsExpression_number {t : Token} (ht : IsNumber t) (rest : List Token) :
    StartsExpression (t :: rest) := by
  cases ht
  · exact .int _ _
  · exact .real _ _

theorem readsOperand_number {t : Token} (ht : IsNumber t) : ReadsOperand [t] (literal t) 0 := by
  intro fuel d rest hfuel hd hrest
  obtain ⟨k, rfl⟩ : ∃ k, fuel = k + 2 := ⟨fuel - 2, by simp at hfuel; omega⟩
  refine operand_of_term (startsExpression_number ht rest) ?_ hrest
  rw [if_pos hd]
  cases ht <;> rfl

/-! ## Operators -/

/-- The precedence of an operator. -/
def Join.precedence {k l r : Stratum} (op : Join k l r) : Nat := Expression.precedence (.symbol op.symbol)

/-- What is read behind an operator: an operand, and the operators behind it that bind tighter. -/
def readRight (op : Token) (fuel : Nat) (d : Depth) (ts : List Token) : Option (Expr × List Token) :=
  (operand fuel d ts).bind fun p =>
    if precedence op < nextPrecedence p.2 || (precedence op == nextPrecedence p.2 && bindsRight op) then
      operators fuel d (precedence op) p.1 p.2
    else some p

/-- How tight an operator may bind that stands in front of a formula. -/
def Stratum.parent : Stratum → Nat
  | operand | power => 190
  | product => 179
  | sum => 149

section Join

variable {k l r : Stratum}

theorem operators_join (op : Join k l r) {q : Nat} (hq : q ≤ k.parent) (fuel : Nat) (d : Depth)
    (left : Expr) (ts : List Token) :
    operators (fuel + 1) d q left (.symbol op.symbol :: ts)
      = d.deeper?.bind fun d' => (readRight (.symbol op.symbol) fuel d' ts).bind fun p =>
        operators fuel d' q (.call op.symbol [left, p.1]) p.2 := by
  have hclimb : (precedence (.symbol op.symbol) < q ||
      (precedence (.symbol op.symbol) == q && !bindsRight (.symbol op.symbol))) = false := by
    cases op <;> simp only [Stratum.parent] at hq <;> simp [Join.symbol, precedence, bindsRight] <;> omega
  have hbinary : ∀ e, binary? (.symbol op.symbol) left e = some (.call op.symbol [left, e]) := by
    cases op <;> exact fun _ => rfl
  rw [operators.eq_def]
  dsimp only
  rw [hclimb]
  unfold readRight
  cases d.deeper? with
  | none => rfl
  | some d' =>
    show (operand fuel d' ts).bind _ = ((operand fuel d' ts).bind _).bind _
    cases operand fuel d' ts with
    | none => rfl
    | some p =>
      simp only [Option.bind_some]
      split
      · show (operators fuel d' _ p.1 p.2).bind _ = (operators fuel d' _ p.1 p.2).bind _
        congr 1
        funext x
        rw [hbinary]
        rfl
      · show (binary? (.symbol op.symbol) left p.1).bind _ = _
        rw [hbinary]
        rfl

end Join

section Strata

variable {k l r : Stratum}

/-- Behind a whole formula no operator is climbed. -/
theorem operators_follows (op : Join k l r) {rest : List Token} (hrest : Follows k rest) (fuel : Nat)
    (d : Depth) (e : Expr) :
    operators (fuel + 1) d op.precedence e rest = some (e, rest) ∧
      (op.precedence < nextPrecedence rest ||
        (op.precedence == nextPrecedence rest && bindsRight (.symbol op.symbol))) = false := by
  cases rest with
  | nil => cases op <;> exact ⟨rfl, rfl⟩
  | cons t rest =>
    obtain ⟨s, hs, rfl⟩ := hrest t rfl
    cases op <;> simp only [Stratum.followers, List.mem_cons, List.not_mem_nil, or_false] at hs <;>
      rcases hs with rfl | rfl | rfl | rfl | rfl <;> exact ⟨rfl, rfl⟩

theorem Follows.mono {rest : List Token} (hrest : Follows k rest) (h : k.followers ⊆ l.followers) :
    Follows l rest := by
  intro t ht
  obtain ⟨s, hs, heq⟩ := hrest t ht
  exact ⟨s, h hs, heq⟩

theorem Join.follows_left (op : Join k l r) (rest : List Token) : Follows l (.symbol op.symbol :: rest) := by
  rintro t ⟨⟩
  cases op <;> exact ⟨_, by decide, rfl⟩

theorem Join.follows_right (op : Join k l r) {rest : List Token} (hrest : Follows k rest) :
    Follows r rest :=
  hrest.mono (by cases op <;> decide)

theorem Join.parent_left (op : Join k l r) {q : Nat} (hq : q ≤ k.parent) : q ≤ l.parent :=
  Nat.le_trans hq (by cases op <;> decide)

theorem Join.precedence_le_parent (op : Join k l r) : op.precedence ≤ r.parent := by
  cases op <;> decide

theorem Within.follows (h : Within k l) {rest : List Token} (hrest : Follows l rest) : Follows k rest :=
  hrest.mono (by cases h <;> decide)

theorem Within.parent (h : Within k l) {q : Nat} (hq : q ≤ l.parent) : q ≤ k.parent :=
  Nat.le_trans hq (by cases h <;> decide)

/-- What the operators of a formula bind at least as tight as. -/
def Stratum.least : Stratum → Nat
  | operand | power => 190
  | product => 180
  | sum => 150

/-- Behind an operator the operators of a tighter formula are climbed. -/
theorem Join.climbs_right (op : Join k l r) {n : Nat} (hn : r.least ≤ n) :
    (op.precedence < n || (op.precedence == n && bindsRight (.symbol op.symbol))) = true := by
  cases op <;> simp only [Stratum.least] at hn <;> simp [precedence, Join.symbol, Expression.precedence, bindsRight] <;> omega

end Strata

namespace Formula

variable (names : Naming)

theorem spine_le {k : Stratum} (a : Formula k) : a.spine ≤ (a.tokens names).length := by
  induction a with
  | number | name | group => exact Nat.zero_le _
  | within h part ih => exact ih
  | join op left front right ihl ihr =>
    simp only [spine, tokens, List.length_append, List.length_cons]
    omega

/-- A formula is its first operand, or operators stand behind that. -/
theorem more_cases {k : Stratum} (a : Formula k) :
    (a.more names = [] ∧ a.head names = a.expr names ∧ a.behind names = 0) ∨
      ∀ rest, k.least ≤ nextPrecedence (a.more names ++ rest) := by
  induction a with
  | number | name | group => exact Or.inl ⟨rfl, rfl, rfl⟩
  | within h part ih =>
    refine ih.imp id fun hleast rest => Nat.le_trans ?_ (hleast rest)
    cases h <;> decide
  | join op left front right ihl ihr =>
    refine Or.inr fun rest => ?_
    show _ ≤ nextPrecedence (left.more names ++ _ ++ rest)
    rcases ihl with ⟨hnil, -⟩ | hleast
    · rw [hnil]
      cases op <;> exact Nat.le_refl _
    · rw [List.append_assoc]
      refine Nat.le_trans ?_ (hleast _)
      cases op <;> decide

/-- The first operand of a formula is read, and the operators behind it are climbed, as far as the levels
reach. -/
def Climbs {k : Stratum} (a : Formula k) : Prop :=
  ∀ {fuel : Nat} {d : Depth} {rest : List Token}, 4 * (a.tokens names).length ≤ fuel → d.Admits 0 →
    Follows k rest →
    operand fuel d (a.tokens names ++ rest)
      = (if d.Admits (a.first names) then some (a.head names, a.more names ++ rest) else none) ∧
    ∀ q ≤ k.parent, operators fuel d q (a.head names) (a.more names ++ rest)
      = if d.Admits (a.behind names) then
          operators (fuel - a.spine) (d.down a.spine) q (a.expr names) rest
        else none

variable {names}

/-- One operand is a formula without operators. -/
theorem climbs_of_reads {a : Formula .operand} (hmore : a.more names = []) (hhead : a.head names = a.expr names)
    (hspine : a.spine = 0) (hbehind : a.behind names = 0)
    (h : ReadsOperand (a.tokens names) (a.expr names) (a.first names)) : a.Climbs names := by
  intro fuel d rest hfuel hd hrest
  rw [hmore, hhead, hspine, hbehind]
  exact ⟨h hfuel hd hrest, fun q hq => by rw [if_pos hd]; rfl⟩

/-- The right operand of an operator is read as a whole. -/
theorem Climbs.readRight {k l r : Stratum} {a : Formula r} (ha : a.Climbs names) (op : Join k l r) {fuel : Nat}
    {d : Depth} {rest : List Token} (hfuel : 4 * (a.tokens names).length + 1 ≤ fuel) (hd : d.Admits 0)
    (hrest : Follows k rest) :
    readRight (.symbol op.symbol) fuel d (a.tokens names ++ rest)
      = if d.Admits (max (a.first names) (a.behind names)) then some (a.expr names, rest) else none := by
  obtain ⟨hoperand, hoperators⟩ := ha (Nat.le_of_succ_le hfuel) hd (op.follows_right hrest)
  unfold Expression.readRight
  rw [hoperand]
  by_cases hfirst : d.Admits (a.first names)
  · rw [if_pos hfirst]
    show ite _ _ _ = _
    rcases a.more_cases names with ⟨hmore, hhead, hbehind⟩ | hleast
    · have hclimb := (operators_follows op hrest 0 d (a.expr names)).2
      rw [hmore, hhead, hbehind, List.nil_append, Nat.max_zero, if_pos hfirst]
      exact if_neg (by rw [Bool.not_eq_true]; exact hclimb)
    · have hclimb := op.climbs_right (hleast rest)
      refine (if_pos hclimb).trans ((hoperators _ op.precedence_le_parent).trans ?_)
      have hspine := a.spine_le names
      obtain ⟨n, hn⟩ : ∃ n, fuel - a.spine = n + 1 := ⟨fuel - a.spine - 1, by omega⟩
      rw [hn, (operators_follows op hrest n _ _).1]
      by_cases hbehind : d.Admits (a.behind names)
      · rw [if_pos hbehind, if_pos (Depth.admits_max.mpr ⟨hfirst, hbehind⟩)]
      · rw [if_neg hbehind, if_neg fun h => hbehind (Depth.admits_max.mp h).2]
  · rw [if_neg hfirst, if_neg fun h => hfirst (Depth.admits_max.mp h).1]
    rfl

theorem Climbs.join {k l r : Stratum} {a : Formula l} {b : Formula r} (ha : a.Climbs names) (hb : b.Climbs names)
    (op : Join k l r) (front : Blanks) : (Formula.join op a front b).Climbs names := by
  intro fuel d rest hfuel hd hrest
  have hlength : ((Formula.join op a front b).tokens names).length
      = (a.tokens names).length + ((b.tokens names).length + 1) := by
    show (a.tokens names ++ _ :: b.tokens names).length = _
    rw [List.length_append, List.length_cons]
  rw [hlength] at hfuel
  have hspine := a.spine_le names
  have hfuelLeft : 4 * (a.tokens names).length ≤ fuel := by omega
  obtain ⟨hoperand, hoperators⟩ := ha hfuelLeft hd (op.follows_left (b.tokens names ++ rest))
  have htokens : (Formula.join op a front b).tokens names ++ rest
      = a.tokens names ++ .symbol op.symbol :: (b.tokens names ++ rest) := List.append_assoc _ _ _
  have hmore : (Formula.join op a front b).more names ++ rest
      = a.more names ++ .symbol op.symbol :: (b.tokens names ++ rest) := List.append_assoc _ _ _
  rw [htokens, hmore]
  -- the left operand is read first, and its own operators reach up to the sign of this one
  refine ⟨hoperand, fun q hq => (hoperators q (op.parent_left hq)).trans ?_⟩
  have hbehind : (Formula.join op a front b).behind names
      = max (a.behind names) (a.spine + 1 + max (b.first names) (b.behind names)) := rfl
  obtain ⟨n, hn⟩ : ∃ n, fuel - a.spine = n + 1 := ⟨fuel - a.spine - 1, by omega⟩
  rw [hbehind, hn, operators_join op hq, Depth.deeper?_eq]
  simp only [Depth.admits_down, Depth.down_down]
  -- the reader may be too deep behind the left operand, at the sign, or in the right operand
  by_cases hleft : d.Admits (a.behind names)
  · rw [if_pos hleft]
    by_cases hdeeper : d.Admits (a.spine + 1)
    · have hfuelRight : 4 * (b.tokens names).length + 1 ≤ n := by omega
      have hright := hb.readRight op hfuelRight ((Depth.admits_down d (a.spine + 1) 0).mpr hdeeper) hrest
      rw [if_pos hdeeper]
      show (Expression.readRight _ n _ _).bind _ = _
      rw [hright]
      simp only [Depth.admits_down]
      by_cases hall : d.Admits (a.spine + 1 + max (b.first names) (b.behind names))
      · have hfuel' : fuel - (Formula.join op a front b).spine = n := by
          show fuel - (a.spine + 1) = n
          omega
        rw [if_pos hall, if_pos (Depth.admits_max.mpr ⟨hleft, hall⟩), hfuel']
        rfl
      · rw [if_neg hall, if_neg fun h => hall (Depth.admits_max.mp h).2]
        rfl
    · rw [if_neg hdeeper, if_neg fun h => hdeeper (h.of_le (by omega))]
      rfl
  · rw [if_neg hleft, if_neg fun h => hleft (Depth.admits_max.mp h).1]

theorem starts {k : Stratum} (a : Formula k) (rest : List Token) :
    StartsExpression (a.tokens names ++ rest) := by
  induction a generalizing rest with
  | number n blanks => exact startsExpression_number n.isNumber_token rest
  | name w blanks => exact names.starts w rest
  | group front inside blanks => exact .mark _
  | within h part ih => exact ih rest
  | join op left front right ihl ihr =>
    show StartsExpression (left.tokens names ++ _ ++ rest)
    rw [List.append_assoc]
    exact ihl _

/-- Tokens that end an expression: none, or a closing parenthesis. -/
inductive Closes : List Token → Prop where
  | nothing : Closes []
  | close (rest : List Token) : Closes (.symbol ")" :: rest)

theorem Climbs.expression {k : Stratum} {a : Formula k} (ha : a.Climbs names) {fuel : Nat} {d : Depth}
    {rest : List Token} (hfuel : 4 * (a.tokens names).length + 1 ≤ fuel) (hd : d.Admits 0)
    (hrest : Closes rest) :
    expression (fuel + 1) d (a.tokens names ++ rest)
      = if d.Admits (a.levels names) then some (a.expr names, rest) else none := by
  have hfollows : Follows k rest := by
    cases hrest with
    | nothing => simp [Follows]
    | close rest =>
      rintro t ⟨⟩
      exact ⟨")", by cases k <;> decide, rfl⟩
  have hend : ∀ n d e, operators (n + 1) d 0 e rest = some (e, rest) := by
    intro n d e
    cases hrest <;> rfl
  have hspine := a.spine_le names
  obtain ⟨n, hn⟩ : ∃ n, fuel - a.spine = n + 1 := ⟨fuel - a.spine - 1, by omega⟩
  show d.deeper?.bind _ = _
  unfold levels
  rw [Depth.deeper?_eq]
  by_cases hdeeper : d.Admits 1
  · have hoperand := (ha (Nat.le_of_succ_le hfuel) ((Depth.admits_down d 1 0).mpr hdeeper) hfollows).1
    have hoperators := (ha (Nat.le_of_succ_le hfuel) hd hfollows).2 0 (Nat.zero_le _)
    rw [hn, hend] at hoperators
    simp only [Depth.admits_down] at hoperand
    -- the depth is checked at the first operand, and again at each one that an operator joins to it
    rw [if_pos hdeeper]
    show (operand fuel (d.down 1) _).bind _ = _
    rw [hoperand]
    by_cases hfirst : d.Admits (1 + a.first names)
    · rw [if_pos hfirst]
      show operators fuel d 0 _ _ = _
      rw [hoperators]
      simp only [Depth.admits_max, hfirst, true_and]
    · rw [if_neg hfirst, if_neg fun h => hfirst (Depth.admits_max.mp h).1]
      rfl
  · rw [if_neg hdeeper, if_neg fun h => hdeeper (h.of_le (by omega))]
    rfl

/-- A parenthesis in front of an expression. -/
theorem term_group {ts : List Token} (hts : StartsExpression ts) (fuel : Nat) (d : Depth) :
    term (fuel + 1) d (.symbol "(" :: ts) = d.deeper?.bind fun d' => (Expression.expression fuel d' ts).bind fun p =>
      match p.2 with
      | .symbol ")" :: rest => some (p.1, rest)
      | _ => none := by
  cases hts <;> rfl

theorem Climbs.group {a : Formula .sum} (ha : a.Climbs names) (front blanks : Blanks) :
    (Formula.group front a blanks).Climbs names := by
  refine climbs_of_reads rfl rfl rfl rfl ?_
  intro fuel d rest hfuel hd hrest
  have htokens : (Formula.group front a blanks).tokens names ++ rest
      = .symbol "(" :: (a.tokens names ++ .symbol ")" :: rest) := by simp [tokens]
  have hlength : ((Formula.group front a blanks).tokens names).length = (a.tokens names).length + 2 := by
    simp [tokens]
  rw [hlength] at hfuel
  obtain ⟨n, rfl⟩ : ∃ n, fuel = n + 4 := ⟨fuel - 4, by omega⟩
  rw [htokens]
  refine operand_of_term (.mark _) ?_ hrest
  show term (n + 2 + 1) d _ = _
  rw [term_group (a.starts _), Depth.deeper?_eq]
  by_cases hdeeper : d.Admits 1
  · have hfuelInside : 4 * (a.tokens names).length + 1 ≤ n + 1 := by omega
    have hinside := ha.expression hfuelInside ((Depth.admits_down d 1 0).mpr hdeeper) (.close rest)
    simp only [Depth.admits_down] at hinside
    rw [if_pos hdeeper]
    show (Expression.expression (n + 2) _ _).bind _ = _
    rw [hinside]
    show _ = if d.Admits (1 + a.levels names) then _ else _
    split <;> rfl
  · rw [if_neg hdeeper, if_neg fun h => hdeeper (h.of_le (Nat.le_add_right 1 _))]
    rfl

/-- **A formula is climbed operator by operator.** -/
theorem climbs {k : Stratum} (a : Formula k) : a.Climbs names := by
  induction a with
  | number n blanks => exact climbs_of_reads rfl rfl rfl rfl (readsOperand_number n.isNumber_token)
  | name w blanks => exact climbs_of_reads rfl rfl rfl rfl (names.reads w)
  | group front inside blanks ih => exact ih.group front blanks
  | within h part ih =>
    intro fuel d rest hfuel hd hrest
    obtain ⟨hoperand, hoperators⟩ := ih hfuel hd (h.follows hrest)
    exact ⟨hoperand, fun q hq => hoperators q (h.parent hq)⟩
  | join op left front right ihl ihr => exact ihl.join ihr op front

/-- **A formula is the expression that it looks like**, unless it nests deeper than expressions may. -/
theorem parse {k : Stratum} (a : Formula k) :
    parseTokens? (a.tokens names) = if Depth.start.Admits (a.levels names) then some (a.expr names) else none := by
  have hstart : StartsExpression (a.tokens names ++ []) := a.starts []
  have hclimbs : a.Climbs names := a.climbs
  rw [List.append_nil] at hstart
  obtain ⟨n, hn⟩ : ∃ n, fuelFor (a.tokens names) = n + 1 + 2 := ⟨8 * (a.tokens names).length + 5, rfl⟩
  have hfuel : 4 * (a.tokens names).length + 1 ≤ n := by
    unfold fuelFor at hn
    omega
  have hroot : Depth.start.Admits 0 := by decide
  have hexpr := hclimbs.expression hfuel hroot .nothing
  rw [List.append_nil] at hexpr
  split
  · next hlevels =>
    rw [if_pos hlevels] at hexpr
    exact parseTokens?_of_expression hstart hn hexpr
  · next hlevels =>
    rw [if_neg hlevels] at hexpr
    exact parseTokens?_of_expression_none hstart hn hexpr

end Formula
end Worksheet.Expression
