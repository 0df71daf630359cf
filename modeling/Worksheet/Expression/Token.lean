import Worksheet.Number.Decimal
import Worksheet.Number.Word
import Worksheet.Text.Class

/-!
# Tokens

The words of the expression language. Blanks and comments separate tokens; a minus sign belongs to
the number behind it where no operand stands in front. A text in back quotes may hold expressions
between `$`, a brace and the closing brace; such a text is cut into the stretches around its
expressions.

Main definition: `tokens?`.
-/

namespace Worksheet.Expression

open Text

/-- A token. -/
inductive Token where
  /-- An integer. -/
  | int (n : Int64)
  /-- A real. -/
  | real (x : Float)
  /-- A character. -/
  | char (c : Char)
  /-- A text. -/
  | text (s : String)
  /-- A name or a word of the language. -/
  | word (s : String)
  /-- An operator or a mark. -/
  | symbol (s : String)
  /-- The text in front of the first expression in a text. -/
  | templateOpen (s : String)
  /-- The text between two expressions in a text. -/
  | templateNext (s : String)
  /-- The text behind the last expression in a text. -/
  | templateClose (s : String)

/-! ## Numbers -/

/-- Digits, among which underscores may stand, and the text behind them. -/
def digitRun (valid : Char → Bool) : List Char → List Char × List Char
  | [] => ([], [])
  | c :: r =>
    if c == '_' then digitRun valid r
    else if valid c then (c :: (digitRun valid r).1, (digitRun valid r).2)
    else ([], c :: r)

/-- The value of a digit in a base up to sixteen. -/
def digitOf? (base : Nat) (c : Char) : Option Nat :=
  let value :=
    if isDigit c then some (digitValue c)
    else if 'a' ≤ lower c && lower c ≤ 'f' then some ((lower c).toNat - 'a'.toNat + 10)
    else none
  value.filter fun n => n < base

/-- The number that digits in a base denote. -/
def readBase (base : Nat) (s : List Char) : Nat :=
  s.foldl (fun n c => base * n + (digitOf? base c).getD 0) 0

/-- The base that a letter behind a leading zero stands for. -/
def baseOfLetter? (c : Char) : Option Nat :=
  match lower c with
  | 'x' => some 16
  | 'o' => some 8
  | 'b' => some 2
  | _ => none

/-- The part of a real behind its point; a point may also stand alone in front of a character that
can neither begin a property nor continue a range. -/
def afterPoint? (s : List Char) : Option (List Char × List Char) :=
  match s with
  | '.' :: c :: r =>
    if isDigit c then some (digitRun isDigit (c :: r))
    else if c == '_' || c == '.' || isLetter c then none
    else some ([], c :: r)
  | _ => none

/-- An exponent: none if there is none, and a malformed one if its sign has no digits behind it. -/
def afterExponent? (s : List Char) : Option (Option Int × List Char) :=
  match s with
  | 'e' :: c :: r =>
    if isDigit c then
      let (d, rest) := digitRun isDigit (c :: r)
      some (some (readDigits d), rest)
    else if c == '+' || c == '-' then
      let (d, rest) := digitRun isDigit r
      let value : Int := if c == '-' then -(readDigits d : Int) else readDigits d
      some (if d.isEmpty then none else some value, rest)
    else none
  | _ => none

/-- The token of a number in base ten with these digits, fraction and exponent: a real unless it has
digits only and fits in a word. -/
def decimalToken (negative : Bool) (whole : List Char) (fraction : Option (List Char))
    (exponent : Option Int) : Token :=
  let real : Token :=
    let x := Decimal.read whole (fraction.getD []) (exponent.getD 0)
    .real (if negative then -x else x)
  match fraction, exponent with
  | none, none =>
    let n : Int := readDigits whole
    match word? (if negative then -n else n) with
    | some n => .int n
    | none => real
  | _, _ => real

/-- A number in base ten at the start of a text. -/
def readDecimal? (negative : Bool) (s : List Char) : Option (Token × List Char) :=
  let (whole, rest) := digitRun isDigit s
  let (fraction, rest) := match afterPoint? rest with
    | some (f, rest) => (some f, rest)
    | none => (none, rest)
  match afterExponent? rest with
  | some (some e, rest) => some (decimalToken negative whole fraction (some e), rest)
  | some (none, _) => none
  | none => some (decimalToken negative whole fraction none, rest)

/-- A number in another base behind the letter that stands for it. -/
def readInBase? (negative : Bool) (base : Nat) (s : List Char) : Option (Token × List Char) :=
  let (d, rest) := digitRun (fun c => (digitOf? base c).isSome) s
  if d.isEmpty || readBase base d ≥ 0x10000000000000000 then none
  else
    let n : Int := readBase base d
    some (.int (Int64.ofInt (if negative then -n else n)), rest)

/-- A number at the start of a text; `negative` if a minus sign belongs to it. -/
def readNumber? (negative : Bool) (s : List Char) : Option (Token × List Char) :=
  match s with
  | '0' :: c :: r =>
    match baseOfLetter? c with
    | some base => readInBase? negative base r
    | none => readDecimal? negative s
  | _ => readDecimal? negative s

/-! ## Texts -/

/-- The character with the code that hexadecimal digits denote. -/
def escapedChar? (digits : List Char) : Option Char :=
  if digits.all fun c => (digitOf? 16 c).isSome then
    let n := readBase 16 digits
    if n.isValidChar then some (Char.ofNat n) else none
  else none

/-- The inside of a text behind its opening quote, and what stands behind the closing one. A doubled
quote is a quote, and a text ends on its line. -/
def readText? (quote : Char) : List Char → Option (List Char × List Char)
  | [] => none
  | '\\' :: r =>
    let escaped (c : Option Char) (rest : Option (List Char × List Char)) :=
      c.bind fun c => rest.map fun p => (c :: p.1, p.2)
    match r with
    | 'x' :: a :: b :: r => escaped (escapedChar? [a, b]) (readText? quote r)
    | 'u' :: a :: b :: c :: d :: r => escaped (escapedChar? [a, b, c, d]) (readText? quote r)
    | 'U' :: a :: b :: c :: d :: e :: f :: g :: h :: r =>
      escaped (escapedChar? [a, b, c, d, e, f, g, h]) (readText? quote r)
    | 't' :: r => escaped (some '\t') (readText? quote r)
    | 'n' :: r => escaped (some '\n') (readText? quote r)
    | 'r' :: r => escaped (some '\r') (readText? quote r)
    | c :: r => if c == '\\' || c == quote then escaped (some c) (readText? quote r) else none
    | [] => none
  | c :: r =>
    if c == quote then
      match r with
      | [] => some ([], [])
      | d :: r' =>
        if d == quote then (readText? quote r').map fun p => (quote :: p.1, p.2) else some ([], r)
    else if c == '\n' then none
    else (readText? quote r).map fun p => (c :: p.1, p.2)

/-- The stretch of a text in back quotes up to an expression in it or to its end: the stretch,
whether an expression follows, and what stands behind. -/
def readTemplate? : List Char → Option (List Char × Bool × List Char)
  | [] => none
  | '$' :: '\x7b' :: r => some ([], true, r)
  | '\x60' :: '\x60' :: r => (readTemplate? r).map fun p => ('\x60' :: p.1, p.2)
  | '\x60' :: r => some ([], false, r)
  | c :: r => (readTemplate? r).map fun p => (c :: p.1, p.2)

/-! ## Comments -/

/-- The text behind a comment that ends with its line. -/
def afterLine (s : List Char) : List Char := s.dropWhile (· != '\n')

/-- The text behind a comment between marks, which may hold others. -/
def afterComment (depth : Nat) : List Char → List Char
  | [] => []
  | '*' :: '/' :: r =>
    match depth with
    | 0 => r
    | d + 1 => afterComment d r
  | '/' :: '*' :: r => afterComment (depth + 1) r
  | _ :: r => afterComment depth r

/-! ## Operators and marks -/

/-- Signs of more than one character that have a meaning, a longer one before its own beginning. -/
def compoundSymbols : List String :=
  ["**=", "<<=", ">>=", "..=", "==", "!=", "<=", ">=", "&&", "||", "**", "<<", ">>", "??", "..",
   "+=", "-=", "*=", "/=", "%=", "&=", "|=", "^="]

/-- Signs of more than one character that have no meaning. -/
def meaninglessSymbols : List String :=
  ["===", "!==", "...", "::<", "++", "--", "->", "<-", "<|", "|>", ":=", "!.", "=>", "::", "?.",
   "?["]

/-- Signs of one character. -/
def simpleSymbols : List Char := "()[]+-*/%<>!|&^=.,;".toList

/-- A sign at the start of a text. -/
def readSymbol? (s : List Char) : Option (Token × List Char) :=
  let fits (w : String) := strip? w.toList s
  if meaninglessSymbols.any fun w => (fits w).isSome then none
  else
    match compoundSymbols.findSome? fun w => (fits w).map fun rest => (Token.symbol w, rest) with
    | some found => some found
    | none =>
      match s with
      | [] => none
      | c :: r => if simpleSymbols.contains c then some (.symbol (String.singleton c), r) else none

/-- The word for not being in something, if no longer word begins there. -/
def readNotIn? (s : List Char) : Option (List Char) :=
  (strip? "!in".toList s).bind fun rest =>
    match rest with
    | [] => some []
    | c :: _ => if isNameChar c then none else some rest

/-! ## The token stream -/

/-- What is known about the text before a place. -/
structure Mode where
  /-- Has an operand just ended? Then a minus sign is an operator. -/
  afterOperand : Bool
  /-- The open braces in the expressions of the enclosing texts, the innermost text first. -/
  braces : List Nat

/-- The mode at the start of an expression. -/
def Mode.start : Mode := ⟨false, []⟩

/-- Words behind which an operand begins. -/
def isOperandWord (w : String) : Bool := w == "if" || w == "in"

/-- A name holds a letter, in front of which only underscores stand. -/
def isProperName (s : List Char) : Bool :=
  match s.dropWhile (· == '_') with
  | [] => false
  | c :: _ => isLetter c

/-- The token that a stretch of a text in back quotes makes, and the mode behind it; `first` if it
begins the text. -/
def templateToken (mode : Mode) (first : Bool) (stretch : List Char) (more : Bool) : Token × Mode :=
  let s := String.ofList stretch
  match first, more with
  | true, true => (.templateOpen s, ⟨false, 0 :: mode.braces⟩)
  | true, false => (.text s, ⟨true, mode.braces⟩)
  | false, true => (.templateNext s, ⟨false, 0 :: mode.braces⟩)
  | false, false => (.templateClose s, ⟨true, mode.braces⟩)

/-- One token, blank or comment: the token if there is one, the mode behind it, and the text
behind. -/
def readToken? (mode : Mode) (s : List Char) : Option (Option Token × Mode × List Char) :=
  let operand (t : Token) (rest : List Char) :=
    some (some t, { mode with afterOperand := true }, rest)
  let operator (t : Token) (rest : List Char) :=
    some (some t, { mode with afterOperand := false }, rest)
  match s with
  | [] => none
  | c :: r =>
    if isBlank c then some (none, mode, r)
    else if isDigit c then (readNumber? false s).bind fun (t, rest) => operand t rest
    else if c == '-' && !mode.afterOperand && (r.head?.map isDigit).getD false then
      (readNumber? true r).bind fun (t, rest) => operand t rest
    else if isNameStart c then
      let name := s.takeWhile isNameChar
      let rest := s.dropWhile isNameChar
      if !isProperName name then none
      else if isOperandWord (String.ofList name) then operator (.word (String.ofList name)) rest
      else operand (.word (String.ofList name)) rest
    else if c == '"' then
      (readText? '"' r).bind fun (t, rest) => operand (.text (String.ofList t)) rest
    else if c == '\x27' then
      (readText? '\x27' r).bind fun (t, rest) =>
        match t with
        | [x] => operand (.char x) rest
        | _ => none
    else if c == '\x60' then
      let r := match r with
        | '\r' :: '\n' :: r | '\r' :: r | '\n' :: r => r
        | r => r
      (readTemplate? r).map fun (t, more, rest) =>
        let (token, mode) := templateToken mode true t more
        (some token, mode, rest)
    else if c == '\x7b' then
      let braces := match mode.braces with
        | d :: ds => (d + 1) :: ds
        | [] => []
      some (some (.symbol "\x7b"), ⟨false, braces⟩, r)
    else if c == '\x7d' then
      match mode.braces with
      | 0 :: ds =>
        (readTemplate? r).map fun (t, more, rest) =>
          let (token, mode) := templateToken ⟨false, ds⟩ false t more
          (some token, mode, rest)
      | d :: ds => some (some (.symbol "\x7d"), ⟨true, (d - 1) :: ds⟩, r)
      | [] => some (some (.symbol "\x7d"), ⟨true, []⟩, r)
    else
      match s with
      | '/' :: '/' :: r => some (none, mode, afterLine r)
      | '/' :: '*' :: r => some (none, mode, afterComment 0 r)
      | _ =>
        match readNotIn? s with
        | some rest => operator (.symbol "!in") rest
        | none =>
          (readSymbol? s).bind fun (t, rest) =>
            if c == ')' || c == ']' then operand t rest else operator t rest

/-- The tokens of a text whose first `skip` characters have been read already. -/
def tokensFrom? (mode : Mode) (skip : Nat) : List Char → Option (List Token)
  | [] => some []
  | c :: r =>
    match skip with
    | k + 1 => tokensFrom? mode k r
    | 0 =>
      match readToken? mode (c :: r) with
      | none => none
      | some (token, mode, rest) =>
        (tokensFrom? mode (r.length - rest.length) r).map fun ts => token.toList ++ ts

/-- The tokens of a text, if it consists of tokens. -/
def tokens? (s : List Char) : Option (List Token) := tokensFrom? .start 0 s

end Worksheet.Expression
