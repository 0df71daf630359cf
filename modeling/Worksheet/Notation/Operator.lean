import Worksheet.Text.Class
import Worksheet.Text.Pattern

/-!
# Operator notation

The signs that a worksheet may use for operators and that an expression does not have: factorials,
mathematical signs and superscripts, roots and percentages. Each is a pattern that gives the text
written in its place.
-/

namespace Worksheet.Notation

open Text

/-- A character of an operand: one of an identifier, or a decimal point. -/
def isOperandChar (c : Char) : Bool := isNameChar c || c == '.'

/-! ## Factorials -/

/-- A name or number and an exclamation mark become a call of `factorial`; before an equals sign the
mark belongs to a comparison. -/
def factorial : Pattern (List Char) := fun _ after =>
  let operand := after.takeWhile isNameChar
  match operand.isEmpty, after.dropWhile isNameChar with
  | false, '!' :: '=' :: rest => some (operand ++ ['!'], '=' :: rest)
  | false, '!' :: rest => some ("factorial(".toList ++ operand ++ [')'], rest)
  | _, _ => none

/-! ## Signs and superscripts -/

/-- The digit that a superscript shows. -/
def superscriptDigit? : Char → Option Char
  | '⁰' => some '0'
  | '¹' => some '1'
  | '²' => some '2'
  | '³' => some '3'
  | '⁴' => some '4'
  | '⁵' => some '5'
  | '⁶' => some '6'
  | '⁷' => some '7'
  | '⁸' => some '8'
  | '⁹' => some '9'
  | _ => none

/-- The digits of the superscripts at the start of a text, and the text behind them. -/
def superscriptDigits : List Char → List Char × List Char
  | [] => ([], [])
  | c :: r =>
    match superscriptDigit? c with
    | some d => (d :: (superscriptDigits r).1, (superscriptDigits r).2)
    | none => ([], c :: r)

/-- Signs of division and multiplication, and superscripts, which are exponents. -/
def signs : Pattern (List Char) := fun _ after =>
  match after with
  | [] => none
  | c :: r =>
    if c == '÷' then some (['/'], r)
    else if c == '×' || c == '⋅' || c == '·' then some (['*'], r)
    else if c == '⁻' then
      match superscriptDigits r with
      | ([], _) => none
      | (digits, rest) => some ("**(-".toList ++ digits ++ [')'], rest)
    else
      match superscriptDigits (c :: r) with
      | ([], _) => none
      | (digits, rest) => some (['*', '*'] ++ digits, rest)

/-! ## Roots -/

/-- The degree of a root sign. -/
def rootDegree? : Char → Option Char
  | '√' => some '2'
  | '∛' => some '3'
  | '∜' => some '4'
  | _ => none

/-- The text up to the parenthesis that closes the `depth + 1` open ones, and the text behind it. -/
def closeParen? (depth : Nat) : List Char → Option (List Char × List Char)
  | [] => none
  | c :: r =>
    let deeper (d : Nat) := (closeParen? d r).map fun p => (c :: p.1, p.2)
    if c == '(' then deeper (depth + 1)
    else if c == ')' then
      match depth with
      | 0 => some ([], r)
      | d + 1 => deeper d
    else deeper depth

/-- The operand of a root: the inside of a parenthesis, or a run of operand characters. -/
def rootOperand? : List Char → Option (List Char × List Char)
  | '(' :: r => closeParen? 0 r
  | s =>
    if (s.takeWhile isOperandChar).isEmpty then none
    else some (s.takeWhile isOperandChar, s.dropWhile isOperandChar)

/-- A root sign with an operand becomes a power. -/
def roots : Pattern (List Char) := fun _ after =>
  match after with
  | [] => none
  | c :: r =>
    match rootDegree? c, rootOperand? r with
    | some degree, some (operand, rest) =>
      some (['('] ++ operand ++ ")**(1/".toList ++ [degree, ')'], rest)
    | _, _ => none

/-! ## Percentages -/

/-- One of the signs, an operand and a percent sign: the sign, the operand and the text behind. -/
def percentage? (signs : List Char) : List Char → Option (Char × List Char × List Char)
  | [] => none
  | c :: r =>
    let s := trimStart r
    let operand := s.takeWhile isOperandChar
    match signs.contains c, operand.isEmpty, s.dropWhile isOperandChar with
    | true, false, '%' :: rest => some (c, operand, rest)
    | _, _, _ => none

/-- A percentage behind a multiplication or division sign is a factor. -/
def percentOf : Pattern (List Char) := fun _ after =>
  (percentage? ['*', '/'] after).map fun (sign, operand, rest) =>
    ([sign, '('] ++ operand ++ "/100)".toList, rest)

/-- Has a sign no left operand, with this text before it, the nearest character first? -/
def isUnarySign (before : List Char) : Bool :=
  match trimStart before with
  | [] => true
  | c :: _ => "(,[+-*/=<>!&|^".toList.contains c

/-- A percentage behind a plus or minus raises or lowers what stands before it; with nothing before
it it is a number of hundredths. -/
def percentStep : Pattern (List Char) := fun before after =>
  (percentage? ['+', '-'] after).map fun (sign, operand, rest) =>
    ((if isUnarySign before then ['('] else "*(1".toList) ++ [sign] ++ operand ++ "/100)".toList,
      rest)

end Worksheet.Notation
