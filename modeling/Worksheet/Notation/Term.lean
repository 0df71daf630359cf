import Worksheet.Calendar.DateTime
import Worksheet.Quantity.Unit
import Worksheet.Text.Digits
import Worksheet.Text.Pattern

/-!
# Operand notation

The operands that a worksheet may write and that an expression has to construct: ratios, decimal
fractions, the clock, spans of time, quantities, and references to the current stack. Each is a
pattern that gives the text written in its place.
-/

namespace Worksheet.Notation

open Text

/-- Does a word begin here, behind the text `before`? -/
def wordStart (before after : List Char) : Bool := wordEdge before.head? after

/-- Does no word go on here? -/
def wordEnd : List Char → Bool
  | [] => true
  | c :: _ => !isWordChar c

/-- A text in double quotes. -/
def inQuotes (s : List Char) : List Char := ['"'] ++ s ++ ['"']

/-! ## Numerals -/

/-- A run of digits of any script, and the text behind it. -/
def digits? (s : List Char) : Option (List Char × List Char) :=
  if (s.takeWhile isDecimal).isEmpty then none
  else some (s.takeWhile isDecimal, s.dropWhile isDecimal)

/-- Extends a numeral by a part of it, if the text goes on with one. -/
def extend (numeral : List Char × List Char)
    (part : List Char → Option (List Char × List Char)) : List Char × List Char :=
  match part numeral.2 with
  | some (more, rest) => (numeral.1 ++ more, rest)
  | none => numeral

/-- A point and digits. -/
def fractionPart? : List Char → Option (List Char × List Char)
  | '.' :: r => (digits? r).map fun (d, rest) => ('.' :: d, rest)
  | _ => none

/-- The letter of an exponent, a sign that may be missing, and digits. -/
def exponentPart? : List Char → Option (List Char × List Char)
  | [] => none
  | e :: r =>
    if e == 'e' || e == 'E' then
      match r with
      | [] => none
      | c :: r' =>
        if c == '+' || c == '-' then (digits? r').map fun (d, rest) => (e :: c :: d, rest)
        else (digits? r).map fun (d, rest) => (e :: d, rest)
    else none

/-! ## Ratios and decimal fractions -/

/-- Two numbers with a colon between them become a fraction. -/
def ratio : Pattern (List Char) := fun before after =>
  if wordStart before after then
    match digits? after with
    | some (a, ':' :: r) =>
      match digits? r with
      | some (b, rest) =>
        if wordEnd rest then some ("Fraction(".toList ++ a ++ [',', ' '] ++ b ++ [')'], rest)
        else none
      | none => none
    | _ => none
  else none

/-- A decimal behind `colons`. -/
def colonDecimal? (colons s : List Char) : Option (List Char × List Char) :=
  (strip? colons s).bind fun r =>
    let body := r.takeWhile fun c => isDigit c || c == '.'
    if body.isEmpty then none else some (body, r.dropWhile fun c => isDigit c || c == '.')

/-- A decimal behind three colons becomes the fraction it denotes. -/
def exactDecimal : Pattern (List Char) := fun _ after =>
  (colonDecimal? [':', ':', ':'] after).map fun (d, rest) =>
    ("Fraction(".toList ++ inQuotes d ++ [')'], rest)

/-- A decimal behind two colons becomes a simple fraction near it. -/
def nearDecimal : Pattern (List Char) := fun _ after =>
  (colonDecimal? [':', ':'] after).map fun (d, rest) =>
    ("approximate(Fraction(".toList ++ inQuotes d ++ [')', ')'], rest)

/-! ## The clock -/

/-- The word, in any letter case, becomes the given text. -/
def clockWord (word out : List Char) : Pattern (List Char) := fun before after =>
  if wordStart before after then
    match stripKeyword? word after with
    | some rest => if wordEnd rest then some (out, rest) else none
    | none => none
  else none

/-- A call with whole numbers as arguments. -/
def numericCall (name : String) (args : List Int) : List Char :=
  name.toList ++ ['('] ++ List.intercalate [',', ' '] (args.map showInt) ++ [')']

/-- The call that constructs the date of a moment. -/
def dateCall (t : DateTime) : List Char :=
  numericCall "date" [t.date.year, t.date.month, t.date.day]

/-- The call that constructs a moment, without the part of it below a second. -/
def dateTimeCall (t : DateTime) : List Char :=
  numericCall "datetime" [t.date.year, t.date.month, t.date.day, t.hour, t.minute, t.second]

/-! ## Spans of time -/

/-- The words for a span of time. -/
structure SpanWords where
  /-- The function that constructs it. -/
  constructor : String
  /-- How it may be written, in any letter case. -/
  words : List String
  /-- May its count have a fraction? -/
  fractional : Bool

/-- The spans of time a worksheet knows, in the order in which a text is searched for them. -/
def spanTable : List SpanWords :=
  [⟨"seconds", ["seconds", "second", "secs", "sec"], true⟩,
   ⟨"minutes", ["minutes", "minute", "mins", "min"], true⟩,
   ⟨"hours", ["hours", "hour", "hrs", "hr"], true⟩,
   ⟨"days", ["days", "day"], true⟩,
   ⟨"weeks", ["weeks", "week"], true⟩,
   ⟨"months", ["months", "month"], false⟩,
   ⟨"years", ["years", "year", "yrs", "yr"], false⟩]

/-- The text behind a word, if it is one of `words` in any letter case. -/
def stripWord? (words : List String) (s : List Char) : Option (List Char) :=
  words.findSome? fun w =>
    (stripKeyword? w.toList s).bind fun rest => if wordEnd rest then some rest else none

/-- A number and a word for a span of time become a call that constructs the span. -/
def span (w : SpanWords) : Pattern (List Char) := fun before after =>
  if wordStart before after then
    (digits? after).bind fun whole =>
      let count := if w.fractional then extend whole fractionPart? else whole
      (stripWord? w.words (trimStart count.2)).map fun rest =>
        (w.constructor.toList ++ ['('] ++ count.1 ++ [')'], rest)
  else none

/-! ## Quantities -/

/-- A unit symbol that no word goes on behind. -/
def stripUnit? (s : List Char) : Option (List Char × List Char) :=
  MeasureUnit.table.findSome? fun u =>
    (strip? u.symbol.toList s).bind fun rest =>
      if wordEnd rest then some (u.symbol.toList, rest) else none

/-- A unit symbol that is a whole word. -/
def unitToken : Pattern (List Char) := fun before after =>
  if wordStart before after then stripUnit? after else none

/-- A number followed by a unit symbol. -/
def quantityLiteral : Pattern (List Char × List Char) := fun before after =>
  if wordStart before after then
    (digits? after).bind fun whole =>
      let number := extend (extend whole fractionPart?) exponentPart?
      (stripUnit? (trimStart number.2)).map fun (symbol, rest) => ((number.1, symbol), rest)
  else none

/-- The call that constructs one unit. -/
def unitCall (symbol : List Char) : List Char := "unit(".toList ++ inQuotes symbol ++ [')']

/-- The text that a match has covered. -/
def covered (after rest : List Char) : List Char := after.take (after.length - rest.length)

/-- A number and its unit become a product in parentheses, so that they form one operand. Before an
opening parenthesis the symbol is the name of a function. -/
def quantity : Pattern (List Char) := fun before after =>
  (quantityLiteral before after).map fun ((number, symbol), rest) =>
    if rest.head? == some '(' then (covered after rest, rest)
    else (['('] ++ number ++ [' ', '*', ' '] ++ unitCall symbol ++ [')'], rest)

/-- A unit symbol by itself becomes the unit; behind a number or a closing parenthesis it is a
factor. Behind a point it names a method and before an opening parenthesis a function. -/
def bareUnit : Pattern (List Char) := fun before after =>
  (unitToken before after).map fun (symbol, rest) =>
    if before.head? == some '.' || rest.head? == some '(' then (symbol, rest)
    else
      let factor := match trimStart before with
        | c :: _ => isDigit c || c == ')' || c == '.'
        | [] => false
      let adjacent := match before with
        | c :: _ => !isBlank c
        | [] => true
      let sign := if !factor then [] else if adjacent then [' ', '*', ' '] else ['*', ' ']
      (sign ++ unitCall symbol, rest)

/-! ## The stack -/

/-- The name of the current stack in expressions. -/
def stackName : String := "_stack"

/-- The name of the last answer in expressions. -/
def answerName : String := "ans"

/-- The position that a reference denotes. One that is no word, or is written in the digits of
another script, denotes the largest word, which is beyond every stack. -/
def stackPosition (digits : List Char) : Int :=
  ((readWord? digits).map Int64.toInt).getD (0x8000000000000000 - 1)

/-- An at sign and a number become the element at that position of the current stack. -/
def stackElement : Pattern (List Char) := fun _ after =>
  match after with
  | '@' :: r =>
    (digits? r).map fun (d, rest) =>
      ("stack_at(".toList ++ stackName.toList ++ ", ".toList ++ showInt (stackPosition d) ++ [')'],
        rest)
  | _ => none

/-- Two at signs become the current stack. -/
def wholeStack : Pattern (List Char) := fun _ after =>
  match after with
  | '@' :: '@' :: rest => some (stackName.toList, rest)
  | _ => none

/-- One at sign becomes the last answer. -/
def lastAnswer : Pattern (List Char) := fun _ after =>
  match after with
  | '@' :: rest => some (answerName.toList, rest)
  | _ => none

end Worksheet.Notation
