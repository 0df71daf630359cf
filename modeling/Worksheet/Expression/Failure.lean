import Worksheet.Arithmetic
import Worksheet.Number.Wide

/-!
# Why an expression has no value

A failure is either one of the language itself, such as an unknown name, or one that a function of
the library raises about its arguments, or a fault of the machine that a function runs into.

Main definitions: `CallError`, `EvalError` and their wordings.
-/

namespace Worksheet

open Text

/-- What a function of the library objects to. -/
inductive CallError where
  /-- An operation on values. -/
  | arithmetic (e : ArithmeticError)
  /-- A quantity. -/
  | quantity (e : QuantityError)
  /-- A number at which a real function has no value. -/
  | mathDomain
  /-- A real too large for an integer. -/
  | notWord
  /-- A number of digits out of range. -/
  | digitRange
  /-- The factorial of a negative number. -/
  | negativeFactorial
  /-- The factorial of a number that is not whole. -/
  | fractionalFactorial
  /-- A factorial beyond every real. -/
  | hugeFactorial
  /-- A range whose ends are the wrong way round. -/
  | emptyRange
  /-- A choice among nothing. -/
  | emptyChoice
  /-- A negative length. -/
  | negativeLength
  /-- A negative number of words. -/
  | negativeCount
  /-- More words than there are. -/
  | largeSample
  /-- A part of a date or time that no date or time has. -/
  | partRange (part : String)
  /-- Parts that make no date together. -/
  | invalidDate (year month day : Int64)
  /-- Parts that make no time of day together. -/
  | invalidTime (hour minute second : Int64)
  /-- A span of time out of range. -/
  | spanRange
  /-- A number of years out of range. -/
  | periodRange
  /-- A fraction with the denominator zero. -/
  | zeroDenominator (numerator : Int64)
  /-- A fraction whose terms do not fit. -/
  | fractionRange
  /-- A real that no fraction is near to. -/
  | noFraction (x : Float)
  /-- A text that denotes no fraction. -/
  | fractionText (s : String)
  /-- A bound on denominators below one. -/
  | denominatorBound
  /-- A text that denotes no integer. -/
  | integerText (s : String)
deriving Inhabited

namespace CallError

/-- Integers in decimal with a sign between them. -/
def parts (separator : Char) (ns : List Int64) : String :=
  String.ofList (List.intercalate [separator] (ns.map fun n => showInt n.toInt))

/-- The wording. -/
def message : CallError → String
  | arithmetic e => e.message
  | quantity e => e.message
  | mathDomain => "math domain error"
  | notWord => "cannot convert float to integer"
  | digitRange => "digits out of range"
  | negativeFactorial => "factorial() not defined for negative values"
  | fractionalFactorial => "factorial() only accepts integral values"
  | hugeFactorial => "factorial() result too large"
  | emptyRange => "empty range for randint()"
  | emptyChoice => "cannot choose from an empty sequence"
  | negativeLength => "length must be >= 0"
  | negativeCount => "word count must be >= 0"
  | largeSample => "sample larger than population"
  | partRange part => part ++ " out of range"
  | invalidDate y m d => "invalid date " ++ parts '-' [y, m, d]
  | invalidTime h m s => "invalid time " ++ parts ':' [h, m, s]
  | spanRange => "duration out of range"
  | periodRange => "period out of range"
  | zeroDenominator n => "Fraction(" ++ parts ',' [n] ++ ", 0)"
  | fractionRange => "fraction out of range"
  | noFraction x => "cannot convert " ++ String.ofList (Decimal.shortestText x) ++ " to a fraction"
  | fractionText s => "invalid literal for Fraction: '" ++ s ++ "'"
  | denominatorBound => "max_denominator should be at least 1"
  | integerText s => "Error parsing integer number '" ++ s ++ "'"

end CallError

/-- What an index may lie outside of. -/
inductive Indexed where
  /-- A sequence. -/
  | array
  /-- A text. -/
  | text
  /-- The bits of an integer. -/
  | bits
deriving DecidableEq, Repr

/-- How it is called in messages. -/
def Indexed.name : Indexed → String
  | array => "Array"
  | text => "String"
  | bits => "Bit-field"

/-- Why an expression has no value. -/
inductive EvalError where
  /-- The text is no expression. -/
  | malformed
  /-- No variable has the name. -/
  | unknownName (name : String)
  /-- No function takes these arguments. -/
  | unknownFunction (signature : String)
  /-- A value of this type has no such property. -/
  | unknownProperty (property type : String)
  /-- A value of the wrong kind where only one kind fits. -/
  | wrongKind
  /-- The value has no elements. -/
  | notIndexable
  /-- The element does not exist. -/
  | outOfBounds (what : Indexed) (position : Int64)
  /-- An integer operation whose result does not fit. -/
  | overflow (operation : String)
  /-- A remainder that does not exist. -/
  | remainder
  /-- Function calls nested too deep. -/
  | tooDeep
  /-- A function of the library has raised an error. -/
  | raised (e : CallError)
  /-- The machine has stumbled in a function of the library. -/
  | fault (f : Fault)
  /-- The body of a function has no value. -/
  | inCall (cause : EvalError)
deriving Inhabited

/-- The wording of a fault. -/
def Fault.message : Fault → String
  | overflow => "arithmetic overflow"
  | divisionByZero => "division by zero"

/-- The wording of a failure that does not concern a name. -/
def EvalError.message : EvalError → String
  | malformed => "Syntax error"
  | unknownName name => "name '" ++ name ++ "' is not defined"
  | unknownFunction signature => "function '" ++ signature ++ "' is not defined"
  | unknownProperty property type =>
    "Unknown property '" ++ property ++ "' - a getter is not registered for type '" ++ type ++ "'"
  | wrongKind => "Data type incorrect"
  | notIndexable => "Indexer unavailable"
  | outOfBounds what position =>
    what.name ++ " index " ++ String.ofList (showInt position.toInt) ++ " out of bounds"
  | overflow operation => operation ++ " overflow"
  | remainder => "Modulo division by zero or overflow"
  | tooDeep => "Stack overflow"
  | raised e => e.message
  | fault f => f.message
  | inCall cause => cause.message

/-- The result of evaluating something. -/
abbrev Evaluated (α : Type) := Except EvalError α

/-- Fails with an error of the library. -/
def raise {α : Type} (e : CallError) : Evaluated α := .error (.raised e)

/-- A step of a machine, which must be able to hold its result in a word. -/
def inWord (n : Int) : Evaluated Int64 :=
  match word? n with
  | some w => .ok w
  | none => .error (.fault .overflow)

/-- The result of an operation on values, as a datum. -/
def Evaluated.ofOutcome : Arithmetic.Outcome → Evaluated Datum
  | .ok v => .ok v.toDatum
  | .error e => raise (.arithmetic e)

end Worksheet
