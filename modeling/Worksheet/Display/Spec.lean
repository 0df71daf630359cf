import Worksheet.Display.Value

/-!
# Format specifications

The part of a display template behind the colon: fill and alignment, sign, alternate form, zero
flag, width, grouping, precision and type, each optional and in this order.

Main definitions: `Spec.read`, and `Spec.integer`, `Spec.real` and `Spec.pad`, which carry a
specification out.
-/

namespace Worksheet.Display

open Worksheet.Text

/-- Why a template cannot be filled. -/
inductive TemplateError where
  /-- A closing brace without an opening one. -/
  | strayClose
  /-- An opening brace without a closing one. -/
  | strayOpen
  /-- A field for something other than the value. -/
  | unknownField (name : String)
  /-- A specification that cannot be read. -/
  | invalidSpec (spec : String)
  /-- A point without a precision. -/
  | missingPrecision
  /-- A type that does not suit the value. -/
  | unknownType (code : Char) (kind : String)
  /-- A date pattern that cannot be read. -/
  | invalidPattern (pattern : String)
deriving DecidableEq, Repr

/-- The wording of an error. -/
def TemplateError.message : TemplateError → String
  | strayClose => "Single '\x7d' encountered in format string"
  | strayOpen => "Single '\x7b' encountered in format string"
  | unknownField name => "Replacement index " ++ name ++ " out of range"
  | invalidSpec spec => "Invalid format specifier '" ++ spec ++ "'"
  | missingPrecision => "Format specifier missing precision"
  | unknownType code kind =>
    "Unknown format code '" ++ String.singleton code ++ "' for object of type '" ++ kind ++ "'"
  | invalidPattern pattern => "Invalid date format '" ++ pattern ++ "'"

/-- Where a text stands in a wider field. -/
inductive Align where
  /-- On the left. -/
  | left
  /-- On the right. -/
  | right
  /-- In the middle; an odd gap is wider on the right. -/
  | center
  /-- On the right, with its sign on the left. -/
  | inner
deriving DecidableEq, Repr

/-- The alignment that a character asks for. -/
def Align.ofChar? (c : Char) : Option Align :=
  match c with
  | '<' => some .left
  | '>' => some .right
  | '=' => some .inner
  | '^' => some .center
  | _ => none

/-- A format specification. -/
structure Spec where
  /-- What fills the field. -/
  fill : Char
  /-- Where the text stands, if that is said. -/
  align : Option Align
  /-- `+` or a space shows the sign of positive numbers too. -/
  sign : Char
  /-- The alternate form: a base in front of integers, trailing zeros kept. -/
  alternate : Bool
  /-- Fill with zeros behind the sign. -/
  zero : Bool
  /-- The least width. -/
  width : Nat
  /-- What parts groups of digits. -/
  grouping : Option Char
  /-- The precision. -/
  precision : Option Nat
  /-- The type letter. -/
  type : Option Char
deriving DecidableEq, Repr

namespace Spec

/-- A size that a machine word can hold; a larger one makes the specification invalid. -/
def readSize (spec digits : List Char) : Except TemplateError Nat :=
  let n := readDigits digits
  if n < 0x10000000000000000 then .ok n else .error (.invalidSpec (String.ofList spec))

/-- Fill and alignment, and the rest. -/
def takeAlign (s : List Char) : Char × Option Align × List Char :=
  let single : Char × Option Align × List Char :=
    match s with
    | a :: r =>
      match Align.ofChar? a with
      | some al => (' ', some al, r)
      | none => (' ', none, s)
    | [] => (' ', none, s)
  match s with
  | f :: a :: r =>
    match Align.ofChar? a with
    | some al => (f, some al, r)
    | none => single
  | _ => single

/-- A character out of a few, and the rest. -/
def takeOne (choices : List Char) (s : List Char) : Option Char × List Char :=
  match s with
  | c :: r => if choices.contains c then (some c, r) else (none, s)
  | [] => (none, s)

/-- The precision behind a point, and the rest. -/
def takePrecision (spec s : List Char) : Except TemplateError (Option Nat × List Char) :=
  match s with
  | '.' :: r =>
    let digits := r.takeWhile isDigit
    if digits.isEmpty then .error .missingPrecision
    else (readSize spec digits).map fun n => (some n, r.dropWhile isDigit)
  | s => .ok (none, s)

/-- Reads a specification. -/
def read (spec : List Char) : Except TemplateError Spec := do
  let (fill, align, s) := takeAlign spec
  let (sign, s) := takeOne ['+', '-', ' '] s
  let (alternate, s) := takeOne ['#'] s
  let (zero, s) := takeOne ['0'] s
  let width ← readSize spec (s.takeWhile isDigit)
  let (grouping, s) := takeOne [',', '_'] (s.dropWhile isDigit)
  let (precision, s) ← takePrecision spec s
  let ofType (type : Option Char) : Spec :=
    ⟨fill, align, sign.getD '-', alternate.isSome, zero.isSome, width, grouping, precision, type⟩
  match s with
  | [] => .ok (ofType none)
  | [c] => .ok (ofType (some c))
  | _ => .error (.invalidSpec (String.ofList spec))

/-! ## Parts of a number -/

/-- The sign that a number shows. -/
def signText (spec : Spec) (negative : Bool) : List Char :=
  if negative then ['-']
  else if spec.sign == '+' then ['+']
  else if spec.sign == ' ' then [' ']
  else []

/-- Parts a run of digits into groups of `every`, counted from the right. -/
def groupDigits (separator : Char) (every : Nat) : List Char → List Char
  | [] => []
  | [c] => [c]
  | c :: d :: rest =>
    if (rest.length + 1) % every = 0 then c :: separator :: groupDigits separator every (d :: rest)
    else c :: groupDigits separator every (d :: rest)

/-- Parts the leading digits of a text into groups of three. -/
def groupLeading (grouping : Option Char) (s : List Char) : List Char :=
  match grouping with
  | none => s
  | some sep => groupDigits sep 3 (s.takeWhile isDigit) ++ s.dropWhile isDigit

/-- Brings a signed text to the width of the specification. -/
def pad (spec : Spec) (sign body : List Char) (default : Align) : List Char :=
  let (align, fill) : Align × Char :=
    match spec.align with
    | some a => (a, spec.fill)
    | none => if spec.zero then (.inner, '0') else (default, spec.fill)
  let gap := spec.width - (sign.length + body.length)
  match align with
  | .left => sign ++ body ++ List.replicate gap fill
  | .center =>
    List.replicate (gap / 2) fill ++ sign ++ body ++ List.replicate (gap - gap / 2) fill
  | .inner => sign ++ List.replicate gap fill ++ body
  | .right => List.replicate gap fill ++ sign ++ body

/-! ## Integers -/

/-- Base, mark of the base, and whether the digits beyond nine are capitals. -/
def baseOf (code : Char) : Nat × List Char × Bool :=
  match code with
  | 'x' => (16, ['0', 'x'], false)
  | 'X' => (16, ['0', 'X'], true)
  | 'o' => (8, ['0', 'o'], false)
  | 'b' => (2, ['0', 'b'], false)
  | _ => (10, [], false)

/-- The digits of a magnitude in the base of a type, in groups of three in base ten and of four in
the others. -/
def integerDigits (spec : Spec) (code : Char) (n : Nat) : List Char :=
  let (base, _, capitals) := baseOf code
  let digits := Nat.toDigits base n
  let digits := if capitals then digits.map upper else digits
  match spec.grouping with
  | none => digits
  | some sep => groupDigits sep (if base = 10 then 3 else 4) digits

/-- An integer carried out by a specification. -/
def integer (spec : Spec) (code : Char) (n : Int) : List Char :=
  let (_, mark, _) := baseOf code
  let sign := spec.signText (n < 0) ++ (if spec.alternate then mark else [])
  spec.pad sign (spec.integerDigits code n.natAbs) .right

/-! ## Reals -/

/-- A nonnegative real in scientific notation, the exponent with its sign and two digits at
least. -/
def scientific (precision : Nat) (x : Float) : List Char × List Char :=
  let (mantissa, e) := Decimal.scientificParts precision x
  (mantissa, 'e' :: (if e < 0 then '-' else '+') :: showPadded 2 e.natAbs)

/-- A nonnegative real with so many significant digits, positional where the exponent allows it.
Trailing zeros are dropped unless the alternate form keeps them. -/
def general (precision : Nat) (alternate : Bool) (x : Float) : List Char :=
  let precision := max precision 1
  if x == 0.0 then ['0']
  else
    let e := (Decimal.roundDigits precision (Decimal.Binary.ofFloat x)).exponent
    if -4 ≤ e ∧ e < precision then
      let s := Decimal.fixed ((precision : Int) - 1 - e).toNat x
      if alternate then s else trimFraction s
    else
      let (mantissa, exponent) := scientific (precision - 1) x
      (if alternate then mantissa else trimFraction mantissa) ++ exponent

/-- The precision of reals where none is said. -/
def defaultPrecision : Nat := 6

/-- The magnitude of a real in the notation of a type letter, given in lower case. -/
def realBody (spec : Spec) (code : Char) (x : Float) : List Char :=
  let precision := spec.precision.getD defaultPrecision
  if Decimal.isNaN x then ['n', 'a', 'n']
  else if Decimal.isInfinite x then ['i', 'n', 'f']
  else
    match code with
    | 'f' => Decimal.fixed precision x
    | '%' =>
      let y := x * 100.0
      if Decimal.isInfinite y then ['i', 'n', 'f', '%'] else Decimal.fixed precision y ++ ['%']
    | 'e' =>
      let (mantissa, exponent) := scientific precision x
      mantissa ++ exponent
    | _ => general precision spec.alternate x

/-- A real carried out by a specification. -/
def real (spec : Spec) (code : Char) (x : Float) : List Char :=
  let negative := Decimal.isNegative x && !Decimal.isNaN x
  let body := spec.realBody (lower code) x.abs
  let body := if lower code == code then body else body.map upper
  spec.pad (spec.signText negative) (groupLeading spec.grouping body) .right

/-! ## Texts -/

/-- A text carried out by a specification: cut to the precision, then filled up. -/
def text (spec : Spec) (s : List Char) : List Char :=
  let s := match spec.precision with
    | some p => s.take p
    | none => s
  spec.pad [] s .left

end Spec

end Worksheet.Display
