import Worksheet.Notation.Operator
import Worksheet.Notation.Term
import Worksheet.Text.Literal

/-!
# Worksheet notation

Worksheet notation is expanded to a plain expression by a list of rules in order, each of which goes
over the whole text once. Text inside literals is never touched.

| rule         | text              | expanded                             |
|--------------|-------------------|--------------------------------------|
| factorial    | `5!`              | `factorial(5)`                       |
| symbols      | `2×3²`            | `2*3**2`                             |
| roots        | `√(a+b)`          | `(a+b)**(1/2)`                       |
| percent-of   | `50 * 10%`        | `50 *(10/100)`                       |
| percent-step | `100 + 10%`       | `100 *(1+10/100)`                    |
| ratio        | `3:4`             | `Fraction(3, 4)`                     |
| decimal      | `::0.6667`        | `approximate(Fraction("0.6667"))`    |
| clock        | `today`           | `date(2024, 1, 31)`                  |
| durations    | `2 weeks`         | `weeks(2)`                           |
| units        | `5 kg`            | `(5 * unit("kg"))`                   |
| stack        | `@2 + @@ + @`     | `stack_at(_stack, 2) + _stack + ans` |

Main definitions: `Rule.all`, `expand`.
-/

namespace Worksheet.Notation

open Text

/-- What an expansion depends on besides the text. -/
structure Options where
  /-- The moment that the clock words denote. -/
  now : DateTime
  /-- Are bare unit symbols quantities? -/
  naturalUnits : Bool

/-- The first character of a function without a name. -/
def functionMark : Char := '|'

/-- A rule of the notation. -/
structure Rule where
  /-- Its name. -/
  name : String
  /-- What it makes of a text. -/
  apply : Options → List Char → List Char

/-- The rule that substitutes patterns, one after the other, outside literals. -/
def Rule.ofPatterns (name : String) (patterns : Options → List (Pattern (List Char))) : Rule :=
  ⟨name, fun o => mapPlain fun s => (patterns o).foldl (fun s p => p.substitute s) s⟩

/-- Exact decimals go first, since their mark contains the other one. -/
def decimals (s : List Char) : List Char :=
  mapPlain nearDecimal.substitute (mapPlain exactDecimal.substitute s)

/-- Quantities, then the units that are left. The parameters of a function may have the names of
units, so nothing happens in a function. -/
def units (o : Options) (s : List Char) : List Char :=
  if !o.naturalUnits || s.head? == some functionMark then s
  else mapPlain bareUnit.substitute (mapPlain quantity.substitute s)

/-- The rules in their order. -/
def Rule.all : List Rule :=
  [.ofPatterns "factorial" fun _ => [factorial],
   .ofPatterns "symbols" fun _ => [signs],
   .ofPatterns "roots" fun _ => [roots],
   .ofPatterns "percent-of" fun _ => [percentOf],
   .ofPatterns "percent-step" fun _ => [percentStep],
   .ofPatterns "ratio" fun _ => [ratio],
   ⟨"decimal", fun _ => decimals⟩,
   .ofPatterns "clock" fun o =>
     [clockWord "today".toList (dateCall o.now), clockWord "now".toList (dateTimeCall o.now)],
   .ofPatterns "durations" fun _ => spanTable.map span,
   ⟨"units", units⟩,
   .ofPatterns "stack" fun _ => [stackElement, wholeStack, lastAnswer]]

/-- The rule with a name. -/
def Rule.find? (name : String) : Option Rule := Rule.all.find? fun r => r.name == name

/-- Expands the notation in a text. -/
def expand (o : Options) (s : List Char) : List Char :=
  Rule.all.foldl (fun s r => r.apply o s) (trim s)

/-- The rules that change a text, each with the text after it. -/
def changes (o : Options) (rules : List Rule) (s : List Char) : List (String × List Char) :=
  match rules with
  | [] => []
  | r :: rest =>
    let t := r.apply o s
    if t == s then changes o rest t else (r.name, t) :: changes o rest t

end Worksheet.Notation
