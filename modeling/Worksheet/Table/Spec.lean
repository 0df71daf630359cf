import Worksheet.Text.Digits
import Worksheet.Text.Pattern
import Worksheet.Text.Split

/-!
# What a table shows

A table is asked for by entries between commas or semicolons. A name stands for a variable or a
stack; `kind:function:"Title"{template}` adds an aggregate, whose title and template may be left
out. Of an entry `function:name` whose first part is no kind of aggregate, the name is shown and the
function applied to the whole table.

Quoted titles and templates in braces may hold separators: before an entry is cut they are masked by
placeholders.

Main definitions: `TableSpec.read`, and `mask` and `unmask`.
-/

namespace Worksheet

open Text

/-- Where an aggregate is shown. -/
inductive AggregateKind where
  /-- In a column: a function of the row, the group and all rows. -/
  | column
  /-- In a row below each group: a function of the group and all rows. -/
  | subtotal
  /-- In a row below the table: a function of all rows. -/
  | total
deriving DecidableEq, Repr

namespace AggregateKind

/-- The kind that a word denotes, in either case. -/
def find? (word : List Char) : Option AggregateKind :=
  let word := String.ofList ((trim word).map lower)
  if ["c", "col", "column"].contains word then some column
  else if ["s", "sub", "subtotal"].contains word then some subtotal
  else if ["t", "total"].contains word then some total
  else none

/-- How many arguments the function takes. -/
def arity : AggregateKind → Nat
  | column => 3
  | subtotal => 2
  | total => 1

end AggregateKind

/-- A function applied to the rows of a table. -/
structure Aggregate where
  /-- Where it is shown. -/
  kind : AggregateKind
  /-- The name of the function. -/
  function : String
  /-- The title of the column or row. -/
  title : String
  /-- The template its values are shown in, empty for their natural text. -/
  template : String
deriving DecidableEq, Repr

/-- What a table shows. -/
structure TableSpec where
  /-- The names of variables and stacks. -/
  names : List String
  /-- The aggregates. -/
  aggregates : List Aggregate
deriving DecidableEq, Repr

namespace TableSpec

/-! ## Masking -/

/-- A quoted text, or braces up to the first closing one. -/
def guarded : Pattern (List Char) := fun _ s =>
  let upTo (opening closing : Char) (r : List Char) : Option (List Char × List Char) :=
    (cutAt? closing r).map fun (inside, rest) => (opening :: inside ++ [closing], rest)
  match s with
  | '"' :: r => upTo '"' '"' r
  | '\x7b' :: r => upTo '\x7b' '\x7d' r
  | _ => none

/-- What stands on both sides of the number in a placeholder. -/
def placeholderMark : List Char := ['@', '@', '@']

/-- The placeholder with a number. -/
def placeholder (n : Nat) : List Char := placeholderMark ++ showNat n ++ placeholderMark

/-- Guarded texts, numbered from `n` on, become their placeholders. -/
def maskFrom (n : Nat) : List (Char ⊕ List Char) → List Char
  | [] => []
  | .inl c :: rest => c :: maskFrom n rest
  | .inr _ :: rest => placeholder n ++ maskFrom (n + 1) rest

/-- A text with its guarded texts masked, and these texts. -/
def mask (s : List Char) : List Char × List (List Char) :=
  (maskFrom 0 (Pattern.scanFrom guarded [] 0 s), Pattern.found guarded s)

/-- A placeholder becomes the text it stands for, or stays if there is none. -/
def placeholderOf (saved : List (List Char)) : Pattern (List Char) := fun _ s => do
  let r ← strip? placeholderMark s
  let digits := r.takeWhile isDecimal
  let rest ← strip? placeholderMark (r.dropWhile isDecimal)
  if digits.isEmpty then none
  else
    let text := if digits.all isDigit then saved[readDigits digits]? else none
    some (text.getD (placeholderMark ++ digits ++ placeholderMark), rest)

/-- A text with the placeholders replaced. -/
def unmask (saved : List (List Char)) (s : List Char) : List Char :=
  (placeholderOf saved).substitute s

/-! ## Entries -/

/-- A text without its first braces, and these. -/
def splitBraces (s : List Char) : List Char × List Char :=
  match cutAt? '\x7b' s with
  | none => (s, [])
  | some (before, r) =>
    match cutAt? '\x7d' r with
    | none => (s, [])
    | some (inside, after) => (before ++ after, '\x7b' :: inside ++ ['\x7d'])

/-- A text without the quotes at both ends. -/
def trimQuotes (s : List Char) : List Char :=
  ((s.dropWhile (· == '"')).reverse.dropWhile (· == '"')).reverse

/-- A title, which is the function's name if none is given, and a template. -/
def splitTitle (s function : List Char) : List Char × List Char :=
  let (title, template) := splitBraces s
  let title := trim (trimQuotes (trim title))
  (if title.isEmpty then function else title, template)

/-- One entry of a specification. -/
def readEntry (saved : List (List Char)) (entry : List Char) (spec : TableSpec) :
    Except (List Char) TableSpec :=
  match (splitAtMost (· == ':') 2 entry).map fun part => unmask saved (trim part) with
  | head :: function :: rest =>
    if head.isEmpty || function.isEmpty then .error (unmask saved entry)
    else
      let aggregate (kind : AggregateKind) (function : List Char) : Aggregate :=
        let (title, template) := splitTitle (rest.headD []) function
        ⟨kind, String.ofList function, String.ofList title, String.ofList template⟩
      match AggregateKind.find? head with
      | some kind => .ok { spec with aggregates := spec.aggregates ++ [aggregate kind function] }
      | none =>
        .ok ⟨spec.names ++ [String.ofList function], spec.aggregates ++ [aggregate .total head]⟩
  | [name] => .ok { spec with names := spec.names ++ [String.ofList name] }
  | [] => .ok spec

/-- What a specification says, or its first entry that says nothing. -/
def read (s : List Char) : Except (List Char) TableSpec :=
  let (masked, saved) := mask s
  let entries := (splitAt (fun c => c == ',' || c == ';') masked).map trim
  (entries.filter fun e => !e.isEmpty).foldlM (fun spec e => readEntry saved e spec) ⟨[], []⟩

end TableSpec

end Worksheet
