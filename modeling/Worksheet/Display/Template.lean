import Worksheet.Display.DatePattern
import Worksheet.Display.Spec

/-!
# Display templates

A template is text with fields in braces. Every field stands for the value, in its natural text or
as a specification behind a colon says; for dates the specification is a date pattern. A doubled
brace is a brace.

Main definition: `applyTemplate`.
-/

namespace Worksheet.Display

open Worksheet.Text

/-- Is the value a number or a truth value? -/
def isNumber : Value → Bool
  | .int _ | .real _ | .rational _ | .bool _ => true
  | _ => false

/-- A value as an integer, if it is one. -/
def toInteger? : Value → Option Int
  | .int n => some n.toInt
  | .bool b => some (if b then 1 else 0)
  | _ => none

/-- The type letters of integers. -/
def integerTypes : List Char := ['d', 'n', 'x', 'X', 'o', 'b']

/-- The type letters of reals. -/
def realTypes : List Char := ['f', 'F', 'e', 'E', 'g', 'G', '%']

/-- A number without a type letter: integers as decimals, others by precision where there is one,
and else their natural text with its leading digits grouped. -/
def untypedNumber (style : Style) (spec : Spec) (v : Value) : List Char :=
  match toInteger? v, spec.precision, v.toReal? with
  | some n, _, _ => spec.integer 'd' n
  | none, some _, some x => spec.real 'g' x
  | none, _, _ =>
    match render style v with
    | '-' :: body => spec.pad ['-'] (Spec.groupLeading spec.grouping body) .right
    | body => spec.pad (spec.signText false) (Spec.groupLeading spec.grouping body) .right

/-- A value in a specification other than a date pattern. -/
def formatBySpec (style : Style) (spec : Spec) (v : Value) : Except TemplateError (List Char) :=
  let unknown (code : Char) : Except TemplateError (List Char) := .error (.unknownType code v.kind)
  match spec.type with
  | none => .ok (if isNumber v then untypedNumber style spec v else spec.text (render style v))
  | some code =>
    if code == 's' then
      if isNumber v then unknown code else .ok (spec.text (render style v))
    else if integerTypes.contains code then
      match toInteger? v with
      | some n => .ok (spec.integer code n)
      | none => unknown code
    else if realTypes.contains code then
      match v.toReal? with
      | some x => .ok (spec.real code x)
      | none => unknown code
    else unknown code

/-- A value in a field: its natural text if nothing is said. -/
def formatValue (style : Style) (spec : List Char) (v : Value) : Except TemplateError (List Char) :=
  let byPattern (d : Date) (t : Option DateTime) : Except TemplateError (List Char) :=
    match datePattern? d t spec with
    | some s => .ok s
    | none => .error (.invalidPattern (String.ofList spec))
  if spec.isEmpty then .ok (render style v)
  else
    match v with
    | .date d => byPattern d none
    | .dateTime t => byPattern t.date (some t)
    | v => do
      let spec ← Spec.read spec
      formatBySpec style spec v

/-- The name and the specification of a field; what follows an exclamation mark in the name does not
count. -/
def splitField (field : List Char) : List Char × List Char :=
  let (name, spec) := (cutAt? ':' field).getD (field, [])
  (((cutAt? '!' name).map Prod.fst).getD name, spec)

/-- A value in a field, which must have no name or the name `0`. -/
def fillField (style : Style) (field : List Char) (v : Value) : Except TemplateError (List Char) :=
  let (name, spec) := splitField field
  if name = [] ∨ name = ['0'] then formatValue style spec v
  else .error (.unknownField (String.ofList name))

/-- Fills a template with a value. -/
def fill (style : Style) (v : Value) (template : List Char) : Except TemplateError (List Char) :=
  match template with
  | [] => .ok []
  | '\x7b' :: '\x7b' :: r => (fill style v r).map ('\x7b' :: ·)
  | '\x7d' :: '\x7d' :: r => (fill style v r).map ('\x7d' :: ·)
  | '\x7d' :: _ => .error .strayClose
  | '\x7b' :: r =>
    match _h : cutAt? '\x7d' r with
    | none => .error .strayOpen
    | some (field, rest) => do
      let s ← fillField style field v
      let t ← fill style v rest
      .ok (s ++ t)
  | c :: r => (fill style v r).map (c :: ·)
termination_by template.length
decreasing_by
  all_goals simp only [List.length_cons]
  all_goals first
    | omega
    | (have hl := congrArg List.length (cutAt?_eq_some _h).1
       simp only [List.length_append, List.length_cons] at hl
       omega)

/-- Fills a template with a value. -/
def applyTemplate (style : Style) (template : String) (v : Value) : Except TemplateError String :=
  (fill style v template.toList).map String.ofList

/-- A value in a template, or its natural text if the template is empty. -/
def present (style : Style) (template : String) (v : Value) : Except TemplateError (List Char) :=
  if template.isEmpty then .ok (render style v) else fill style v template.toList

end Worksheet.Display
