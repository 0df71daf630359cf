import Worksheet.Text.Class
import Worksheet.Text.Literal

/-!
# Lines

What a line of a worksheet is, told by its first characters. Behind an expression a remark may
stand, set off by `;`, `#` or `'`, and the remark may hold a display template in braces.

Main definitions: `LineKind.ofLine`, `splitRemark` and `splitTemplate`.
-/

namespace Worksheet

open Text

/-- What a line is. -/
inductive LineKind where
  /-- Nothing. -/
  | blank
  /-- An answer or a function, as a recalculation writes it below its line. -/
  | note
  /-- A comment. -/
  | comment
  /-- Begins a section. -/
  | heading (name : List Char)
  /-- Begins a stack. -/
  | stack (name remark : List Char)
  /-- An expression whose value is not an answer. -/
  | silent (text : List Char)
  /-- A line of a table, as a recalculation writes it below its directive. -/
  | tableLine
  /-- Changes the settings. -/
  | setting (directive : List Char)
  /-- Asks for a table. -/
  | table (spec : List Char)
  /-- An expression. -/
  | expression (text : List Char)
deriving DecidableEq

/-! ## Remarks -/

/-- A character that sets off a remark. -/
def remarkMark : Separator := fun _ after =>
  match after with
  | ';' :: r | '#' :: r | '\x27' :: r => some r
  | _ => none

/-- An expression and the remark behind it, which is empty if there is none. -/
def splitRemark (line : List Char) : List Char × List Char :=
  match cutPlain? remarkMark line with
  | some (expr, remark) => (trim expr, trim remark)
  | none => (trim line, [])

/-- Neither an opening nor a closing brace. -/
def notBrace (c : Char) : Bool := c != '\x7b' && c != '\x7d'

/-- Cuts out the first pair of braces without braces inside: the text before it, the pair with what
it holds, and the text behind. -/
def cutBraces? : List Char → Option (List Char × List Char × List Char)
  | [] => none
  | c :: r =>
    let further := (cutBraces? r).map fun (before, braces, after) => (c :: before, braces, after)
    if c != '\x7b' then further
    else
      match r.dropWhile notBrace with
      | '\x7d' :: after => some ([], c :: r.takeWhile notBrace ++ ['\x7d'], after)
      | _ => further

/-- A remark without the display template in it, and the template, which is empty if there
is none. -/
def splitTemplate (remark : List Char) : List Char × List Char :=
  match cutBraces? remark with
  | some (before, template, after) => (trim (before ++ after), template)
  | none => (trim remark, [])

/-! ## Kinds -/

/-- Is the line an answer or a function that a recalculation has written? -/
def isNote (line : List Char) : Bool :=
  let text := trimStart line
  (match strip? "Answer".toList text with
    | some r => (trimStart r).head? == some '='
    | none => false) ||
  (strip? "Function:".toList text).isSome

/-- A stack's name and remark, if the line begins a stack. -/
def stackHeader? (text : List Char) : Option (List Char × List Char) := do
  let rest ← strip? ['@'] text
  let (name, remark) := splitRemark rest
  if isIdentifier name then some (name, remark) else none

/-- The directive behind `!SET`, whose letters may be of either case. -/
def directive? (text : List Char) : Option (List Char) :=
  if (text.take 5).map upper = "!SET ".toList then some (text.drop 5) else none

namespace LineKind

/-- What a line is that begins and ends with no blank. -/
def ofText (text : List Char) : LineKind :=
  if isNote text then note
  else
    match text with
    | [] => blank
    | ';' :: _ => comment
    | '#' :: r => heading (trim (r.dropWhile (· == '#')))
    | '?' :: r => silent (trim r)
    | '|' :: _ => tableLine
    | '@' :: _ =>
      match stackHeader? text with
      | some (name, remark) => stack name remark
      | none => expression text
    | '!' :: r =>
      match directive? text with
      | some d => setting (trim d)
      | none => table (trim r)
    | _ => expression text

/-- What a line is. -/
def ofLine (line : List Char) : LineKind := ofText (trim line)

end LineKind

end Worksheet
