import Worksheet.Notation.Basic
import Worksheet.Text.Split

/-!
# Declarations

A line may give its value a name: `name = expression` declares a variable and
`name(a, b) = expression` a function; `:=` may stand for `=`. Anything else has a value only.

Main definitions: `Declaration.read`, and `bindCalls`, which turns the calls of declared functions
into calls of function values.
-/

namespace Worksheet

open Text

/-- What a line declares. -/
inductive Binding where
  /-- Nothing. -/
  | anonymous
  /-- A variable. -/
  | variable (name : String)
  /-- A function with parameters. -/
  | function (name : String) (params : List String)
deriving DecidableEq

/-- The declared name. -/
def Binding.name? : Binding → Option String
  | .anonymous => none
  | .variable name => some name
  | .function name _ => some name

/-- A line's binding and the expression that it is bound to, in worksheet notation. -/
structure Declaration where
  /-- What is declared. -/
  binding : Binding
  /-- What it stands for. -/
  body : String
deriving DecidableEq

/-- Why a text declares nothing and has no value either. -/
inductive DeclarationError where
  /-- What stands before the assignment is neither a name nor a function with parameters. -/
  | invalid (text : String)
  /-- Nothing stands on one side of the assignment. -/
  | incomplete (text : String)
deriving DecidableEq

/-- The wording of the error. -/
def DeclarationError.message : DeclarationError → String
  | invalid text => "Invalid function or variable declaration: " ++ text
  | incomplete text => "Incomplete declaration: " ++ text

namespace Declaration

/-- A colon and an equals sign, or an equals sign that is no part of a comparison. -/
def assignment : Separator := fun before after =>
  match after with
  | ':' :: '=' :: rest => some rest
  | '=' :: rest =>
    let compares := match before with
      | some c => c == '=' || c == '!' || c == '<' || c == '>'
      | none => false
    if compares || rest.head? == some '=' then none else some rest
  | _ => none

/-- A function's name and its parameters, of which there is at least one. -/
def functionHead? (s : List Char) : Option (List Char × List (List Char)) :=
  let name := s.takeWhile isNameChar
  match trimStart (s.dropWhile isNameChar) with
  | '(' :: r =>
    match cutAt? ')' r with
    | some (inside, []) =>
      let params := (splitAt (· == ',') inside).map trim
      if isIdentifier name && params.all isIdentifier then some (name, params) else none
    | _ => none
  | _ => none

/-- The function literal with these parameters and body. -/
def functionLiteral (params : List (List Char)) (body : List Char) : List Char :=
  [Notation.functionMark] ++ joinWith [',', ' '] params ++ [Notation.functionMark, ' '] ++ body

/-- Splits a text into what it declares and the expression. -/
def read (text : List Char) : Except DeclarationError Declaration :=
  let text := trim text
  match cutPlain? assignment text with
  | none => .ok ⟨.anonymous, String.ofList text⟩
  | some (left, right) =>
    let left := trim left
    let right := trim right
    if left.isEmpty || right.isEmpty then .error (.incomplete (String.ofList text))
    else
      match functionHead? left with
      | some (name, params) =>
        .ok ⟨.function (String.ofList name) (params.map String.ofList),
          String.ofList (functionLiteral params right)⟩
      | none =>
        if isIdentifier left then .ok ⟨.variable (String.ofList left), String.ofList right⟩
        else .error (.invalid (String.ofList text))

end Declaration

/-! ## Calls of declared functions -/

/-- A name that begins a word, and the text behind an opening parenthesis that follows it. -/
def callSite? (before after : List Char) : Option (List Char × List Char) :=
  match after with
  | [] => none
  | c :: _ =>
    if isNameStart c && Notation.wordStart before after then
      match trimStart (after.dropWhile isNameChar) with
      | '(' :: rest => some (after.takeWhile isNameChar, rest)
      | _ => none
    else none

/-- A call of a name that is a function becomes a call of the function value, unless a point makes
it a call of a method. -/
def boundCall (isFunction : String → Bool) : Pattern (List Char) := fun before after =>
  let unchanged (rest : List Char) := (Notation.covered after rest, rest)
  match after with
  | '.' :: r => (callSite? ('.' :: before) r).map fun p => unchanged p.2
  | _ =>
    (callSite? before after).map fun (name, rest) =>
      if isFunction (String.ofList name) then (name ++ ".call(".toList, rest) else unchanged rest

/-- Turns every call of a name that is a function into a call of the function value. -/
def bindCalls (isFunction : String → Bool) (s : List Char) : List Char :=
  mapPlain (boundCall isFunction).substitute s

end Worksheet
