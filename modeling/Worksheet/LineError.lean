import Worksheet.Declaration
import Worksheet.Display.Spec
import Worksheet.Expression.Failure
import Worksheet.Settings

/-!
# Why a line fails

Main definitions: `LineError` and its wording.
-/

namespace Worksheet

open Text

/-- Why a line of a worksheet has no result. -/
inductive LineError where
  /-- It declares nothing and is no expression either. -/
  | declaration (e : DeclarationError)
  /-- Its expression has no value. -/
  | evaluation (e : EvalError)
  /-- A value cannot be shown in its template. -/
  | template (e : Display.TemplateError)
  /-- It changes no setting. -/
  | setting (e : SettingError)
  /-- An entry of a table says nothing. -/
  | tableEntry (entry : String)
  /-- The function of an aggregate is no name. -/
  | functionName (name : String)
  /-- The function of an aggregate takes another number of arguments. -/
  | argumentCount (name : String) (taken passed : Nat)

/-- The failure behind calls of functions, which do not count. -/
def EvalError.cause : EvalError → EvalError
  | inCall e => e.cause
  | e => e

/-- Is it about a name? -/
def EvalError.concernsName (e : EvalError) : Bool :=
  match e.cause with
  | unknownName _ | unknownFunction _ => true
  | _ => false

/-- The wording of the error. -/
def LineError.message : LineError → String
  | declaration e => e.message
  | evaluation e => (if e.concernsName then "Name error: " else "") ++ e.cause.message
  | template e => e.message
  | setting e => "Invalid setting: " ++ e.message
  | tableEntry entry => "invalid table entry '" ++ entry ++ "'"
  | functionName name => "invalid function name '" ++ name ++ "'"
  | argumentCount name taken passed =>
    name ++ "() takes " ++ String.ofList (showNat taken) ++ " argument(s) but is used where " ++
      String.ofList (showNat passed) ++ " are passed"

end Worksheet
