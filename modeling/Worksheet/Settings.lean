import Worksheet.Display.Number
import Worksheet.Text.Class

/-!
# Settings

The options of a worksheet. A directive `key=value` or `key:value` switches one of them on or off
from its line on. Keys and values may be written in either case.

Main definition: `Settings.change`.
-/

namespace Worksheet

open Text

/-- An option that can be switched on and off. -/
inductive Setting where
  /-- Bare unit symbols in expressions are quantities. -/
  | naturalUnits
  /-- Powers of ten are written with raised digits. -/
  | prettyExponents
  /-- Tables show the items of a stack that have no name. -/
  | showUnassigned
deriving DecidableEq, Repr

namespace Setting

/-- The keys, each with the option it stands for. -/
def keys : List (String × Setting) :=
  [("natural_units", naturalUnits), ("units", naturalUnits),
   ("pretty_exponents", prettyExponents), ("pretty_exponent", prettyExponents),
   ("superscripts", prettyExponents),
   ("show_unassigned", showUnassigned), ("show_anonymous", showUnassigned)]

/-- The option that a key stands for. -/
def find? (key : String) : Option Setting := keys.lookup key

end Setting

/-- Which options are on. -/
structure Settings where
  /-- `Setting.naturalUnits`. -/
  naturalUnits : Bool := false
  /-- `Setting.prettyExponents`. -/
  prettyExponents : Bool := false
  /-- `Setting.showUnassigned`. -/
  showUnassigned : Bool := true
deriving DecidableEq, Repr

/-- Why a directive changes nothing. -/
inductive SettingError where
  /-- There is no value. -/
  | noValue (directive : String)
  /-- The value is neither on nor off. -/
  | notSwitch (value key : String)
  /-- No option has the key. -/
  | unknownKey (key : String)
deriving DecidableEq, Repr

/-- The wording of the error. -/
def SettingError.message : SettingError → String
  | noValue directive => "expected key=value, got '" ++ directive ++ "'"
  | notSwitch value key => "'" ++ value ++ "' is not on/off for " ++ key
  | unknownKey key => "unknown key '" ++ key ++ "'"

namespace Settings

/-- The settings with one option switched. -/
def set (s : Settings) (option : Setting) (on : Bool) : Settings :=
  match option with
  | .naturalUnits => { s with naturalUnits := on }
  | .prettyExponents => { s with prettyExponents := on }
  | .showUnassigned => { s with showUnassigned := on }

/-- Is the option on? -/
def get (s : Settings) : Setting → Bool
  | .naturalUnits => s.naturalUnits
  | .prettyExponents => s.prettyExponents
  | .showUnassigned => s.showUnassigned

theorem get_set (s : Settings) (a b : Setting) (on : Bool) :
    (s.set a on).get b = if a = b then on else s.get b := by
  cases a <;> cases b <;> rfl

/-- How values look under these settings. -/
def style (s : Settings) : Display.Style := ⟨s.prettyExponents⟩

/-- On or off, as a directive may say it. -/
def readSwitch? (s : List Char) : Option Bool :=
  let word := String.ofList ((trim s).map lower)
  if ["on", "true", "yes", "1"].contains word then some true
  else if ["off", "false", "no", "0"].contains word then some false
  else none

/-- The key and the value of a directive, parted by the first equals sign or colon. -/
def cutDirective? (s : List Char) : Option (List Char × List Char) :=
  match s.dropWhile fun c => c != '=' && c != ':' with
  | [] => none
  | _ :: value => some (s.takeWhile fun c => c != '=' && c != ':', value)

/-- The settings behind a directive. Of two faults the one of the value is told. -/
def change (s : Settings) (directive : List Char) : Except SettingError Settings :=
  match cutDirective? directive with
  | none => .error (.noValue (String.ofList (trim directive)))
  | some (key, value) =>
    let key := String.ofList ((trim key).map lower)
    match readSwitch? value, Setting.find? key with
    | none, _ => .error (.notSwitch (String.ofList (trim value)) key)
    | some _, none => .error (.unknownKey key)
    | some on, some option => .ok (s.set option on)

end Settings

end Worksheet
