import Std.Time.Zoned
import Worksheet.CommandLine.Basic

/-!
# The program

Runs the command on files, the standard streams and the clock of the system.
-/

namespace Worksheet.CommandLine

/-- Why the system has refused something, with a number of its own for what has no wording here. -/
def FileError.ofSystem : IO.Error → FileError
  | .noFileOrDirectory .. => .notFound
  | .permissionDenied .. => .denied
  | .inappropriateType _ 21 _ => .isDirectory
  | .inappropriateType .. => .notDirectory
  | e => .other (toString e)

/-- The result of an action that may be refused. -/
def attempt {α : Type} (action : IO α) : IO (Except FileError α) := do
  match ← action.toBaseIO with
  | .ok a => return .ok a
  | .error e => return .error (.ofSystem e)

/-- The text that bytes hold. -/
def decode (bytes : Except FileError ByteArray) : Except FileError String := do
  match String.fromUTF8? (← bytes) with
  | some s => .ok s
  | none => .error .notText

/-- Where the settings of the user are. -/
def userSettingsPath : IO (Option String) := do
  let inside (directory : String) : String := directory ++ "/mathsheet/settings.toml"
  match ← IO.getEnv "XDG_CONFIG_HOME", ← IO.getEnv "HOME" with
  | some directory, home =>
    if directory.startsWith "/" then return some (inside directory)
    else return home.map fun h => inside (h ++ "/.config")
  | none, home => return home.map fun h => inside (h ++ "/.config")

/-- The local time of the system. -/
def localTime : IO DateTime := do
  let t ← Std.Time.PlainDateTime.now
  let date := Date.ofCivil? t.date.year.toInt t.date.month.toNat t.date.day.toNat
  let second := min t.time.second.val.toNat 59
  match date.bind fun d =>
    DateTime.ofParts? d t.time.hour.toNat t.time.minute.toNat second t.time.nanosecond.toNat with
  | some t => return t
  | none => throw (IO.userError "the clock is out of range")

/-- The system as a host. -/
def system : Host IO where
  size path := do
    match ← attempt (IO.FS.readBinFile path) with
    | .ok bytes => return .ok bytes.size
    | .error .isDirectory => return .ok 0
    | .error e => return .error e
  read path := do return decode (← attempt (IO.FS.readBinFile path))
  write path text := attempt (IO.FS.writeFile path text)
  input := do return decode (← attempt ((← IO.getStdin).readBinToEnd))
  output := IO.print
  complain := IO.eprint
  now := localTime
  userSettings := userSettingsPath

end Worksheet.CommandLine

/-- Runs the command with the arguments of the program. -/
def main (args : List String) : IO UInt32 :=
  Worksheet.CommandLine.run Worksheet.CommandLine.system args
