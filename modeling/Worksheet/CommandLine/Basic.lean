import Worksheet.CommandLine.Config
import Worksheet.CommandLine.Options
import Worksheet.Recalculation

/-!
# The command

Recalculates a worksheet, or runs the lines that its arguments give. It fails if a line fails.

Main definition: `run`, whose result is the exit code.
-/

namespace Worksheet.CommandLine

variable {m : Type → Type} [Monad m]

/-- A session with the settings and the moment that the options say. -/
def startSession (host : Host m) (o : Options) : m Session := do
  let (settings, warning) ← if o.noConfig then pure ({}, none) else loadSettings host o.config
  if let some w := warning then host.complain ("Warning: " ++ w ++ "\n")
  let now ← match o.now with
    | some t => pure t
    | none => host.now
  return .start settings now

/-- Writes a text and ends the line. -/
def printLine (host : Host m) (s : List Char) : m Unit := host.output (String.ofList s ++ "\n")

/-- Shows the variables if the options say so. -/
def showVariables (host : Host m) (o : Options) (s : Session) : m Unit :=
  if o.showVariables then printLine host s.variablesReport else pure ()

/-- Runs lines up to the first one that fails: the session behind them, none if one has failed. -/
def runLines (host : Host m) (s : Session) : List String → m (Option Session)
  | [] => return some s
  | line :: rest => do
    match s.run line.toList with
    | (.ok outcome, s) =>
      if let some text := outcome.text? then printLine host text
      runLines host s rest
    | (.error e, _) =>
      printLine host ("#ERR: " ++ e.message).toList
      return none

/-- Runs the lines that the options give. -/
def runCommands (host : Host m) (o : Options) : m UInt32 := do
  match ← runLines host (← startSession host o) o.commands with
  | some s =>
    showVariables host o s
    return 0
  | none => return 1

/-- The text of the worksheet, or why there is none. -/
def readWorksheet (host : Host m) (o : Options) : m (Except String String) := do
  match o.file with
  | some path =>
    match ← host.read path with
    | .ok text => return .ok text
    | .error e => return .error ("failed to read " ++ path ++ ": IO error: " ++ e.message)
  | none =>
    match ← host.input with
    | .ok text => return .ok text
    | .error e => return .error ("failed to read stdin: " ++ e.message)

/-- Writes a recalculated worksheet to where the options say, or says why it cannot. -/
def writeWorksheet (host : Host m) (o : Options) (text : String) : m (Except String Unit) := do
  match if o.inPlace then o.file else o.output with
  | none =>
    host.output text
    return .ok ()
  | some path =>
    match ← host.write path text with
    | .ok () => return .ok ()
    | .error e => return .error ("failed to write " ++ path ++ ": IO error: " ++ e.message)

/-- Tells the errors of a recalculation, each with the number of its line. -/
def complainAbout (host : Host m) (d : Document) (r : Report) : m Unit := do
  for (position, message) in r.errors do
    let number := String.ofList (Text.showNat (d.lineNumber position))
    host.complain ("line " ++ number ++ ": " ++ message ++ "\n")
  if r.truncated then
    let count := String.ofList (Text.showNat r.processed)
    host.complain ("Warning: stopped after " ++ count ++ " lines\n")

/-- Gives up with an error. -/
def fail (host : Host m) (message : String) : m UInt32 := do
  host.complain ("Error: " ++ message ++ "\n")
  return 1

/-- Recalculates a worksheet. -/
def runDocument (host : Host m) (o : Options) : m UInt32 := do
  match ← readWorksheet host o with
  | .error e => fail host e
  | .ok text =>
    let (d, report, s) := (← startSession host o).recalculate (.ofText text.toList)
    complainAbout host d report
    match ← writeWorksheet host o (String.ofList d.text) with
    | .error e => fail host e
    | .ok () =>
      showVariables host o s
      return if report.errors.isEmpty then 0 else 1

/-- Runs the command. -/
def run (host : Host m) (args : List String) : m UInt32 := do
  match Options.read args with
  | .error e =>
    let code ← fail host e.message
    if e.showsUsage then host.complain usage
    return code
  | .ok none =>
    host.complain usage
    return 0
  | .ok (some o) => if o.commands.isEmpty then runDocument host o else runCommands host o

end Worksheet.CommandLine
