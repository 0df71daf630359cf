import Worksheet.CommandLine.Clock

/-!
# Arguments of the command

Main definitions: `Options.read` and `usage`.
-/

namespace Worksheet.CommandLine

/-- What the command is to do. -/
structure Options where
  /-- The worksheet, if it is a file. -/
  file : Option String := none
  /-- Lines to be run instead of a worksheet. -/
  commands : List String := []
  /-- Is the worksheet to be rewritten? -/
  inPlace : Bool := false
  /-- Where else the result is to be written. -/
  output : Option String := none
  /-- Where the settings are. -/
  config : Option String := none
  /-- Are there no settings to be looked for? -/
  noConfig : Bool := false
  /-- What the clock words denote. -/
  now : Option DateTime := none
  /-- Are the variables to be shown? -/
  showVariables : Bool := false

/-- Why arguments are refused. -/
inductive UsageError where
  /-- An option lacks its value. -/
  | missingValue (reason : String)
  /-- No option has this name. -/
  | unknownOption (name : String)
  /-- There is a file already. -/
  | unexpected (arg : String)
  /-- The text is no moment. -/
  | invalidDate (text : String)
  /-- There is no file to be rewritten. -/
  | nothingInPlace
deriving DecidableEq, Repr

/-- The wording of the error. -/
def UsageError.message : UsageError → String
  | missingValue reason => reason
  | unknownOption name => "Unknown option: " ++ name
  | unexpected arg => "Unexpected argument: " ++ arg
  | invalidDate text => "invalid date '" ++ text ++ "'"
  | nothingInPlace => "--in-place requires a FILE"

/-- Is the usage shown with the error? -/
def UsageError.showsUsage : UsageError → Bool
  | unknownOption _ | unexpected _ => true
  | _ => false

/-- How the command is used, line by line. -/
def usageLines : List String :=
  ["Usage: mathsheet [OPTIONS] [FILE]",
   "",
   "Arguments:",
   "  [FILE]                    Worksheet to recalculate (default: stdin, or '-')",
   "",
   "Options:",
   "  -c, --command <EXPR>      Evaluate a line and print its result (can be repeated)",
   "  -i, --in-place            Rewrite FILE with the recalculated worksheet",
   "  -o, --output <FILE>       Write the recalculated worksheet to FILE",
   "  --config <path>           Load default settings from TOML file",
   "  --no-config               Ignore the user settings file",
   "  --today <YYYY-MM-DD>      Fix the date used for 'today' and 'now'",
   "  --now <YYYY-MM-DD HH:MM:SS>  Fix the moment used for 'today' and 'now'",
   "  --vars                    Print the variables report after recalculating",
   "  -h, --help                Print help",
   "",
   "Set MATHSHEET_LOG (e.g. MATHSHEET_LOG=debug) for diagnostics on stderr."]

/-- How the command is used. -/
def usage : String := String.join (usageLines.map fun line => line ++ "\n")

namespace Options

/-- Reads arguments from left to right behind those that have been read; none if help is
asked for. -/
def readFrom (o : Options) : List String → Except UsageError (Option Options)
  | [] => if o.inPlace && o.file.isNone then .error .nothingInPlace else .ok (some o)
  | "-h" :: _ | "--help" :: _ => .ok none
  | ["-c"] | ["--command"] => .error (.missingValue "--command requires an expression")
  | "-c" :: line :: rest | "--command" :: line :: rest =>
    readFrom { o with commands := o.commands ++ [line] } rest
  | "-i" :: rest | "--in-place" :: rest => readFrom { o with inPlace := true } rest
  | ["-o"] | ["--output"] => .error (.missingValue "--output requires a file path")
  | "-o" :: path :: rest | "--output" :: path :: rest =>
    readFrom { o with output := some path } rest
  | ["--config"] => .error (.missingValue "--config requires a file path")
  | "--config" :: path :: rest => readFrom { o with config := some path } rest
  | "--no-config" :: rest => readFrom { o with noConfig := true } rest
  | ["--today"] | ["--now"] => .error (.missingValue "--today/--now require a value")
  | "--today" :: text :: rest | "--now" :: text :: rest =>
    match DateTime.read? text.toList with
    | some t => readFrom { o with now := some t } rest
    | none => .error (.invalidDate text)
  | "--vars" :: rest => readFrom { o with showVariables := true } rest
  | arg :: rest =>
    if arg == "-" && o.file.isNone then readFrom o rest
    else if arg.toList.head? == some '-' then .error (.unknownOption arg)
    else if o.file.isSome then .error (.unexpected arg)
    else readFrom { o with file := some arg } rest

/-- Reads the arguments; none if help is asked for. -/
def read (args : List String) : Except UsageError (Option Options) := readFrom {} args

end Options

end Worksheet.CommandLine
