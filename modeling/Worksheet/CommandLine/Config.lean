import Worksheet.CommandLine.Host
import Worksheet.CommandLine.Toml
import Worksheet.Settings

/-!
# The settings that a worksheet begins with

They come from a file of settings; a file that cannot be used is warned about, and then the settings
are the usual ones.

Main definition: `loadSettings`.
-/

namespace Worksheet.CommandLine

/-- The size of a file from which on it is not read, in bytes. -/
def configLimit : Nat := 65536

/-- The settings in a file, if it is well formed and gives them truth values. -/
def readSettings? (s : List Char) : Option Settings := do
  let entries ← Toml.read? s
  let switch (key : String) (default : Bool) : Option Bool :=
    match entries.lookup key with
    | none => some default
    | some (.value (.bool b)) => some b
    | some _ => none
  let usual : Settings := {}
  some ⟨← switch "natural_units" usual.naturalUnits,
    ← switch "pretty_exponents" usual.prettyExponents,
    ← switch "show_unassigned" usual.showUnassigned⟩

variable {m : Type → Type} [Monad m]

/-- The settings in a file, and a warning if it cannot be used. -/
def loadFile (host : Host m) (path : String) : m (Settings × Option String) := do
  match ← host.size path with
  | .error e => return ({}, some ("Failed to read metadata for " ++ path ++ ": " ++ e.message))
  | .ok size =>
    if configLimit < size then
      let sizes := "(" ++ String.ofList (Text.showNat size) ++ " bytes, max " ++
        String.ofList (Text.showNat configLimit) ++ ")"
      return ({}, some ("Refusing to read " ++ path ++ ": settings file too large " ++ sizes))
    else
      match ← host.read path with
      | .error e => return ({}, some ("Failed to read " ++ path ++ ": " ++ e.message))
      | .ok text =>
        match readSettings? text.toList with
        | some s => return (s, none)
        | none => return ({}, some ("Failed to parse " ++ path))

/-- The settings in the file at a path or, if there is no path, in the user's file, if the user has
one. -/
def loadSettings (host : Host m) (path : Option String) : m (Settings × Option String) := do
  match path with
  | some path => loadFile host path
  | none =>
    match ← host.userSettings with
    | none => return ({}, none)
    | some path =>
      match ← host.size path with
      | .ok _ => loadFile host path
      | .error _ => return ({}, none)

end Worksheet.CommandLine
