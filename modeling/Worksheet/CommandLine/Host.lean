import Worksheet.Calendar.DateTime

/-!
# The outside of the command

What the command needs from where it runs. It is written against this interface, so that it can run
on files as well as on texts in memory.
-/

namespace Worksheet.CommandLine

/-- Why a file cannot be read or written. -/
inductive FileError where
  /-- It does not exist. -/
  | notFound
  /-- A part of its path is a file. -/
  | notDirectory
  /-- It is a directory. -/
  | isDirectory
  /-- It may not be opened. -/
  | denied
  /-- It does not hold text. -/
  | notText
  /-- Anything else. -/
  | other (reason : String)
deriving DecidableEq, Repr

/-- The wording of the error, with the number by which the system knows it. -/
def FileError.message : FileError → String
  | notFound => "No such file or directory (os error 2)"
  | notDirectory => "Not a directory (os error 20)"
  | isDirectory => "Is a directory (os error 21)"
  | denied => "Permission denied (os error 13)"
  | notText => "stream did not contain valid UTF-8"
  | other reason => reason

/-- Where the command runs. -/
structure Host (m : Type → Type) where
  /-- The size of a file in bytes. -/
  size : String → m (Except FileError Nat)
  /-- The text of a file. -/
  read : String → m (Except FileError String)
  /-- Replaces the text of a file. -/
  write : String → String → m (Except FileError Unit)
  /-- The text of the standard input. -/
  input : m (Except FileError String)
  /-- Writes to the standard output. -/
  output : String → m Unit
  /-- Writes to the standard error. -/
  complain : String → m Unit
  /-- The local time. -/
  now : m DateTime
  /-- Where the user's settings are, if the user has a place for them. -/
  userSettings : m (Option String)

end Worksheet.CommandLine
