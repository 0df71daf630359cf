import Worksheet.CommandLine.Host
import Worksheet.Text.Split

/-!
# A host in memory

Files are texts with paths from one directory on. A directory is there if a file is in it. Nothing
outside that directory is there.

Main definitions: `Memory` and `Memory.host`.
-/

namespace Worksheet.CommandLine

open Text

/-- What is in memory. -/
structure Memory where
  /-- The files, each with the parts of its path. -/
  files : List (List String × String)
  /-- The text of the standard input. -/
  input : String
  /-- What has been written to the standard output. -/
  output : String := ""
  /-- What has been written to the standard error. -/
  complaints : String := ""
  /-- The local time. -/
  now : DateTime
  /-- Where the user's settings are. -/
  userSettings : Option String

namespace Memory

/-- The parts of a path. -/
def parts (path : String) : List String :=
  ((splitAt (· == '/') path.toList).map String.ofList).filter fun p => p != "" && p != "."

/-- What a path leads to. -/
inductive Target where
  /-- The directory with this path. -/
  | directory (path : List String)
  /-- The file with this path. -/
  | file (path : List String) (text : String)
  /-- A place in a directory where there is nothing. -/
  | free (path : List String)

/-- What is at a path. -/
def targetAt (m : Memory) (path : List String) : Target :=
  match m.files.lookup path with
  | some text => .file path text
  | none =>
    if path.isEmpty || m.files.any fun f => path.isPrefixOf f.1 then .directory path else .free path

/-- Where parts lead to from a target. -/
def follow (m : Memory) (t : Target) : List String → Except FileError Target
  | [] => .ok t
  | part :: rest =>
    match t with
    | .file .. => .error .notDirectory
    | .free _ => .error .notFound
    | .directory path =>
      if part == ".." then
        if path.isEmpty then .error .notFound else follow m (.directory path.dropLast) rest
      else follow m (m.targetAt (path ++ [part])) rest

/-- What a path leads to; in front of a slash at the end must be a directory. -/
def resolve (m : Memory) (path : String) : Except FileError Target := do
  let s := path.toList
  if s.isEmpty || s.head? == some '/' then .error .notFound
  else
    match ← m.follow (.directory []) (parts path) with
    | .file path text =>
      if s.getLast? == some '/' then .error .notDirectory else .ok (.file path text)
    | .free path => if s.getLast? == some '/' then .error .notFound else .ok (.free path)
    | .directory path => .ok (.directory path)

/-- The text of a file. -/
def read (m : Memory) (path : String) : Except FileError String := do
  match ← m.resolve path with
  | .file _ text => .ok text
  | .directory _ => .error .isDirectory
  | .free _ => .error .notFound

/-- The size of a file or directory in bytes. -/
def size (m : Memory) (path : String) : Except FileError Nat := do
  match ← m.resolve path with
  | .file _ text => .ok text.utf8ByteSize
  | .directory _ => .ok 4096
  | .free _ => .error .notFound

/-- The memory with another text in a file, which may be new. -/
def write (m : Memory) (path text : String) : Except FileError Memory := do
  match ← m.resolve path with
  | .directory _ => .error .isDirectory
  | .file path _ | .free path =>
    .ok { m with files := m.files.filter (fun f => f.1 != path) ++ [(path, text)] }

/-- The host that works on what is in memory. -/
def host : Host (StateM Memory) where
  size path := do return (← get).size path
  read path := do return (← get).read path
  write path text := do
    match (← get).write path text with
    | .ok m =>
      set m
      return .ok ()
    | .error e => return .error e
  input := do return .ok (← get).input
  output text := modify fun m => { m with output := m.output ++ text }
  complain text := modify fun m => { m with complaints := m.complaints ++ text }
  now := do return (← get).now
  userSettings := do return (← get).userSettings

end Memory

end Worksheet.CommandLine
