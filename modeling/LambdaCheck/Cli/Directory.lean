import LambdaCheck.Cli.Session

/-!
A run in a directory of its own: the only things it can reach are its standard input, given as
bytes, and the files of one directory, which start as given and are listed by name afterwards.

The directory answers as an operating system would. A name that is not there cannot be read, and
the empty name can be neither read nor written; `.` names the directory itself, which cannot be
read or written as a file; a name longer than 255 bytes is refused whatever the directory holds.
Standard input must be UTF-8.
-/

namespace LambdaCheck

namespace Cli

/-- Standard input and the files of a directory. -/
structure Directory where
  stdin : List UInt8
  files : List (String × String)
deriving DecidableEq, Repr

namespace Directory

/-- The longest file name, in bytes, that the system accepts. -/
def nameLimit : Nat := 255

def lookup (d : Directory) (name : String) : Option String :=
  (d.files.find? (·.1 == name)).map (·.2)

def readInput (d : Directory) : Option String → Except SystemError String
  | none =>
    match String.fromUTF8? (ByteArray.mk d.stdin.toArray) with
    | some s => .ok s
    | none => .error .invalidUtf8
  | some name =>
    if nameLimit < name.utf8ByteSize then .error .nameTooLong
    else if name = "." then .error .isDirectory
    else
      match d.lookup name with
      | some s => .ok s
      | none => .error .notFound

/-- The files with `name` holding `text`, in place of any earlier file of that name. -/
def store (files : List (String × String)) (name text : String) : List (String × String) :=
  if files.any (·.1 == name) then files.map fun f => if f.1 == name then (name, text) else f
  else files ++ [(name, text)]

def writeFile (d : Directory) (name text : String) : Except SystemError Directory :=
  if nameLimit < name.utf8ByteSize then .error .nameTooLong
  else if name = "." then .error .isDirectory
  else if name = "" then .error .notFound
  else .ok { d with files := store d.files name text }

/-- Reading and writing through a directory that a run may change. -/
def access : Files (StateM Directory) where
  read path := do
    return ((← get).readInput path).mapError (·.toFailure)
  write name text := do
    match (← get).writeFile name text with
    | .ok d => set d; return .ok ()
    | .error e => return .error e.toFailure

def listing (d : Directory) : List (String × String) :=
  d.files.mergeSort fun a b => decide (a.1 ≤ b.1)

end Directory

/-- A run in a directory: its outcome and the directory it leaves. -/
def runIn (d : Directory) (args : List String) : Outcome × Directory :=
  (run Directory.access args).run d

end Cli

end LambdaCheck
