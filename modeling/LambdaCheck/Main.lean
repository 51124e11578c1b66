import LambdaCheck.Cli.Session

/-!
The `lambdac` program: a run of the command line against the real standard input, standard
output and file system. Everything it prints is decided by `Cli.run`; this module only performs
the reads and writes and reports the system's refusals in the system's own wording.
-/

namespace LambdaCheck

namespace Cli

/-- The error number of a system error code, which some calls give negated: a code from 2^31
on stands for its negation modulo 2^32. -/
def errorNumber (code : UInt32) : Nat :=
  if code.toNat < 2147483648 then code.toNat else 4294967296 - code.toNat

/-- The standard description of the error numbers a run can meet when it opens, reads or writes
a file. -/
def errorDescription? : Nat → Option String
  | 1 => some "Operation not permitted"
  | 2 => some "No such file or directory"
  | 5 => some "Input/output error"
  | 13 => some "Permission denied"
  | 17 => some "File exists"
  | 20 => some "Not a directory"
  | 21 => some "Is a directory"
  | 24 => some "Too many open files"
  | 26 => some "Text file busy"
  | 27 => some "File too large"
  | 28 => some "No space left on device"
  | 30 => some "Read-only file system"
  | 36 => some "File name too long"
  | 40 => some "Too many levels of symbolic links"
  | _ => none

def numbered (code : UInt32) (details : String) : SystemError :=
  .other (errorNumber code) ((errorDescription? (errorNumber code)).getD details)

/-- A refusal of the system as the run reports it: the description and the error number when the
system gave one. -/
def systemError : IO.Error → SystemError
  | .alreadyExists _ code details | .otherError code details | .resourceBusy code details
  | .resourceVanished code details | .unsupportedOperation code details
  | .hardwareFault code details | .unsatisfiedConstraints code details
  | .illegalOperation code details | .protocolError code details
  | .timeExpired code details | .interrupted _ code details
  | .noFileOrDirectory _ code details | .invalidArgument _ code details
  | .permissionDenied _ code details | .resourceExhausted _ code details
  | .inappropriateType _ code details | .noSuchThing _ code details =>
    numbered code details
  | e => .other 0 (toString e)

def system : Files IO where
  read path := do
    try
      let bytes ← match path with
        | none => do (← IO.getStdin).readBinToEnd
        | some name => IO.FS.readBinFile name
      match String.fromUTF8? bytes with
      | some text => return .ok text
      | none => return .error SystemError.invalidUtf8.toFailure
    catch e => return .error (systemError e).toFailure
  write name text := do
    try
      IO.FS.writeFile name text
      return .ok ()
    catch e => return .error (systemError e).toFailure

end Cli

end LambdaCheck

def main (args : List String) : IO UInt32 := do
  let outcome ← LambdaCheck.Cli.run LambdaCheck.Cli.system args
  IO.eprint outcome.stderr
  IO.print outcome.stdout
  return outcome.status.toUInt32
