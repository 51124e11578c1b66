import LambdaCheck.Cli.Options
import LambdaCheck.Cli.Listing
import LambdaCheck.Report

/-!
A run of the command line. The run reads its input, checks it, and writes what the command
prints either to standard output or to the file `--output` names; it ends with status 1 when
the arguments are refused, when reading or writing fails, or when `check` finds diagnostics.

The run reaches the outside only through a `Files` record, so the same definition serves a real
process and a model of a directory.
-/

namespace LambdaCheck

namespace Cli

/-- The refusals of the operating system that a run reports, each in the system's wording. -/
inductive SystemError where
  | notFound
  | isDirectory
  | nameTooLong
  | invalidUtf8
  | other (code : Nat) (description : String)
deriving DecidableEq, Repr

/-- The system's wording of a refusal: its description and its error number. -/
def SystemError.message : SystemError → String
  | .notFound => "No such file or directory (os error 2)"
  | .isDirectory => "Is a directory (os error 21)"
  | .nameTooLong => "File name too long (os error 36)"
  | .invalidUtf8 => "stream did not contain valid UTF-8"
  | .other code description => description ++ " (os error " ++ toString code ++ ")"

def SystemError.toFailure (e : SystemError) : Failure :=
  Failure.ofIo e.message

/-- How a run reads its input and writes its output: `read none` reads standard input, `read
(some path)` a file; `write path text` replaces the file's contents. -/
structure Files (m : Type → Type) where
  read : Option String → m (Except Failure String)
  write : String → String → m (Except Failure Unit)

structure Outcome where
  status : Nat
  stdout : String
  stderr : String
deriving DecidableEq, Repr

/-- What an invocation makes of a source text: the text it prints, its exit status, and the
counts line that `--verbose` adds on standard error. -/
structure Response where
  text : String
  status : Nat
  counts : String
deriving DecidableEq, Repr

def inputName (path : Option String) : String :=
  path.getD "<stdin>"

/-- The response of an invocation to a source text. With `--json` the report lists the tokens
only for `tokens`, and the document ends with a line feed. -/
def respond (inv : Invocation) (source : String) : Response :=
  let tokens := tokenize source
  let diagnostics := parse tokens
  let text :=
    if inv.json then
      (Report.ofParts source (if inv.command = .tokens then tokens else []) diagnostics).render
        ++ "\n"
    else
      match inv.command with
      | .tokens => tokenTable tokens
      | .check => diagnosticList source diagnostics
  let status := if inv.command = .check ∧ diagnostics ≠ [] then 1 else 0
  let counts :=
    if inv.verbose then
      inputName inv.path ++ ": " ++ toString tokens.length ++ " tokens, " ++
        toString diagnostics.length ++ " diagnostics\n"
    else ""
  ⟨text, status, counts⟩

def run [Monad m] (files : Files m) (args : List String) : m Outcome := do
  match parseArgs args with
  | .error refusal => pure ⟨1, "", refusal.message⟩
  | .ok inv =>
    match ← files.read inv.path with
    | .error f =>
      pure ⟨1, "", "input '" ++ inputName inv.path ++ "' error: " ++ f.render ++ "\n"⟩
    | .ok source =>
      let r := respond inv source
      match inv.output with
      | none => pure ⟨r.status, r.text, r.counts⟩
      | some path =>
        match ← files.write path r.text with
        | .error f => pure ⟨1, "", r.counts ++ "output error: " ++ f.render ++ "\n"⟩
        | .ok () => pure ⟨r.status, "", r.counts⟩

end Cli

end LambdaCheck
