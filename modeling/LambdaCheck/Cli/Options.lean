/-!
The command line's arguments. The first argument names the command, `tokens` or `check`; after
it come the options `--json`, `--verbose` and `--output FILE`, and at most one path to read
instead of standard input. `-h` or `--help` anywhere asks for the usage text.

The options are taken in a fixed order, each at its first exact occurrence, and removed from the
list; whatever is left is the path. `--output` takes the argument after it, whatever that is.
With nothing after it, or written as `--output=FILE`, it is not an option at all and stays in the
list, where it counts as a path.
-/

namespace LambdaCheck

namespace Cli

inductive Command where
  | tokens
  | check
deriving DecidableEq, Repr, Inhabited

structure Invocation where
  command : Command
  json : Bool
  verbose : Bool
  output : Option String
  path : Option String
deriving DecidableEq, Repr

/-- Why the arguments ask for no run. Every refusal prints the usage text. -/
inductive Refusal where
  | help
  | noCommand
  | unknownCommand (name : String)
  | manyPaths
deriving DecidableEq, Repr

/-- The usage text, ending with an empty line. -/
def usage : String :=
  "lambdac 0.1: Check curried-lambda expressions.\n\n" ++
  "USAGE:\n" ++
  "    lambdac [SUBCOMMAND] [OPTION...] [PATH]\n\n" ++
  "OPTIONS:\n" ++
  "    -h, --help       show this message\n" ++
  "    --json           output JSON instead of text\n" ++
  "    --output FILE    path to write output file\n" ++
  "    --verbose        report token and diagnostic counts on stderr\n\n" ++
  "SUBCOMMANDS:\n" ++
  "    tokens           Print the token table\n" ++
  "    check            Print diagnostics, exiting with 1 if there are any\n\n" ++
  "PATH defaults to standard input.\n\n"

def Refusal.message : Refusal → String
  | .help => usage
  | .noCommand => "error: subcommand required\n" ++ usage
  | .unknownCommand name => "error: unknown subcommand " ++ name ++ "\n" ++ usage
  | .manyPaths => "error: only one input path is accepted\n" ++ usage

/-- The arguments without the first one equal to `key`, if there is one. -/
def takeFlag (key : String) (args : List String) : Bool × List String :=
  if key ∈ args then (true, args.erase key) else (false, args)

/-- The value after the first `key`, and the arguments without the two of them. With no argument
after the key, nothing is taken. -/
def takeValue (key : String) : List String → Option String × List String
  | [] => (none, [])
  | a :: rest =>
    if a = key then
      match rest with
      | v :: more => (some v, more)
      | [] => (none, [a])
    else
      let (v, rest') := takeValue key rest
      (v, a :: rest')

def parseArgs (args : List String) : Except Refusal Invocation := do
  if "-h" ∈ args ∨ "--help" ∈ args then throw .help
  let (name, args) ← match args with
    | a :: rest => if a.toList.head? = some '-' then throw .noCommand else pure (a, rest)
    | [] => throw .noCommand
  let command ← match name with
    | "tokens" => pure Command.tokens
    | "check" => pure Command.check
    | _ => throw (.unknownCommand name)
  let (output, args) := takeValue "--output" args
  let (json, args) := takeFlag "--json" args
  let (verbose, args) := takeFlag "--verbose" args
  match args with
  | [] => pure ⟨command, json, verbose, output, none⟩
  | [path] => pure ⟨command, json, verbose, output, some path⟩
  | _ => throw .manyPaths

example : (parseArgs ["check", "--output", "--json", "x"]).toOption =
    some ⟨.check, false, false, some "--json", some "x"⟩ := by decide

end Cli

end LambdaCheck
