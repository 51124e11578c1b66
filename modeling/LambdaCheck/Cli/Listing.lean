import LambdaCheck.Syntax.Checker
import LambdaCheck.Text

/-!
The two plain-text listings of the command line.

The token table has a header and one row per token, in four columns: the code right-aligned in
four characters, the kind's name and the text left-aligned in sixteen and twelve, and the
position; a wider cell pushes the rest of its row to the right. A line feed's text is shown as
the two characters `\n` so that every row stays on one line.

The diagnostic list gives each diagnostic as `line:column: code: message`, the message's further
lines indented by four spaces, and then, after `    | `, the text the diagnostic covers, when
that text is on one line and is not blank.
-/

namespace LambdaCheck

namespace Cli

def padLeft (width : Nat) (s : String) : String :=
  String.ofList (List.replicate (width - s.length) ' ') ++ s

def padRight (width : Nat) (s : String) : String :=
  s ++ String.ofList (List.replicate (width - s.length) ' ')

def tableRow (code kind text position : String) : String :=
  padLeft 4 code ++ "  " ++ padRight 16 kind ++ "  " ++ padRight 12 text ++ "  " ++ position ++ "\n"

def tokenRow (t : Token) : String :=
  tableRow (toString t.kind.code) t.kind.name (if t.kind = .newLine then "\\n" else t.text)
    t.position

/-- The token table: a header, then a row per token. -/
def tokenTable (tokens : List Token) : String :=
  tableRow "code" "kind" "text" "position" ++ String.join (tokens.map tokenRow)

/-- The excerpt line of a diagnostic, or nothing when the covered text is blank or spans a line
feed. -/
def snippetLine (source : String) (d : Diagnostic) : String :=
  let snippet := excerpt source (d.clamped source.length).1 (d.clamped source.length).2
  if (Text.trim snippet).isEmpty || snippet.toList.contains '\n' then ""
  else "    | " ++ snippet ++ "\n"

def diagnosticEntry (source : String) (d : Diagnostic) : String :=
  let position := lineCol source d.start
  let (first, rest) := match Text.lines d.message with
    | [] => ("", [])
    | l :: ls => (l, ls)
  toString position.line ++ ":" ++ toString position.column ++ ": " ++ d.code.name ++ ": " ++
    first ++ "\n" ++ String.join (rest.map fun l => "    " ++ Text.trimStart l ++ "\n") ++
    snippetLine source d

def diagnosticList (source : String) (diagnostics : List Diagnostic) : String :=
  String.join (diagnostics.map (diagnosticEntry source))

end Cli

end LambdaCheck
