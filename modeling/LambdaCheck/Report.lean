import LambdaCheck.Json
import LambdaCheck.Syntax.Checker
import LambdaCheck.Text

/-!
The report of a text: its tokens and its diagnostics, each diagnostic with the line and column
of its start, as a JSON document. The `tokens` field is left out when there are no tokens, so a
report that lists only diagnostics has a single field.
-/

namespace LambdaCheck

/-- A diagnostic together with the line and column where its range starts. -/
structure Located where
  diagnostic : Diagnostic
  position : LineColumn
deriving DecidableEq, Repr

structure Report where
  tokens : List Token
  diagnostics : List Located
deriving DecidableEq, Repr

namespace Report

def ofParts (text : String) (tokens : List Token) (diagnostics : List Diagnostic) : Report :=
  ⟨tokens, diagnostics.map fun d => ⟨d, lineCol text d.start⟩⟩

def full (text : String) : Report :=
  let tokens := tokenize text
  ofParts text tokens (parse tokens)

def diagnosticsOnly (text : String) : Report :=
  { full text with tokens := [] }

def tokenJson (t : Token) : Json :=
  .obj [("code", .num t.kind.code), ("kind", .str t.kind.name), ("text", .str t.text),
    ("start", .num t.start), ("length", .num t.length)]

def locatedJson (l : Located) : Json :=
  .obj [("code", .str l.diagnostic.code.name), ("message", .str l.diagnostic.message),
    ("start", .num l.diagnostic.start), ("length", .num l.diagnostic.length),
    ("line", .num l.position.line), ("column", .num l.position.column)]

/-- The report as a JSON document: `tokens` first, and only when there are some. -/
def toJson (r : Report) : Json :=
  let diagnostics := ("diagnostics", .arr (r.diagnostics.map locatedJson))
  match r.tokens with
  | [] => .obj [diagnostics]
  | ts => .obj [("tokens", .arr (ts.map tokenJson)), diagnostics]

def render (r : Report) : String := r.toJson.pretty

end Report

end LambdaCheck
