import LambdaCheck.Syntax.Expected
import LambdaCheck.Diagnostic

/-!
Findings: the causes the checker reports, each carrying the tokens it is about. A finding is
turned into a diagnostic by `toDiagnostic`, which alone decides codes, messages and ranges.

A skipped run is reported once: the token found where something else was expected, followed by
the other tokens skipped before the one that fits, line feeds left out. Its range runs from the
first skipped token to the end of the last one.
-/

namespace LambdaCheck

/-- A problem the checker found. -/
inductive Finding where
  /-- `found` did not fit; it and the tokens `others` were skipped up to a token that fits. -/
  | skipped (expected : Expected) (found : Token) (others : List Token)
  /-- `found` did not fit and nothing after it does. -/
  | unrecoverable (expected : Expected) (found : Token)
  /-- The input ended where `expected` was due; `anchor` is the last token, if any. -/
  | earlyEnd (expected : Expected) (anchor : Option Token)
  /-- An operand names no parameter of its expression. -/
  | unknownName (name : Token)
  /-- A parameter is never used in its expression's body. -/
  | unusedParameter (name : Token)
  /-- A closing bracket closes nothing. -/
  | unmatchedClose (bracket : Token)
  /-- A closing bracket stands where an operand should start. -/
  | misplacedClose (bracket : Token)
deriving DecidableEq, Repr

namespace Finding

def skippedLine (t : Token) : String :=
  "\n  skipped " ++ t.describe ++ " at " ++ toString t.start

def expectedFound (e : Expected) (found : String) : String :=
  "expected " ++ e.describe ++ ", found " ++ found

def toDiagnostic : Finding → Diagnostic
  | skipped e found others =>
    .ofRange .unexpectedToken
      (expectedFound e found.describe ++ String.join ((found :: others).map skippedLine))
      found.start (others.getLast?.getD found).stop
  | unrecoverable e found =>
    .ofLength .unexpectedToken (expectedFound e found.describe) found.start found.length
  | earlyEnd e anchor =>
    match anchor with
    | some t => .ofLength .unexpectedEof (expectedFound e "nothing") t.start t.length
    | none => .ofLength .unexpectedEof (expectedFound e "nothing") 0 1
  | unknownName t =>
    .ofLength .unknownName ("name `" ++ t.text ++ "` does not exist in current context")
      t.start t.length
  | unusedParameter t =>
    .ofLength .unusedParameter ("unused parameter named `" ++ t.text ++ "`") t.start t.length
  | unmatchedClose t =>
    .ofLength .unmatchedCloseBracket "closing bracket without matching opening bracket"
      t.start t.length
  | misplacedClose t =>
    .ofLength .misplacedCloseBracket "closing bracket misplaced" t.start t.length

end Finding

end LambdaCheck
