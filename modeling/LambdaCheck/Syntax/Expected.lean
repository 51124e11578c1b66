import LambdaCheck.Token.Basic

/-!
What a grammar position accepts. Each position has a fixed, non-empty list of token kinds; a
message names them in order, with `", "` between and `" or "` before the last one.
-/

namespace LambdaCheck

/-- A grammar position's set of acceptable token kinds. -/
inductive Expected where
  | openBracket
  | lambda
  | parameter
  | arrow
  | operand
  | operator
  | operatorOrClose
  | number
  | endOfExpression
deriving DecidableEq, Repr, Inhabited

/-- Alternatives written as a list for a reader: `a`, `a or b`, `a, b or c`. -/
def listAlternatives : List String → String
  | [] => ""
  | [a] => a
  | [a, b] => a ++ " or " ++ b
  | a :: rest => a ++ ", " ++ listAlternatives rest

namespace Expected

/-- The kinds a position accepts, in the order a message names them. -/
def kinds : Expected → List TokenKind
  | openBracket => [.openBracket]
  | lambda => [.lambdaIntroducer]
  | parameter => [.identifier, .signMinus]
  | arrow => [.signMore]
  | operand => [.identifier, .integer, .float]
  | operator => [.signPlus, .signMinus, .signMultiply, .signDivide]
  | operatorOrClose => [.signPlus, .signMinus, .signMultiply, .signDivide, .closeBracket]
  | number => [.integer, .float]
  | endOfExpression => [.endOfExpression]

def accepts (e : Expected) (k : TokenKind) : Bool := e.kinds.contains k

def describe (e : Expected) : String :=
  listAlternatives (e.kinds.map TokenKind.describe)

/-- No position accepts a line feed, which is why line feeds never end a recovery. -/
theorem accepts_newLine (e : Expected) : e.accepts .newLine = false := by
  cases e <;> decide

theorem accepts_whitespace (e : Expected) : e.accepts .whitespace = false := by
  cases e <;> decide

example : operatorOrClose.describe = "`+`, `-`, `*`, `/` or `)`" := by decide

end Expected

end LambdaCheck
