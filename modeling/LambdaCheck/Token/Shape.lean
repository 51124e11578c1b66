import LambdaCheck.Token.Basic

/-!
The shape of a token of each kind, said of its text and of the character that follows it in the
source, independently of how the tokenizer finds tokens.

A one-character kind is its character. An identifier starts with an ASCII letter, holds no
identifier stop, and is followed by a stop or by the end. An integer is a run of ASCII digits not
followed by a digit or a dot; a float is a digit, then digits and exactly one dot, not followed by
a digit. An invalid character is one character that starts no other token and is not a blank.
Whitespace tokens have no shape: the tokenizer never makes them.
-/

namespace LambdaCheck

namespace Token

/-- The characters that end an identifier: the blanks, the line feed, the brackets, the
backslash, and the signs other than `*`. -/
def identifierStops : List Char :=
  [' ', '\n', '\\', '-', '+', '/', '(', ')', '\t', '\r', '>', ';']

/-- The characters that are a token by themselves, or are dropped between tokens. -/
def ownCharacters : List Char :=
  [';', '(', ')', '\\', '>', '-', '+', '*', '/', '\n', ' ', '\t', '\r']

def symbol? : TokenKind → Option Char
  | .endOfExpression => some ';'
  | .openBracket => some '('
  | .closeBracket => some ')'
  | .lambdaIntroducer => some '\\'
  | .signMore => some '>'
  | .signMinus => some '-'
  | .signPlus => some '+'
  | .signMultiply => some '*'
  | .signDivide => some '/'
  | .newLine => some '\n'
  | _ => none

/-- The text of `t` has the form its kind demands, and `next`, the character after it if there is
one, could not have extended it. -/
def Shaped (t : Token) (next : Option Char) : Prop :=
  match t.kind with
  | .whitespace => False
  | .identifier =>
    (∃ c cs, t.text.toList = c :: cs ∧ c.isAlpha) ∧ (∀ d ∈ t.text.toList, d ∉ identifierStops) ∧
      ∀ d, next = some d → d ∈ identifierStops
  | .integer =>
    t.text.toList ≠ [] ∧ (∀ d ∈ t.text.toList, d.isDigit) ∧
      ∀ d, next = some d → ¬d.isDigit ∧ d ≠ '.'
  | .float =>
    (∃ c cs, t.text.toList = c :: cs ∧ c.isDigit ∧ cs.count '.' = 1 ∧
      ∀ d ∈ cs, d.isDigit ∨ d = '.') ∧ ∀ d, next = some d → ¬d.isDigit
  | .invalidCharacter =>
    ∃ c, t.text.toList = [c] ∧ ¬c.isAlpha ∧ ¬c.isDigit ∧ c ∉ ownCharacters
  | k => ∃ c, symbol? k = some c ∧ t.text.toList = [c]

end Token

end LambdaCheck
