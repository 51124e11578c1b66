/-!
Tokens. There are fifteen kinds of token in the curried-lambda language. Each kind has a stable
numeric code (its place in `TokenKind.all`), a name, and a description used in messages. Only the
four arithmetic signs count as operators. `Whitespace` is never produced by the tokenizer; it
exists for token lists built elsewhere, and the checker drops it.

A token is a kind, the text it covers and the character offset where that text starts. Its
length is the number of characters of the text, never stored apart, so the two cannot disagree;
`stop` is the offset just past the token.
-/

namespace LambdaCheck

inductive TokenKind where
  | identifier
  | whitespace
  | newLine
  | closeBracket
  | openBracket
  | lambdaIntroducer
  | integer
  | float
  | signMinus
  | signPlus
  | signMultiply
  | signDivide
  | signMore
  | endOfExpression
  | invalidCharacter
deriving DecidableEq, Repr, Inhabited

namespace TokenKind

def all : List TokenKind :=
  [identifier, whitespace, newLine, closeBracket, openBracket, lambdaIntroducer, integer, float,
    signMinus, signPlus, signMultiply, signDivide, signMore, endOfExpression, invalidCharacter]

/-- The stable numeric code of a kind. -/
def code : TokenKind → Nat
  | identifier => 0
  | whitespace => 1
  | newLine => 2
  | closeBracket => 3
  | openBracket => 4
  | lambdaIntroducer => 5
  | integer => 6
  | float => 7
  | signMinus => 8
  | signPlus => 9
  | signMultiply => 10
  | signDivide => 11
  | signMore => 12
  | endOfExpression => 13
  | invalidCharacter => 14

/-- The name of a kind, as reports and listings print it. -/
def name : TokenKind → String
  | identifier => "Identifier"
  | whitespace => "Whitespace"
  | newLine => "NewLine"
  | closeBracket => "CloseBracket"
  | openBracket => "OpenBracket"
  | lambdaIntroducer => "LambdaIntroducer"
  | integer => "Integer"
  | float => "Float"
  | signMinus => "SignMinus"
  | signPlus => "SignPlus"
  | signMultiply => "SignMultiply"
  | signDivide => "SignDivide"
  | signMore => "SignMore"
  | endOfExpression => "EndOfExpression"
  | invalidCharacter => "InvalidCharacter"

def describe : TokenKind → String
  | identifier => "identifier"
  | whitespace => "whitespace"
  | newLine => "newline"
  | closeBracket => "`)`"
  | openBracket => "`(`"
  | lambdaIntroducer => "`\\`"
  | integer => "integer"
  | float => "float"
  | signMinus => "`-`"
  | signPlus => "`+`"
  | signMultiply => "`*`"
  | signDivide => "`/`"
  | signMore => "`>`"
  | endOfExpression => "`;`"
  | invalidCharacter => "invalid character"

def isOperator : TokenKind → Bool
  | signPlus | signMinus | signMultiply | signDivide => true
  | _ => false

def ofName? (s : String) : Option TokenKind :=
  all.find? (·.name == s)

theorem code_lt (k : TokenKind) : k.code < all.length := by
  cases k <;> decide

example : ofName? "SignMore" = some signMore := by decide

end TokenKind

/-- A classified piece of source text. Offsets count characters, not bytes. -/
structure Token where
  kind : TokenKind
  text : String
  start : Nat
deriving DecidableEq, Repr, Inhabited

namespace Token

def length (t : Token) : Nat := t.text.length

def stop (t : Token) : Nat := t.start + t.length

/-- The range written as `start: stop`. -/
def position (t : Token) : String :=
  toString t.start ++ ": " ++ toString t.stop

/-- How a token is named in a message: classes show their text, the others only their kind. -/
def describe (t : Token) : String :=
  match t.kind with
  | .identifier | .integer | .float | .invalidCharacter =>
    t.kind.describe ++ " `" ++ t.text ++ "`"
  | k => k.describe

/-- The same token at an offset `n` characters later, as when text is put before it. -/
def shift (n : Nat) (t : Token) : Token := { t with start := t.start + n }

@[simp] theorem stop_eq (t : Token) : t.stop = t.start + t.text.length := rfl

example : (Token.mk .float "2.5" 7).position = "7: 10" := by decide

end Token

end LambdaCheck
