import LambdaCheck.Token.Basic

/-!
The tokenizer. At each character it decides in this order: a punctuation sign or a line feed is a
token of its own; a blank (space, tab, carriage return) is dropped; a digit starts a number, a run
of digits with at most one dot; an ASCII letter starts an identifier, which runs up to the next
reserved character; anything else is one invalid character. The tokenizer is total, and every
character of the text is either a blank or lies in exactly one token.

Identifiers stop only at reserved characters, so `*`, `.`, digits and characters beyond ASCII
stay inside them. A number keeps the first dot and hands a second one back, which then becomes
an invalid character of its own.
-/

namespace LambdaCheck

namespace Lexer

/-- The characters that end an identifier. -/
def reserved (c : Char) : Bool :=
  c == ' ' || c == '\n' || c == '\\' || c == '-' || c == '+' || c == '/' || c == '(' ||
    c == ')' || c == '\t' || c == '\r' || c == '>' || c == ';'

/-- The characters that separate tokens and are dropped. -/
def blank (c : Char) : Bool :=
  c == ' ' || c == '\t' || c == '\r'

def symbolKind? : Char → Option TokenKind
  | ';' => some .endOfExpression
  | '(' => some .openBracket
  | ')' => some .closeBracket
  | '\\' => some .lambdaIntroducer
  | '>' => some .signMore
  | '-' => some .signMinus
  | '+' => some .signPlus
  | '*' => some .signMultiply
  | '/' => some .signDivide
  | '\n' => some .newLine
  | _ => none

/-- What follows the leading digits of a number: a dot and the digits after it, if the next
character is a dot. Returns whether a dot was taken, the characters taken, and what follows. -/
def fraction : List Char → Bool × List Char × List Char
  | '.' :: rest => (true, '.' :: rest.takeWhile Char.isDigit, rest.dropWhile Char.isDigit)
  | after => (false, [], after)

/-- The rest of a number that starts with a digit: more digits, then at most one dot followed by
digits. Returns whether a dot was taken, the characters taken, and what follows. -/
def numberTail (cs : List Char) : Bool × List Char × List Char :=
  let f := fraction (cs.dropWhile Char.isDigit)
  (f.1, cs.takeWhile Char.isDigit ++ f.2.1, f.2.2)

/-- The kind of the token that starts with `c`, the characters of it after `c`, and the input
after the token. -/
def split (c : Char) (cs : List Char) : TokenKind × List Char × List Char :=
  match symbolKind? c with
  | some k => (k, [], cs)
  | none =>
    if c.isDigit then
      let (dotted, tail, rest) := numberTail cs
      (if dotted then .float else .integer, tail, rest)
    else if c.isAlpha then
      (.identifier, cs.takeWhile (fun d => !reserved d), cs.dropWhile (fun d => !reserved d))
    else
      (.invalidCharacter, [], cs)

theorem fraction_append (cs : List Char) : (fraction cs).2.1 ++ (fraction cs).2.2 = cs := by
  unfold fraction
  split
  · simp [List.takeWhile_append_dropWhile]
  · rfl

theorem numberTail_append (cs : List Char) :
    (numberTail cs).2.1 ++ (numberTail cs).2.2 = cs := by
  simp only [numberTail, List.append_assoc, fraction_append, List.takeWhile_append_dropWhile]

theorem split_append (c : Char) (cs : List Char) :
    (split c cs).2.1 ++ (split c cs).2.2 = cs := by
  unfold split
  split
  · rfl
  · split
    · exact numberTail_append cs
    · split
      · exact List.takeWhile_append_dropWhile
      · rfl

theorem split_rest_length_le (c : Char) (cs : List Char) :
    (split c cs).2.2.length ≤ cs.length := by
  have h := congrArg List.length (split_append c cs)
  rw [List.length_append] at h
  omega

def scan (pos : Nat) : List Char → List Token
  | [] => []
  | c :: cs =>
    if blank c then scan (pos + 1) cs
    else
      ⟨(split c cs).1, String.ofList (c :: (split c cs).2.1), pos⟩ ::
        scan (pos + 1 + (split c cs).2.1.length) (split c cs).2.2
termination_by cs => cs.length
decreasing_by
  · simp
  · have := split_rest_length_le c cs
    simp only [List.length_cons]
    omega

end Lexer

def tokenize (text : String) : List Token :=
  Lexer.scan 0 text.toList

end LambdaCheck
