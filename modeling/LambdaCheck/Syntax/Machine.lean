import LambdaCheck.Syntax.Finding

/-!
The checker's state and its moves on one token.

A program is a sequence of expressions `( \ params - > body numbers ;`, with stray `;` and `)`
allowed between them. The checker walks the tokens without building a tree, so its state is a
grammar position (`Phase`), the number of open brackets (`depth`), the depth below the current
expression's own bracket (`base`), and the parameters of the current expression with a flag
telling whether the body used them.

At each token the checker first tries the position's optional moves (stray separators, extra
brackets, a sign before a number), then the position's mandatory expectation (`accept`). What
happens when neither fits is the business of the checker proper.

Only the number of open brackets matters, not where they opened, so brackets are a counter. A
bracket skipped during recovery still counts: a skipped `(` is filed below the current
expression's own bracket (it raises both `depth` and `base`), and a skipped `)` closes a bracket
like any other.
-/

namespace LambdaCheck

/-- A grammar position. `first` tells whether the operand at hand is the first of the body,
which must be followed by an operator; later ones may also be followed by the closing bracket.
`left` counts the numbers still due, one per parameter. -/
inductive Phase where
  | item
  | lambda
  | params
  | arrow
  | lead (first : Bool)
  | opening (first : Bool)
  | closing (first : Bool)
  | numbers (left : Nat)
  | signed (left : Nat)
deriving DecidableEq, Repr, Inhabited

def Phase.expected : Phase → Expected
  | .item => .openBracket
  | .lambda => .lambda
  | .params => .parameter
  | .arrow => .arrow
  | .lead _ => .operand
  | .opening _ => .operand
  | .closing true => .operator
  | .closing false => .operatorOrClose
  | .numbers 0 => .endOfExpression
  | .numbers (_ + 1) => .number
  | .signed _ => .number

/-- A parameter of the current expression: the token that declares it, and whether the body
has named it. -/
structure Param where
  name : Token
  used : Bool
deriving DecidableEq, Repr

/-- The checker's state between two tokens. -/
structure State where
  phase : Phase
  depth : Nat
  base : Nat
  params : List Param
deriving DecidableEq, Repr

namespace State

def initial : State := ⟨.item, 0, 0, []⟩

/-- A closing bracket: it closes the innermost open bracket, or is reported when none is open. -/
def closeBracket (s : State) (t : Token) : State × List Finding :=
  match s.depth with
  | 0 => (s, [.unmatchedClose t])
  | d + 1 => ({ s with depth := d }, [])

/-- The effect of a skipped token on the brackets. A skipped `(` opens no group of the current
body, so it is filed below the expression's own bracket. -/
def skipBracket (s : State) (t : Token) : State × List Finding :=
  match t.kind with
  | .openBracket => ({ s with depth := s.depth + 1, base := min s.base s.depth + 1 }, [])
  | .closeBracket => s.closeBracket t
  | _ => (s, [])

def skipAll (s : State) : List Token → State × List Finding
  | [] => (s, [])
  | t :: ts =>
    let (s₁, f₁) := s.skipBracket t
    let (s₂, f₂) := s₁.skipAll ts
    (s₂, f₁ ++ f₂)

/-- An operand that is a name: every parameter of that name becomes used; a name that no
parameter has is reported. -/
def refer (s : State) (t : Token) : State × List Finding :=
  if s.params.any (·.name.text == t.text) then
    ({ s with params := s.params.map fun p =>
        if p.name.text == t.text then { p with used := true } else p }, [])
  else (s, [.unknownName t])

def unused (s : State) : List Finding :=
  (s.params.filter (!·.used)).map (.unusedParameter ·.name)

/-- The optional move of a position on a token, if the token allows one. Between expressions `;`
is passed over and `)` closes a bracket. Where an operand starts, `)` is misplaced and `(` opens
a group; after an operand, `)` closes groups of the body but never the expression's own
bracket; before a number, one sign is passed over. -/
def optional (s : State) (t : Token) : Option (State × List Finding) :=
  match s.phase, t.kind with
  | .item, .endOfExpression => some (s, [])
  | .item, .closeBracket => some (s.closeBracket t)
  | .lead _, .closeBracket => some (s, [.unmatchedClose t, .misplacedClose t])
  | .lead f, .openBracket => some ({ s with phase := .opening f, depth := s.depth + 1 }, [])
  | .opening _, .openBracket => some ({ s with depth := s.depth + 1 }, [])
  | .closing _, .closeBracket =>
    if s.base + 1 < s.depth then some ({ s with depth := s.depth - 1 }, []) else none
  | .numbers (n + 1), .signPlus => some ({ s with phase := .signed n }, [])
  | .numbers (n + 1), .signMinus => some ({ s with phase := .signed n }, [])
  | _, _ => none

/-- The move on a token that the position's expectation accepts. An opening bracket starts an
expression with no parameters; a parameter is recorded; the closing bracket of the body asks for
one number per parameter; the final `;` reports the parameters left unused and forgets them, since
no later expression can name them. -/
def accept (s : State) (t : Token) : State × List Finding :=
  match s.phase, t.kind with
  | .item, _ =>
    ({ s with phase := .lambda, params := [], base := s.depth, depth := s.depth + 1 }, [])
  | .lambda, _ => ({ s with phase := .params }, [])
  | .params, .identifier => ({ s with params := s.params ++ [⟨t, false⟩] }, [])
  | .params, _ => ({ s with phase := .arrow }, [])
  | .arrow, _ => ({ s with phase := .lead true }, [])
  | .lead f, .identifier =>
    let (s', fs) := s.refer t
    ({ s' with phase := .closing f }, fs)
  | .lead f, _ => ({ s with phase := .closing f }, [])
  | .opening f, .identifier =>
    let (s', fs) := s.refer t
    ({ s' with phase := .closing f }, fs)
  | .opening f, _ => ({ s with phase := .closing f }, [])
  | .closing _, .closeBracket =>
    let (s', fs) := s.closeBracket t
    ({ s' with phase := .numbers s'.params.length }, fs)
  | .closing _, _ => ({ s with phase := .lead false }, [])
  | .numbers 0, _ => ({ s with phase := .item, params := [] }, s.unused)
  | .numbers (n + 1), _ => ({ s with phase := .numbers n }, [])
  | .signed n, _ => ({ s with phase := .numbers n }, [])

end State

end LambdaCheck
