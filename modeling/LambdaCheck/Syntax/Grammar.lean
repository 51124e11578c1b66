import LambdaCheck.Syntax.Finding

/-!
The grammar of well-formed programs, as inductive relations over token lists from which
whitespace and line feeds have been removed:

    program    := item*
    item       := ";" | expression
    expression := "(" "\" identifier* "-" ">" body ")" number* ";"   (one number per parameter)
    body       := group (operator group)+                           (brackets balanced)
    group      := "("* operand ")"*
    number     := ["+" | "-"] (integer | float)

An operand is an identifier, an integer or a float, and an operator one of the four arithmetic
signs. The brackets of a body balance: no prefix of it closes more brackets than it opened, and
the whole body closes all it opens.

A derivation records each expression's parameters and operands (`Abstraction`). The findings a
well-formed program still gets are about names only, and they are read off these records: an
operand naming no parameter, then the parameters no operand names.

The brackets of a token list are also counted greedily, independent of the grammar (`Brackets`):
reading the tokens in order with a counter that starts at zero, an opening bracket adds one, and a
closing bracket takes one away, or is reported as unmatched when the counter is zero. A closing
bracket can also come marked: it is then reported and leaves the counter alone, as a closing
bracket does that stands where an operand should start.
-/

namespace LambdaCheck

namespace Grammar

def IsOperand (t : Token) : Prop :=
  t.kind = .identifier ∨ t.kind = .integer ∨ t.kind = .float

def IsNumber (t : Token) : Prop :=
  t.kind = .integer ∨ t.kind = .float

/-- The bracket depth after `ts`, starting at depth `d`; `none` once a closing bracket finds no
open one. -/
def depthAfter : Nat → List Token → Option Nat
  | d, [] => some d
  | d, t :: ts =>
    match t.kind with
    | .openBracket => depthAfter (d + 1) ts
    | .closeBracket =>
      match d with
      | 0 => none
      | d + 1 => depthAfter d ts
    | _ => depthAfter d ts

def Balanced (ts : List Token) : Prop :=
  depthAfter 0 ts = some 0

/-- An operand with opening brackets before it and closing brackets after it. -/
inductive Group : List Token → Token → Prop where
  | mk {opens closes : List Token} {operand : Token}
      (hopens : ∀ t ∈ opens, t.kind = .openBracket) (hoperand : IsOperand operand)
      (hcloses : ∀ t ∈ closes, t.kind = .closeBracket) :
      Group (opens ++ operand :: closes) operand

/-- At least two groups joined by operators; the second index lists their operands in order. -/
inductive Chain : List Token → List Token → Prop where
  | pair {first second : List Token} {a b op : Token}
      (hfirst : Group first a) (hop : op.kind.isOperator = true) (hsecond : Group second b) :
      Chain (first ++ op :: second) [a, b]
  | snoc {chain group operands : List Token} {b op : Token}
      (hchain : Chain chain operands) (hop : op.kind.isOperator = true) (hgroup : Group group b) :
      Chain (chain ++ op :: group) (operands ++ [b])

/-- `n` numbers, each an integer or a float, optionally after one sign. -/
inductive Numbers : List Token → Nat → Prop where
  | nil : Numbers [] 0
  | plain {t : Token} {ts : List Token} {n : Nat}
      (ht : IsNumber t) (hrest : Numbers ts n) : Numbers (t :: ts) (n + 1)
  | signed {s t : Token} {ts : List Token} {n : Nat}
      (hs : s.kind = .signPlus ∨ s.kind = .signMinus) (ht : IsNumber t) (hrest : Numbers ts n) :
      Numbers (s :: t :: ts) (n + 1)

/-- What the name checks see of an expression: its parameters and its operands, in order. -/
structure Abstraction where
  params : List Token
  operands : List Token
deriving DecidableEq, Repr

/-- A well-formed expression and its parameters and operands. -/
inductive Expression : List Token → Abstraction → Prop where
  | mk {o l m g c e : Token} {params body numbers operands : List Token}
      (ho : o.kind = .openBracket) (hl : l.kind = .lambdaIntroducer)
      (hparams : ∀ x ∈ params, x.kind = .identifier)
      (hm : m.kind = .signMinus) (hg : g.kind = .signMore)
      (hbody : Chain body operands) (hbalanced : Balanced body)
      (hc : c.kind = .closeBracket) (hnumbers : Numbers numbers params.length)
      (he : e.kind = .endOfExpression) :
      Expression (o :: l :: params ++ m :: g :: body ++ c :: numbers ++ [e]) ⟨params, operands⟩

/-- A well-formed program and the abstractions of its expressions, in order. -/
inductive Program : List Token → List Abstraction → Prop where
  | nil : Program [] []
  | separator {t : Token} {ts : List Token} {as : List Abstraction}
      (ht : t.kind = .endOfExpression) (hrest : Program ts as) : Program (t :: ts) as
  | expression {e ts : List Token} {a : Abstraction} {as : List Abstraction}
      (he : Expression e a) (hrest : Program ts as) : Program (e ++ ts) (a :: as)

namespace Abstraction

def declares (a : Abstraction) (x : Token) : Bool :=
  a.params.any (·.text == x.text)

def mentions (a : Abstraction) (p : Token) : Bool :=
  a.operands.any fun t => t.kind == .identifier && t.text == p.text

/-- The name findings of an expression: each identifier operand that no parameter declares, in
order, then each parameter that no operand mentions, in order. -/
def nameFindings (a : Abstraction) : List Finding :=
  (a.operands.filter fun t => t.kind == .identifier && !a.declares t).map .unknownName ++
    (a.params.filter fun p => !a.mentions p).map .unusedParameter

end Abstraction

def nameFindings (as : List Abstraction) : List Finding :=
  as.flatMap Abstraction.nameFindings

end Grammar

namespace Brackets

/-- The closing brackets that a greedy count from `depth` reports, in order. Each token comes with
a mark telling whether it closes nothing by position. -/
def unmatched : Nat → List (Token × Bool) → List Token
  | _, [] => []
  | depth, (t, marked) :: rest =>
    match t.kind with
    | .openBracket => unmatched (depth + 1) rest
    | .closeBracket =>
      if marked then t :: unmatched depth rest
      else
        match depth with
        | 0 => t :: unmatched 0 rest
        | n + 1 => unmatched n rest
    | _ => unmatched depth rest

def stillOpen : Nat → List (Token × Bool) → Nat
  | depth, [] => depth
  | depth, (t, marked) :: rest =>
    match t.kind with
    | .openBracket => stillOpen (depth + 1) rest
    | .closeBracket => if marked then stillOpen depth rest else stillOpen (depth - 1) rest
    | _ => stillOpen depth rest

theorem unmatched_append (depth : Nat) (xs ys : List (Token × Bool)) :
    unmatched depth (xs ++ ys) = unmatched depth xs ++ unmatched (stillOpen depth xs) ys := by
  induction xs generalizing depth with
  | nil => rfl
  | cons x xs ih =>
    obtain ⟨t, marked⟩ := x
    simp only [List.cons_append, unmatched, stillOpen]
    split
    · exact ih (depth + 1)
    · split
      · simp [ih]
      · split <;> simp [ih]
    · exact ih depth

end Brackets

end LambdaCheck
