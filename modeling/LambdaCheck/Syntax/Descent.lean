import LambdaCheck.Syntax.Checker

/-!
The parser as a recursive descent over the token array. A cursor stands at the next token to
read; each production asks for its tokens with `expect`, which takes the token at the cursor if
it fits and otherwise recovers (`neutralize`): it skips ahead to the next token that fits and
reports the run it skipped, or, when nothing fits, reports the token and ends the parse early.
The productions' loops go round while the token at the cursor allows, and the open brackets are
kept on a stack of start offsets, a skipped `(` being filed below the current expression's own
bracket.

The program reads the token array by index, slices it and inserts into the stack, each of which
would stop it with a panic when out of range; here such an access is a `Fault`. A loop here goes
round at most a given number of times, and going round once more is a fault too, so that the
parser is a function, and whether it ever breaks off is a question about it: `Proofs.Progress`
shows that it never does once the bound exceeds the number of tokens, and `Proofs.Simulation`
that it then reports what `Checker.run` reports.
-/

namespace LambdaCheck

namespace Descent

/-- Why a run of the parser breaks off: an access out of range, where the program would panic,
or a loop going round more often than its bound allows. -/
inductive Fault where
  | outOfRange
  | outOfRounds
deriving DecidableEq, Repr

structure Parser where
  tokens : Array Token
  pos : Nat
  params : List Param
  /-- The start offsets of the open brackets, the innermost last. -/
  brackets : List Nat
  /-- The depth of the stack below the current expression's own bracket. -/
  base : Nat
  findings : List Finding

/-- How a step of the parser ends: with a result, with an early end that stops the parse and
keeps what was found, or with a fault. -/
inductive Step (α : Type) where
  | ok (a : α) (p : Parser)
  | early (p : Parser)
  | fault (f : Fault)

abbrev Parse (α : Type) : Type := Parser → Step α

instance : Monad Parse where
  pure a p := .ok a p
  bind x f p :=
    match x p with
    | .ok a q => f a q
    | .early q => .early q
    | .fault e => .fault e

def current : Parse Parser := fun p => .ok p p

def update (f : Parser → Parser) : Parse Unit := fun p => .ok () (f p)

def endEarly : Parse α := fun p => .early p

def report (f : Finding) : Parse Unit :=
  update fun p => { p with findings := p.findings ++ [f] }

def advance : Parse Unit :=
  update fun p => { p with pos := p.pos + 1 }

def tokenAt (i : Nat) : Parse Token := fun p =>
  if h : i < p.tokens.size then .ok p.tokens[i] p else .fault .outOfRange

def slice (lo hi : Nat) : Parse (List Token) := fun p =>
  if lo ≤ hi ∧ hi ≤ p.tokens.size then .ok ((p.tokens.toList.drop lo).take (hi - lo)) p
  else .fault .outOfRange

def push (start : Nat) : Parse Unit :=
  update fun p => { p with brackets := p.brackets ++ [start] }

def pop : Parse (Option Nat) := fun p =>
  .ok p.brackets.getLast? { p with brackets := p.brackets.dropLast }

def insertBracket (i start : Nat) : Parse Unit := fun p =>
  if i ≤ p.brackets.length then .ok () { p with brackets := p.brackets.insertIdx i start }
  else .fault .outOfRange

/-- The cursor moves past the line feeds at it. -/
def skipNewLines (p : Parser) : Parser :=
  { p with pos := p.pos + ((p.tokens.toList.drop p.pos).takeWhile (·.kind == .newLine)).length }

def peek : Parse (Option Token) := fun p =>
  let q := skipNewLines p
  .ok q.tokens[q.pos]? q

def closeBracket (t : Token) : Parse Unit := do
  if (← pop).isNone then report (.unmatchedClose t)

def skipBracket (t : Token) : Parse Unit :=
  match t.kind with
  | .openBracket => do
    let p ← current
    let slot := min p.base p.brackets.length
    insertBracket slot t.start
    update fun p => { p with base := slot + 1 }
  | .closeBracket => closeBracket t
  | _ => pure ()

/-- The brackets of the `n` tokens from index `lo` on, in order. -/
def skipRange (lo : Nat) : Nat → Parse Unit
  | 0 => pure ()
  | n + 1 => do
    skipBracket (← tokenAt lo)
    skipRange (lo + 1) n

/-- Recovery where `e` is due: skip to the first token from the cursor on that fits, report the
tokens skipped, file their brackets and take the token that fits. -/
def neutralize (e : Expected) : Parse Token := do
  match ← peek with
  | none =>
    report (.earlyEnd e (← current).tokens.back?)
    endEarly
  | some found =>
    let p ← current
    let lo := p.pos
    let rest ← slice lo p.tokens.size
    match rest.findIdx? (e.accepts ·.kind) with
    | none =>
      report (.unrecoverable e found)
      update fun p => { p with pos := p.tokens.size }
      skipRange lo (p.tokens.size - lo)
      endEarly
    | some i =>
      let target := lo + i
      let run ← slice lo target
      report (.skipped e found ((run.drop 1).filter (·.kind != .newLine)))
      skipRange lo i
      update fun p => { p with pos := target + 1 }
      tokenAt target

def expect (e : Expected) : Parse Token := do
  match ← peek with
  | some t =>
    if e.accepts t.kind then
      advance
      pure t
    else neutralize e
  | none => neutralize e

/-- Runs `x`, turning an early end into `none` and keeping the state it ends in. -/
def attempt (x : Parse α) : Parse (Option α) := fun p =>
  match x p with
  | .ok a q => .ok (some a) q
  | .early q => .ok none q
  | .fault f => .fault f

/-- A loop: `body` goes round until it gives a result, at most `bound` times. -/
def rounds (body : Parse (Option α)) : Nat → Parse α
  | 0 => fun _ => .fault .outOfRounds
  | bound + 1 => do
    match ← body with
    | some a => pure a
    | none => rounds body bound

def openRound : Parse (Option Unit) := do
  match ← peek with
  | some t =>
    if t.kind = .openBracket then
      advance
      push t.start
      pure none
    else pure (some ())
  | none => pure (some ())

/-- A closing bracket after an operand closes a group, never the expression's own bracket. -/
def closeRound : Parse (Option Unit) := do
  let next ← peek
  let p ← current
  if next.map (·.kind) = some .closeBracket ∧ p.base + 1 < p.brackets.length then
    advance
    let _ ← pop
    pure none
  else pure (some ())

/-- A closing bracket where an operand should start closes nothing. -/
def misplacedRound : Parse (Option Unit) := do
  match ← peek with
  | some t =>
    if t.kind = .closeBracket then
      advance
      report (.unmatchedClose t)
      report (.misplacedClose t)
      pure none
    else pure (some ())
  | none => pure (some ())

def reference (t : Token) : Parse Unit := do
  let p ← current
  if p.params.any (·.name.text == t.text) then
    update fun p => { p with params := p.params.map fun q =>
      if q.name.text == t.text then { q with used := true } else q }
  else report (.unknownName t)

def operand : Parse Unit := do
  let t ← expect .operand
  if t.kind = .identifier then reference t

def skipSign : Parse Unit := do
  match ← peek with
  | some t => if t.kind = .signPlus ∨ t.kind = .signMinus then advance else pure ()
  | none => pure ()

def numberLoop : Nat → Parse Unit
  | 0 => pure ()
  | n + 1 => do
    skipSign
    let _ ← expect .number
    numberLoop n

def numbers : Parse Unit := do
  numberLoop (← current).params.length
  let _ ← expect .endOfExpression
  let p ← current
  update fun q => { q with findings := q.findings ++ (p.params.filter (!·.used)).map (.unusedParameter ·.name) }

def operationRound (bound : Nat) : Parse (Option Unit) := do
  rounds misplacedRound bound
  rounds openRound bound
  operand
  rounds closeRound bound
  let t ← expect .operatorOrClose
  if t.kind = .closeBracket then
    closeBracket t
    numbers
    pure (some ())
  else pure none

def operation (bound : Nat) : Parse Unit := do
  rounds closeRound bound
  let _ ← expect .operator
  rounds (operationRound bound) bound

def firstOperand (bound : Nat) : Parse Unit := do
  rounds misplacedRound bound
  rounds openRound bound
  operand
  operation bound

def arrow (bound : Nat) : Parse Unit := do
  let _ ← expect .arrow
  firstOperand bound

def paramRound (bound : Nat) : Parse (Option Unit) := do
  let t ← expect .parameter
  if t.kind != .identifier then
    arrow bound
    pure (some ())
  else
    update fun p => { p with params := p.params ++ [⟨t, false⟩] }
    pure none

def expression (bound : Nat) : Parse Unit := do
  let opening ← expect .openBracket
  update fun p => { p with params := [] }
  update fun p => { p with base := p.brackets.length }
  push opening.start
  let _ ← expect .lambda
  rounds (paramRound bound) bound

/-- Between expressions `;` is passed over and `)` closes a bracket; anything else starts an
expression, and an expression that ends early ends the program. -/
def programRound (bound : Nat) : Parse (Option Unit) := do
  match ← peek with
  | none => pure (some ())
  | some t =>
    match t.kind with
    | .endOfExpression =>
      advance
      pure none
    | .closeBracket =>
      advance
      closeBracket t
      pure none
    | _ =>
      if (← attempt (expression bound)).isNone then pure (some ()) else pure none

def program (bound : Nat) : Parse Unit :=
  rounds (programRound bound) bound

def Parser.new (tokens : List Token) : Parser :=
  ⟨(tokens.filter (·.kind != .whitespace)).toArray, 0, [], [], 0, []⟩

/-- The diagnostics of a token list, each loop going round at most `bound` times. -/
def parseWithin (bound : Nat) (tokens : List Token) : Except Fault (List Diagnostic) :=
  match program bound (Parser.new tokens) with
  | .ok _ p | .early p => .ok (p.findings.map Finding.toDiagnostic)
  | .fault f => .error f

end Descent

end LambdaCheck
