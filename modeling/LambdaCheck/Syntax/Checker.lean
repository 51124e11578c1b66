import LambdaCheck.Syntax.Machine
import LambdaCheck.Token.Lexer

/-!
The checker: it walks a token list against the grammar of programs and collects findings.

Line feeds are passed over wherever the checker looks for a token. When a token neither allows
an optional move nor meets the expectation, the checker recovers: it skips ahead to the next
token that meets the expectation, reports the skipped run as one finding, accounts for the
brackets in the run, and goes on from the token it found. If no later token fits, it reports
the token and stops, and if the input ends where something is due, it reports that at the last
token and stops.

Every step consumes at least one token, so the walk is defined by well-founded recursion on the
number of tokens left and always ends.
-/

namespace LambdaCheck

namespace Checker

def misfit (e : Expected) (t : Token) : Bool := !e.accepts t.kind

theorem length_dropWhile_le (p : α → Bool) (l : List α) : (l.dropWhile p).length ≤ l.length := by
  induction l with
  | nil => exact Nat.le_refl _
  | cons c cs ih =>
    rw [List.dropWhile_cons]
    split
    · exact Nat.le_succ_of_le ih
    · exact Nat.le_refl _

theorem length_lt_of_dropWhile_eq {p : α → Bool} {l more : List α} {a : α}
    (h : l.dropWhile p = a :: more) : more.length < l.length + 1 := by
  have := length_dropWhile_le p l
  rw [h, List.length_cons] at this
  omega

set_option linter.unusedVariables false in
/-- The findings of the tokens `ts` from state `s`. `anchor` is the last token of the whole
input, where an early end is reported. -/
def run (anchor : Option Token) (s : State) : List Token → List Finding
  | [] =>
    match s.phase with
    | .item => []
    | p => [.earlyEnd p.expected anchor]
  | t :: ts =>
    if t.kind = .newLine then run anchor s ts
    else
      match s.optional t with
      | some (s', fs) => fs ++ run anchor s' ts
      | none =>
        if s.phase.expected.accepts t.kind then
          let (s', fs) := s.accept t
          fs ++ run anchor s' ts
        else
          match h : ts.dropWhile (misfit s.phase.expected) with
          | [] => .unrecoverable s.phase.expected t :: (s.skipAll (t :: ts)).2
          | target :: more =>
            let skipped := ts.takeWhile (misfit s.phase.expected)
            let (s₁, f₁) := s.skipAll (t :: skipped)
            let (s₂, f₂) := s₁.accept target
            .skipped s.phase.expected t (skipped.filter (·.kind != .newLine)) ::
              (f₁ ++ f₂ ++ run anchor s₂ more)
termination_by ts => ts.length
decreasing_by
  all_goals simp only [List.length_cons]
  all_goals first | omega | exact length_lt_of_dropWhile_eq h

/-- The findings of a token list. Whitespace tokens play no part. -/
def findings (tokens : List Token) : List Finding :=
  let ts := tokens.filter (·.kind != .whitespace)
  run ts.getLast? State.initial ts

end Checker

/-- The diagnostics of a token list, in the order they were found. An empty list means the
tokens form a well-formed program in which every name is a parameter and every parameter is
used. -/
def parse (tokens : List Token) : List Diagnostic :=
  (Checker.findings tokens).map Finding.toDiagnostic

def check (text : String) : List Diagnostic :=
  parse (tokenize text)

end LambdaCheck
