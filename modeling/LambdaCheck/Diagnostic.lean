/-!
Diagnostics and failures. A diagnostic is a problem found in a source text, with a code, a message
(possibly of several lines) and the character range it refers to. The range is never empty, so it
can always be selected; every way of building a diagnostic raises a zero length to one, and the
structure carries the proof.

A failure stops a run before or after checking: a file that cannot be read or written. It names
the side it happened on, a code, and optional details, and prints as `ImportError{code: details}`
or `ExportError{code}`.
-/

namespace LambdaCheck

/-- What kind of problem a diagnostic or a failure reports. -/
inductive ErrorCode where
  | unexpectedToken
  | unexpectedEof
  | unknownName
  | unusedParameter
  | unmatchedCloseBracket
  | misplacedCloseBracket
  | io
  | jsonSerialization
deriving DecidableEq, Repr, Inhabited

namespace ErrorCode

def all : List ErrorCode :=
  [unexpectedToken, unexpectedEof, unknownName, unusedParameter, unmatchedCloseBracket,
    misplacedCloseBracket, io, jsonSerialization]

def name : ErrorCode → String
  | unexpectedToken => "unexpected_token"
  | unexpectedEof => "unexpected_eof"
  | unknownName => "unknown_name"
  | unusedParameter => "unused_parameter"
  | unmatchedCloseBracket => "unmatched_close_bracket"
  | misplacedCloseBracket => "misplaced_close_bracket"
  | io => "io"
  | jsonSerialization => "json_serialization"

def ofName? (s : String) : Option ErrorCode :=
  all.find? (·.name == s)

example : ofName? "unknown_name" = some unknownName := by decide

end ErrorCode

/-- A problem in a source text and the non-empty character range `[start, start + length)` it
refers to. -/
structure Diagnostic where
  code : ErrorCode
  message : String
  start : Nat
  length : Nat
  length_pos : 0 < length
deriving DecidableEq, Repr

namespace Diagnostic

/-- The diagnostic at `start` with the given length, raised to one when it is zero. -/
def ofLength (code : ErrorCode) (message : String) (start length : Nat) : Diagnostic :=
  ⟨code, message, start, max length 1, by omega⟩

/-- The diagnostic covering the offsets from `start` up to `stop`; a range that is empty or
reversed becomes the single character at `start`. -/
def ofRange (code : ErrorCode) (message : String) (start stop : Nat) : Diagnostic :=
  ofLength code message start (stop - start)

def stop (d : Diagnostic) : Nat := d.start + d.length

/-- The `(start, length)` selection of the range within a text of `n` characters: both ends are
cut down to `n`, since the text may be shorter than the one the diagnostic was made for. -/
def clamped (d : Diagnostic) (n : Nat) : Nat × Nat :=
  (min d.start n, min d.stop n - min d.start n)

/-- The one-line form `Error: <message>, Position: <start>-<stop>`. -/
def render (d : Diagnostic) : String :=
  "Error: " ++ d.message ++ ", Position: " ++ toString d.start ++ "-" ++ toString d.stop

@[simp] theorem ofLength_length (code : ErrorCode) (message : String) (start length : Nat) :
    (ofLength code message start length).length = max length 1 := rfl

@[simp] theorem ofLength_start (code : ErrorCode) (message : String) (start length : Nat) :
    (ofLength code message start length).start = start := rfl

theorem start_lt_stop (d : Diagnostic) : d.start < d.stop := by
  have := d.length_pos
  unfold stop
  omega

theorem clamped_le (d : Diagnostic) (n : Nat) : (d.clamped n).1 + (d.clamped n).2 ≤ n := by
  unfold clamped
  have : d.start ≤ d.stop := Nat.le_of_lt d.start_lt_stop
  omega

end Diagnostic

/-! ### Failures -/

inductive Side where
  | reading
  | writing
deriving DecidableEq, Repr, Inhabited

structure Failure where
  side : Side
  code : ErrorCode
  details : Option String
deriving DecidableEq, Repr

namespace Failure

def sideName : Side → String
  | .reading => "ImportError"
  | .writing => "ExportError"

def render (f : Failure) : String :=
  match f.details with
  | some details => sideName f.side ++ "\x7b" ++ f.code.name ++ ": " ++ details ++ "\x7d"
  | none => sideName f.side ++ "\x7b" ++ f.code.name ++ "\x7d"

/-- The failure an input or output error becomes. Every such error is filed on the reading side
with code `io`, whichever way the data was going, and its message becomes the details. -/
def ofIo (message : String) : Failure :=
  ⟨.reading, .io, some message⟩

example : (ofIo "Is a directory (os error 21)").render =
    "ImportError\x7bio: Is a directory (os error 21)\x7d" := by decide

end Failure

end LambdaCheck
