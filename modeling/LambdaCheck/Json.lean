/-!
JSON documents as the report writes them, and their pretty layout.

A document keeps the order of an object's fields, because the layout prints them in that order.
Only the values a report holds are needed: natural numbers, strings, arrays and objects.

The layout puts every array element and object field on a line of its own, indented by two
spaces per level, with `": "` between a key and its value; an empty array is `[]` and an empty
object `{}`. A string escapes the quote, the backslash and the control characters: the usual
short forms for backspace, form feed, line feed, carriage return and tab, and `\u00xx` with
lower-case hex digits for the rest. Everything else, delete and non-ASCII characters included,
is written as it is.
-/

namespace LambdaCheck

/-- A JSON document whose objects keep their fields in order. -/
inductive Json where
  | num (n : Nat)
  | str (s : String)
  | arr (items : List Json)
  | obj (fields : List (String × Json))
deriving Repr, Inhabited

namespace Json

def hexDigit (n : Nat) : Char :=
  if n < 10 then Char.ofNat (48 + n) else Char.ofNat (87 + n)

def escapeChar (c : Char) : String :=
  match c with
  | '"' => "\\\""
  | '\\' => "\\\\"
  | '\n' => "\\n"
  | '\r' => "\\r"
  | '\t' => "\\t"
  | _ =>
    if c.toNat = 8 then "\\b"
    else if c.toNat = 12 then "\\f"
    else if c.toNat < 32 then
      "\\u00" ++ (String.singleton (hexDigit (c.toNat / 16))).push (hexDigit (c.toNat % 16))
    else String.singleton c

def quote (s : String) : String :=
  "\"" ++ String.join (s.toList.map escapeChar) ++ "\""

def indent (level : Nat) : String :=
  String.ofList (List.replicate (2 * level) ' ')

mutual

/-- The pretty layout of a document whose first line is already indented to `level`. -/
def layout (level : Nat) : Json → String
  | num n => toString n
  | str s => quote s
  | arr [] => "[]"
  | arr (x :: xs) => "[\n" ++ layoutItems (level + 1) (x :: xs) ++ "\n" ++ indent level ++ "]"
  | obj [] => "\x7b\x7d"
  | obj (f :: fs) =>
    "\x7b\n" ++ layoutFields (level + 1) (f :: fs) ++ "\n" ++ indent level ++ "\x7d"

def layoutItems (level : Nat) : List Json → String
  | [] => ""
  | [x] => indent level ++ layout level x
  | x :: y :: ys => indent level ++ layout level x ++ ",\n" ++ layoutItems level (y :: ys)

def layoutFields (level : Nat) : List (String × Json) → String
  | [] => ""
  | [(k, v)] => indent level ++ quote k ++ ": " ++ layout level v
  | (k, v) :: f :: fs =>
    indent level ++ quote k ++ ": " ++ layout level v ++ ",\n" ++ layoutFields level (f :: fs)

end

def pretty (j : Json) : String := layout 0 j

example : pretty (obj [("a", arr [num 1, str "x\n"])]) =
    "\x7b\n  \"a\": [\n    1,\n    \"x\\n\"\n  ]\n\x7d" := by decide

end Json

end LambdaCheck
