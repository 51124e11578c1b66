/-!
Texts: positions in a text, white space and lines.

Positions are counted in characters. `lineCol` turns an offset into a 1-based line and column by
walking the characters before it. `excerpt` cuts out the characters of a range: it finds the UTF-8
byte offsets at which the two characters begin, an offset past the end standing for the end of the
text, and cuts the text's bytes there. Since those offsets begin characters, the cut takes whole
characters, exactly those of the range (`toList_excerpt`).

White space is meant in the Unicode sense: the twenty-five characters with the `White_Space`
property are the ASCII tab, line feed, vertical tab, form feed, carriage return and space, next
line (U+0085), no-break space, the Ogham space mark, the eleven spaces U+2000 to U+200A, the line
and paragraph separators, the narrow no-break space, the medium mathematical space and the
ideographic space.

A line ends at a line feed, which is not part of it, and a carriage return just before that line
feed is dropped too. A final line feed ends the last line rather than starting an empty one, so the
empty text has no lines, and a text without a line feed is one line.
-/

namespace LambdaCheck

structure LineColumn where
  line : Nat
  column : Nat
deriving DecidableEq, Repr, Inhabited

namespace LineColumn

/-- The position after one more character: a line feed starts the next line. -/
def advance (p : LineColumn) (c : Char) : LineColumn :=
  if c = '\n' then ⟨p.line + 1, 1⟩ else ⟨p.line, p.column + 1⟩

def walk (p : LineColumn) (cs : List Char) : LineColumn :=
  cs.foldl advance p

theorem walk_append (p : LineColumn) (cs ds : List Char) :
    walk p (cs ++ ds) = walk (walk p cs) ds := by
  simp [walk, List.foldl_append]

end LineColumn

/-- The line and column of the character at `offset`; an offset past the end gives the position
just after the last character. -/
def lineCol (text : String) (offset : Nat) : LineColumn :=
  LineColumn.walk ⟨1, 1⟩ (text.toList.take offset)

def byteOffsets (i : Nat) : List Char → List (Nat × Char)
  | [] => []
  | c :: cs => (i, c) :: byteOffsets (i + c.utf8Size) cs

/-- The byte offset at which the character at offset `n` of `text` begins, or the byte length of
`text` when it has no character there. -/
def byteAt (text : String) (n : Nat) : Nat :=
  (((byteOffsets 0 text.toList)[n]?).map (·.1)).getD text.utf8ByteSize

/-- The characters of `text` from offset `start`, at most `length` of them: the bytes from where
the character at `start` begins to where the one at `start + length` begins. -/
def excerpt (text : String) (start length : Nat) : String :=
  String.Pos.Raw.extract text ⟨byteAt text start⟩ ⟨byteAt text (start + length)⟩

def newlineOffsets (text : String) : List Nat :=
  ((List.range text.length).zip text.toList |>.filter (·.2 = '\n')).map (·.1)

/-- The offset that a line and column name: the start of the line, which is just past the line
feed before it, plus the column less one. -/
def offsetOf (text : String) (p : LineColumn) : Nat :=
  (match p.line with
    | 0 | 1 => 0
    | l + 2 => ((newlineOffsets text)[l]?.getD 0) + 1) + (p.column - 1)

def utf8Length : List Char → Nat
  | [] => 0
  | c :: cs => c.utf8Size + utf8Length cs

theorem utf8Length_append (xs ys : List Char) :
    utf8Length (xs ++ ys) = utf8Length xs + utf8Length ys := by
  induction xs with
  | nil => simp [utf8Length]
  | cons c xs ih => simp [utf8Length, ih, Nat.add_assoc]

theorem utf8ByteSize_ofList (cs : List Char) : (String.ofList cs).utf8ByteSize = utf8Length cs := by
  induction cs with
  | nil => rfl
  | cons c cs ih =>
    rw [String.ofList_cons, String.utf8ByteSize_append, String.utf8ByteSize_singleton, ih]
    rfl

theorem length_le_utf8Length (cs : List Char) : cs.length ≤ utf8Length cs := by
  induction cs with
  | nil => exact Nat.le_refl 0
  | cons c cs ih =>
    have := c.utf8Size_pos
    simp only [List.length_cons, utf8Length]
    omega

theorem byteOffsets_getElem? (i : Nat) (cs : List Char) (n : Nat) :
    ((byteOffsets i cs)[n]?).map (·.1) =
      if n < cs.length then some (i + utf8Length (cs.take n)) else none := by
  induction cs generalizing i n with
  | nil => simp [byteOffsets]
  | cons c cs ih =>
    cases n with
    | zero => simp [byteOffsets, utf8Length]
    | succ n =>
      simp only [byteOffsets, List.getElem?_cons_succ, ih, List.length_cons, List.take_succ_cons,
        utf8Length, Nat.add_lt_add_iff_right, Nat.add_assoc]

/-- The byte offset of a character offset is the byte length of the characters before it, which
past the end is the byte length of the whole text. -/
theorem byteAt_eq (text : String) (n : Nat) :
    byteAt text n = (String.ofList (text.toList.take n)).utf8ByteSize := by
  rw [byteAt, byteOffsets_getElem?, utf8ByteSize_ofList]
  split
  · simp
  · rename_i hn
    rw [List.take_of_length_le (by omega), Option.getD_none, ← utf8ByteSize_ofList,
      String.ofList_toList]

theorem ne_add_utf8Length {i : String.Pos.Raw} {c : Char} (cs : List Char) :
    i ≠ ⟨i.byteIdx + utf8Length (c :: cs)⟩ := by
  have := c.utf8Size_pos
  intro h
  have h' := congrArg String.Pos.Raw.byteIdx h
  simp only [utf8Length] at h'
  omega

theorem add_utf8Length_take_succ (i : String.Pos.Raw) (c : Char) (cs : List Char) (m : Nat) :
    (⟨i.byteIdx + utf8Length ((c :: cs).take (m + 1))⟩ : String.Pos.Raw) =
      ⟨(i + c).byteIdx + utf8Length (cs.take m)⟩ := by
  simp [utf8Length, Nat.add_assoc]

theorem extract_go₂ (cs : List Char) (i : String.Pos.Raw) (m : Nat) :
    String.Pos.Raw.extract.go₂ cs i ⟨i.byteIdx + utf8Length (cs.take m)⟩ = cs.take m := by
  induction cs generalizing i m with
  | nil =>
    rw [List.take_nil]
    rfl
  | cons c cs ih =>
    cases m with
    | zero => exact if_pos rfl
    | succ m =>
      have hstep : String.Pos.Raw.extract.go₂ (c :: cs) i
          ⟨i.byteIdx + utf8Length ((c :: cs).take (m + 1))⟩ =
            c :: String.Pos.Raw.extract.go₂ cs (i + c)
              ⟨i.byteIdx + utf8Length ((c :: cs).take (m + 1))⟩ :=
        if_neg (ne_add_utf8Length _)
      rw [hstep, add_utf8Length_take_succ, ih, List.take_succ_cons]

theorem extract_go₁ (cs : List Char) (i e : String.Pos.Raw) {k : Nat} (hk : k ≤ cs.length) :
    String.Pos.Raw.extract.go₁ cs i ⟨i.byteIdx + utf8Length (cs.take k)⟩ e =
      String.Pos.Raw.extract.go₂ (cs.drop k) ⟨i.byteIdx + utf8Length (cs.take k)⟩ e := by
  induction cs generalizing i k with
  | nil =>
    rw [List.drop_nil]
    rfl
  | cons c cs ih =>
    cases k with
    | zero => exact if_pos rfl
    | succ k =>
      have hstep : String.Pos.Raw.extract.go₁ (c :: cs) i
          ⟨i.byteIdx + utf8Length ((c :: cs).take (k + 1))⟩ e =
            String.Pos.Raw.extract.go₁ cs (i + c)
              ⟨i.byteIdx + utf8Length ((c :: cs).take (k + 1))⟩ e :=
        if_neg (ne_add_utf8Length _)
      rw [hstep, add_utf8Length_take_succ, ih _ (by simpa using hk), List.drop_succ_cons]

/-- An excerpt holds exactly the characters of its range, cut off at the end of the text. The
cut is empty when the range is empty or starts past the end; otherwise the search for the first
byte offset stops at the character at `start`, and the characters are collected from there up to
the byte offset `length` characters on. -/
theorem toList_excerpt (text : String) (start length : Nat) :
    (excerpt text start length).toList = (text.toList.drop start).take length := by
  have hsplit : utf8Length (text.toList.take (start + length)) =
      utf8Length (text.toList.take start) + utf8Length ((text.toList.drop start).take length) := by
    rw [List.take_add, utf8Length_append]
  have hrun := length_le_utf8Length ((text.toList.drop start).take length)
  have hcut : excerpt text start length =
      if utf8Length (text.toList.take start) ≥ utf8Length (text.toList.take (start + length)) then ""
      else String.ofList (String.Pos.Raw.extract.go₁ text.toList 0
        ⟨utf8Length (text.toList.take start)⟩ ⟨utf8Length (text.toList.take (start + length))⟩) := by
    rw [excerpt, byteAt_eq, byteAt_eq, utf8ByteSize_ofList, utf8ByteSize_ofList]
    rfl
  rw [hcut]
  split
  · rename_i hge
    have hnil : (text.toList.drop start).take length = [] :=
      List.eq_nil_of_length_eq_zero (by omega)
    rw [hnil]
    rfl
  · rename_i hlt
    -- past the end both cuts are the whole text, and the range is empty
    have hstart : start ≤ text.toList.length := by
      refine Nat.le_of_not_lt fun h => hlt (Nat.le_of_eq ?_)
      rw [List.take_of_length_le (by omega : text.toList.length ≤ start),
        List.take_of_length_le (by omega : text.toList.length ≤ start + length)]
    have h₁ := extract_go₁ text.toList 0 ⟨utf8Length (text.toList.take (start + length))⟩ hstart
    rw [String.Pos.Raw.byteIdx_zero, Nat.zero_add] at h₁
    rw [String.toList_ofList, h₁, hsplit]
    exact extract_go₂ _ ⟨_⟩ _

example : excerpt "é(\\x -> x;" 0 1 = "é" := by decide

namespace Text

/-! ### White space -/

/-- Whether a character has the Unicode `White_Space` property. -/
def isWhiteSpace (c : Char) : Bool :=
  let n := c.toNat
  (9 ≤ n && n ≤ 13) || n == 32 || n == 0x85 || n == 0xA0 || n == 0x1680 ||
    (0x2000 ≤ n && n ≤ 0x200A) || n == 0x2028 || n == 0x2029 || n == 0x202F ||
    n == 0x205F || n == 0x3000

def trimStart (s : String) : String :=
  String.ofList (s.toList.dropWhile isWhiteSpace)

def trim (s : String) : String :=
  String.ofList ((s.toList.dropWhile isWhiteSpace).reverse.dropWhile isWhiteSpace).reverse

/-! ### Lines -/

/-- A finished line, given reversed; a carriage return that ended it is dropped. -/
def closeLine : List Char → List Char
  | '\r' :: rest => rest.reverse
  | cs => cs.reverse

/-- The lines of `cs`, where `current` holds the characters of the line begun so far, reversed. -/
def linesFrom (current : List Char) : List Char → List (List Char)
  | [] => if current.isEmpty then [] else [current.reverse]
  | '\n' :: rest => closeLine current :: linesFrom [] rest
  | c :: rest => linesFrom (c :: current) rest

def lines (s : String) : List String :=
  (linesFrom [] s.toList).map String.ofList

example : lines "a\r\nb\n\nc\r" = ["a", "b", "", "c\r"] := by decide

example : lines "" = [] := by decide

end Text

end LambdaCheck
