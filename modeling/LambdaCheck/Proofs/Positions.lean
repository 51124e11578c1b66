import LambdaCheck.Text

/-!
Lines, columns and excerpts of a text. `lineCol` walks the characters before an offset: a line feed
starts the next line at column 1, and every other character, a carriage return included, moves one
column on. So the line of an offset is one more than the number of line feeds before it
(`lineCol_line`), and the column counts the characters since the last of them; reading the line
and column back with `offsetOf`, which starts a line just past the line feed that ends the one
before, gives the offset again (`offsetOf_lineCol`). Past the end of the text the walk has no more
characters, and the position stays at the end.

An excerpt is cut at the byte offsets of two character offsets; each is the byte length of the
characters before it, so it is a character boundary of the text in the standard library's sense
(`String.Pos.Raw.IsValid`), and past the end it is the byte length of the whole text.
-/

namespace LambdaCheck

namespace LineColumn

theorem walk_line (p : LineColumn) (cs : List Char) : (walk p cs).line = p.line + cs.count '\n' := by
  induction cs generalizing p with
  | nil => rfl
  | cons c cs ih =>
    rw [walk, List.foldl_cons, ← walk, ih, List.count_cons]
    by_cases hc : c = '\n' <;> simp [advance, hc, Nat.add_assoc, Nat.add_comm 1]

theorem walk_column_pos {p : LineColumn} (h : 1 ≤ p.column) (cs : List Char) :
    1 ≤ (walk p cs).column := by
  induction cs generalizing p with
  | nil => exact h
  | cons c cs ih =>
    rw [walk, List.foldl_cons, ← walk]
    apply ih
    by_cases hc : c = '\n' <;> simp [advance, hc]

end LineColumn

theorem lineCol_succ {s : String} {k : Nat} (hk : k < s.toList.length) :
    lineCol s (k + 1) = (lineCol s k).advance s.toList[k] := by
  rw [lineCol, List.take_add_one, List.getElem?_eq_getElem hk, Option.toList_some,
    LineColumn.walk_append]
  rfl

theorem lineCol_line (s : String) (k : Nat) : (lineCol s k).line = (s.toList.take k).count '\n' + 1 := by
  rw [lineCol, LineColumn.walk_line, Nat.add_comm]

theorem lineCol_column_pos (s : String) (k : Nat) : 1 ≤ (lineCol s k).column :=
  LineColumn.walk_column_pos (Nat.le_refl 1) _

theorem getElem?_lineFeeds (i : Nat) (cs : List Char) {k : Nat} (hk : cs[k]? = some '\n') :
    ((((List.range' i cs.length).zip cs).filter (·.2 = '\n')).map (·.1))[(cs.take k).count '\n']? =
      some (i + k) := by
  induction cs generalizing i k with
  | nil => simp at hk
  | cons c cs ih =>
    cases k with
    | zero =>
      obtain rfl : c = '\n' := by simpa using hk
      simp [List.range'_succ]
    | succ k =>
      have hrest := ih (i + 1) (by simpa using hk)
      rw [Nat.add_assoc, Nat.add_comm 1 k] at hrest
      by_cases hc : c = '\n' <;> simp [List.range'_succ, hc, hrest]

theorem newlineOffsets_getElem? {s : String} {k : Nat} (hk : s.toList[k]? = some '\n') :
    (newlineOffsets s)[(s.toList.take k).count '\n']? = some k := by
  have h := getElem?_lineFeeds 0 s.toList hk
  rw [Nat.zero_add, ← List.range_eq_range', String.length_toList] at h
  exact h

/-- Every offset up to the end of the text is named back by its line and column. -/
theorem offsetOf_lineCol (s : String) {k : Nat} (hk : k ≤ s.length) : offsetOf s (lineCol s k) = k := by
  induction k with
  | zero => rfl
  | succ k ih =>
    have hlt : k < s.toList.length := by
      rw [String.length_toList]
      omega
    have hprev := ih (by omega)
    have hcol := lineCol_column_pos s k
    rw [lineCol_succ hlt, LineColumn.advance]
    split
    · rename_i hnl
      have hfeed := newlineOffsets_getElem? (k := k) (by rw [List.getElem?_eq_getElem hlt, hnl])
      simp only [offsetOf, lineCol_line, hfeed, Option.getD_some, Nat.sub_self, Nat.add_zero]
    · simp only [offsetOf] at hprev ⊢
      omega

example : lineCol "ab\ncd" 4 = ⟨2, 2⟩ := by decide

example : offsetOf "ab\ncd" ⟨2, 2⟩ = 4 := by decide

theorem lineCol_of_length_le {s : String} {k : Nat} (hk : s.length ≤ k) :
    lineCol s k = lineCol s s.length := by
  rw [lineCol, lineCol, List.take_of_length_le (Nat.le_trans (Nat.le_of_eq String.length_toList) hk),
    List.take_of_length_le (Nat.le_of_eq String.length_toList)]

/-- Lines and columns of a text. Every offset up to the end of the text has a line and a column of
at least 1, its line is one that a line feed of the text begins, or the first, and reading the line
and column back gives the offset, so no two of these offsets share a line and column. Past the
end, the line and column stay those of the end. -/
theorem lineCol_inverse (s : String) :
    (∀ k, k ≤ s.length → 1 ≤ (lineCol s k).line ∧ 1 ≤ (lineCol s k).column ∧
      (lineCol s k).line - 1 ≤ s.toList.count '\n' ∧ offsetOf s (lineCol s k) = k) ∧
    (∀ k₁ k₂, k₁ ≤ s.length → k₂ ≤ s.length → lineCol s k₁ = lineCol s k₂ → k₁ = k₂) ∧
    (∀ k, s.length < k → lineCol s k = lineCol s s.length) := by
  refine ⟨fun k hk => ⟨?_, lineCol_column_pos s k, ?_, offsetOf_lineCol s hk⟩,
    fun k₁ k₂ h₁ h₂ heq => ?_, fun k hk => lineCol_of_length_le (Nat.le_of_lt hk)⟩
  · rw [lineCol_line]
    exact Nat.le_add_left 1 _
  · -- the line feeds before an offset are line feeds of the text
    rw [lineCol_line, Nat.add_sub_cancel]
    exact (List.take_sublist k s.toList).count_le '\n'
  · rw [← offsetOf_lineCol s h₁, ← offsetOf_lineCol s h₂, heq]

theorem lineCol_inverse_crlf :
    (∀ k, k ≤ "a\r\nb".length → 1 ≤ (lineCol "a\r\nb" k).line ∧ 1 ≤ (lineCol "a\r\nb" k).column ∧
      (lineCol "a\r\nb" k).line - 1 ≤ "a\r\nb".toList.count '\n' ∧
      offsetOf "a\r\nb" (lineCol "a\r\nb" k) = k) ∧
    (∀ k₁ k₂, k₁ ≤ "a\r\nb".length → k₂ ≤ "a\r\nb".length →
      lineCol "a\r\nb" k₁ = lineCol "a\r\nb" k₂ → k₁ = k₂) ∧
    (∀ k, "a\r\nb".length < k → lineCol "a\r\nb" k = lineCol "a\r\nb" "a\r\nb".length) :=
  lineCol_inverse _

/-- The byte offset of a character offset is a character boundary of the text. -/
theorem byteAt_isValid (s : String) (n : Nat) : String.Pos.Raw.IsValid s ⟨byteAt s n⟩ := by
  have hsplit : s = String.ofList (s.toList.take n) ++ String.ofList (s.toList.drop n) := by
    rw [← String.ofList_append, List.take_append_drop, String.ofList_toList]
  have hend := (String.Pos.Raw.isValid_rawEndPos (s := String.ofList (s.toList.take n))).append_right
    (String.ofList (s.toList.drop n))
  rw [← hsplit] at hend
  rw [byteAt_eq]
  exact hend

theorem byteAt_of_length_le {s : String} {n : Nat} (hn : s.length ≤ n) :
    byteAt s n = s.utf8ByteSize := by
  rw [byteAt_eq, List.take_of_length_le (Nat.le_trans (Nat.le_of_eq String.length_toList) hn),
    String.ofList_toList]

/-- How an excerpt is cut. Every character offset is turned into the byte offset at which its
character begins: the byte length of the characters before it, a character boundary of the text,
so no character is split, and past the end the byte length of the whole text. The excerpt then
holds exactly the characters of its range, cut off at the end of the text. -/
theorem excerpt_cuts_characters (s : String) (start length : Nat) :
    (excerpt s start length).toList = (s.toList.drop start).take length ∧
    (∀ n, String.Pos.Raw.IsValid s ⟨byteAt s n⟩ ∧
      byteAt s n = (String.ofList (s.toList.take n)).utf8ByteSize) ∧
    (∀ n, s.length ≤ n → byteAt s n = s.utf8ByteSize) :=
  ⟨toList_excerpt s start length, fun n => ⟨byteAt_isValid s n, byteAt_eq s n⟩,
    fun _ hn => byteAt_of_length_le hn⟩

theorem excerpt_cuts_characters_accent :
    (excerpt "é(\\x" 1 1).toList = ("é(\\x".toList.drop 1).take 1 ∧
    (∀ n, String.Pos.Raw.IsValid "é(\\x" ⟨byteAt "é(\\x" n⟩ ∧
      byteAt "é(\\x" n = (String.ofList ("é(\\x".toList.take n)).utf8ByteSize) ∧
    (∀ n, "é(\\x".length ≤ n → byteAt "é(\\x" n = "é(\\x".utf8ByteSize) :=
  excerpt_cuts_characters _ 1 1

end LambdaCheck
