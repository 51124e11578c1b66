import LambdaCheck.Token.Lexer
import LambdaCheck.Token.Shape
import LambdaCheck.Proofs.Layout

/-!
Every token the tokenizer makes has the shape of its kind (`Token.Shaped`), judged against the
character that follows it in the text. The tokenizer reads one token at a time with `split`; each
of its four branches (a character of its own, a number, an identifier, an invalid character) is
shown to give a shaped token whose next character is the first one `split` hands back
(`Lexer.split_shaped`), and the scan carries this to every token of a text.
-/

namespace LambdaCheck

namespace Lexer

theorem reserved_iff_mem {c : Char} : reserved c = true ↔ c ∈ Token.identifierStops := by
  simp [reserved, Token.identifierStops, or_assoc]

/-- Reserved characters are no letters, no digits and no dots, so they end identifiers and
numbers alike. -/
theorem reserved_classes {c : Char} (h : reserved c = true) :
    c.isAlpha = false ∧ c.isDigit = false ∧ c ≠ '.' := by
  have hmem := reserved_iff_mem.1 h
  simp only [Token.identifierStops, List.mem_cons, List.not_mem_nil, or_false] at hmem
  rcases hmem with rfl | rfl | rfl | rfl | rfl | rfl | rfl | rfl | rfl | rfl | rfl | rfl <;>
    decide

theorem not_reserved_of_isAlpha {c : Char} (h : c.isAlpha = true) : reserved c = false := by
  cases hr : reserved c with
  | false => rfl
  | true => simp [(reserved_classes hr).1] at h

theorem not_reserved_of_isDigit {c : Char} (h : c.isDigit = true) : reserved c = false := by
  cases hr : reserved c with
  | false => rfl
  | true => simp [(reserved_classes hr).2.1] at h

theorem symbol?_of_symbolKind? {c : Char} {k : TokenKind} (h : symbolKind? c = some k) :
    Token.symbol? k = some c := by
  unfold symbolKind? at h
  split at h <;> cases h <;> rfl

/-- The own characters make a token of their own or are dropped, and none of them is a letter or
a digit: `split` never reads one as the start of a number, an identifier or an invalid
character. -/
theorem mem_ownCharacters {c : Char} (h : c ∈ Token.ownCharacters) :
    ((symbolKind? c).isSome = true ∨ blank c = true) ∧ c.isAlpha = false ∧ c.isDigit = false := by
  simp only [Token.ownCharacters, List.mem_cons, List.not_mem_nil, or_false] at h
  rcases h with rfl | rfl | rfl | rfl | rfl | rfl | rfl | rfl | rfl | rfl | rfl | rfl | rfl <;>
    decide

theorem isDigit_of_mem_takeWhile {d : Char} {cs : List Char} (h : d ∈ cs.takeWhile Char.isDigit) :
    d.isDigit = true :=
  List.all_eq_true.1 List.all_takeWhile d h

theorem head?_dropWhile {p : Char → Bool} {cs : List Char} {d : Char}
    (h : (cs.dropWhile p).head? = some d) : p d = false := by
  have hstop := List.head?_dropWhile_not p cs
  rw [h] at hstop
  exact hstop

theorem count_dot_digits (cs : List Char) : (cs.takeWhile Char.isDigit).count '.' = 0 :=
  List.count_eq_zero.2 fun hd => by simpa using isDigit_of_mem_takeWhile hd

section

variable (pos : Nat) {c : Char} (cs : List Char)

theorem symbol_shaped {k : TokenKind} (hk : symbolKind? c = some k) :
    Token.Shaped ⟨k, String.ofList [c], pos⟩ cs.head? := by
  have hsym := symbol?_of_symbolKind? hk
  unfold Token.Shaped
  cases k
  case identifier | whitespace | integer | float | invalidCharacter =>
    simp [Token.symbol?] at hsym
  all_goals exact ⟨c, hsym, by simp⟩

theorem integer_shaped (hc : c.isDigit = true)
    (hdot : (fraction (cs.dropWhile Char.isDigit)).1 = false) :
    Token.Shaped ⟨.integer, String.ofList (c :: (numberTail cs).2.1), pos⟩
      (numberTail cs).2.2.head? := by
  have hfrac : fraction (cs.dropWhile Char.isDigit) = (false, [], cs.dropWhile Char.isDigit) := by
    unfold fraction at hdot ⊢
    split
    next rest h => simp [h] at hdot
    next => rfl
  simp only [Token.Shaped, numberTail, hfrac, List.append_nil, String.toList_ofList]
  refine ⟨by simp, ?_, fun d hd => ⟨by simp [head?_dropWhile hd], ?_⟩⟩
  · intro d hd
    rcases List.mem_cons.1 hd with rfl | hd
    · exact hc
    · exact isDigit_of_mem_takeWhile hd
  · rintro rfl
    obtain ⟨rest, hrest⟩ : ∃ rest, cs.dropWhile Char.isDigit = '.' :: rest := by
      cases h : cs.dropWhile Char.isDigit with
      | nil => simp [h] at hd
      | cons e rest =>
        simp only [h, List.head?_cons, Option.some.injEq] at hd
        exact ⟨rest, by rw [hd]⟩
    simp [hrest, fraction] at hfrac

theorem float_shaped (hc : c.isDigit = true)
    (hdot : (fraction (cs.dropWhile Char.isDigit)).1 = true) :
    Token.Shaped ⟨.float, String.ofList (c :: (numberTail cs).2.1), pos⟩
      (numberTail cs).2.2.head? := by
  obtain ⟨rest, hrest⟩ : ∃ rest, cs.dropWhile Char.isDigit = '.' :: rest := by
    unfold fraction at hdot
    split at hdot
    next rest h => exact ⟨rest, h⟩
    next => simp at hdot
  simp only [Token.Shaped, numberTail, hrest, fraction, String.toList_ofList]
  refine ⟨⟨c, _, rfl, hc, ?_, ?_⟩, fun d hd => by simp [head?_dropWhile hd]⟩
  · simp [List.count_append, count_dot_digits]
  · intro d hd
    simp only [List.mem_append, List.mem_cons] at hd
    rcases hd with hd | rfl | hd
    · exact .inl (isDigit_of_mem_takeWhile hd)
    · exact .inr rfl
    · exact .inl (isDigit_of_mem_takeWhile hd)

theorem identifier_shaped (hc : c.isAlpha = true) :
    Token.Shaped ⟨.identifier, String.ofList (c :: cs.takeWhile fun d => !reserved d), pos⟩
      (cs.dropWhile fun d => !reserved d).head? := by
  simp only [Token.Shaped, String.toList_ofList]
  refine ⟨⟨c, _, rfl, hc⟩, ?_, fun d hd => ?_⟩
  · intro d hd hstop
    have hres := reserved_iff_mem.2 hstop
    rcases List.mem_cons.1 hd with rfl | hd
    · simp [not_reserved_of_isAlpha hc] at hres
    · have hkeep := List.all_eq_true.1 List.all_takeWhile d hd
      simp [hres] at hkeep
  · exact reserved_iff_mem.1 (by simpa using head?_dropWhile hd)

theorem invalid_shaped (hsym : symbolKind? c = none) (hb : blank c = false)
    (hdigit : c.isDigit = false) (halpha : c.isAlpha = false) :
    Token.Shaped ⟨.invalidCharacter, String.ofList [c], pos⟩ cs.head? := by
  simp only [Token.Shaped, String.toList_ofList]
  refine ⟨c, rfl, by simp [halpha], by simp [hdigit], fun hown => ?_⟩
  rcases (mem_ownCharacters hown).1 with h | h
  · simp [hsym] at h
  · simp [hb] at h

/-- The token `split` reads from a character that is no blank has the shape of its kind, and
the first character `split` hands back could not have extended it. -/
theorem split_shaped (hb : blank c = false) :
    Token.Shaped ⟨(split c cs).1, String.ofList (c :: (split c cs).2.1), pos⟩
      (split c cs).2.2.head? := by
  unfold split
  split
  next k hk => exact symbol_shaped pos cs hk
  next hsym =>
    split
    next hc =>
      cases hdot : (fraction (cs.dropWhile Char.isDigit)).1 with
      | false =>
        have h := integer_shaped pos cs hc hdot
        simp only [numberTail] at h ⊢
        simpa [hdot] using h
      | true =>
        have h := float_shaped pos cs hc hdot
        simp only [numberTail] at h ⊢
        simpa [hdot] using h
    next hc =>
      split
      next ha => exact identifier_shaped pos cs ha
      next ha =>
        exact invalid_shaped pos cs hsym hb (by simpa using hc) (by simpa using ha)

end

theorem getElem?_append_sub {α : Type} {xs ys : List α} {k pos : Nat} (h : pos + xs.length ≤ k) :
    (xs ++ ys)[k - pos]? = ys[k - (pos + xs.length)]? := by
  rw [List.getElem?_append_right (by omega), Nat.sub_sub]

/-- Every token of a scan has the shape of its kind, judged against the character at its end. -/
theorem scan_shaped (pos : Nat) (cs : List Char) :
    ∀ t ∈ scan pos cs, t.Shaped cs[t.stop - pos]? := by
  induction pos, cs using scan.induct with
  | case1 pos => simp [scan]
  | case2 pos c cs hc ih =>
    intro t ht
    rw [scan, if_pos hc] at ht
    have hge := (scan_layout (pos + 1) cs).start_ge t ht
    rw [← List.singleton_append,
      getElem?_append_sub (by simp only [List.length_singleton, Token.stop_eq]; omega)]
    exact ih t ht
  | case3 pos c cs hc ih =>
    intro t ht
    rw [scan, if_neg hc] at ht
    have hcs : c :: cs = (c :: (split c cs).2.1) ++ (split c cs).2.2 := by
      rw [List.cons_append, split_append]
    rw [hcs]
    rcases List.mem_cons.1 ht with rfl | ht
    · -- the token `split` reads ends where the characters it hands back begin
      have hstop : Token.stop ⟨(split c cs).1, String.ofList (c :: (split c cs).2.1), pos⟩ =
          pos + (c :: (split c cs).2.1).length := by
        simp [Token.stop_eq, Nat.add_comm]
      rw [getElem?_append_sub (Nat.le_of_eq hstop.symm), hstop, Nat.sub_self, ← List.head?_eq_getElem?]
      exact split_shaped pos cs (by simpa using hc)
    · have hge := (scan_layout _ _).start_ge t ht
      have hoff : pos + (c :: (split c cs).2.1).length = pos + 1 + (split c cs).2.1.length := by
        simp only [List.length_cons]
        omega
      rw [getElem?_append_sub (by simp only [Token.stop_eq] at hge ⊢; omega), hoff]
      exact ih t ht

end Lexer

theorem kind_ne_whitespace_of_mem_tokenize {s : String} {t : Token} (ht : t ∈ tokenize s) :
    t.kind ≠ .whitespace := by
  intro hk
  have hshape := Lexer.scan_shaped 0 s.toList t ht
  simp [Token.Shaped, hk] at hshape

/-- Each token of a text has the shape of its kind and cannot be extended by the character after
it: one-character kinds are their character; an identifier is a letter and then no reserved
character, followed by a reserved one or the end; an integer is digits followed by neither a
digit nor a dot; a float is a digit, then digits and exactly one dot, followed by no digit; an
invalid character is one character that starts nothing else. No token is whitespace. -/
theorem tokenize_shaped (s : String) : ∀ t ∈ tokenize s, t.Shaped s.toList[t.stop]? := by
  intro t ht
  simpa using Lexer.scan_shaped 0 s.toList t ht

theorem tokenize_shaped_second_dot :
    (⟨.float, "1.5", 0⟩ : Token) ∈ tokenize "1.5.2" ∧
      Token.Shaped ⟨.float, "1.5", 0⟩ (some '.') := by
  have hmem : (⟨.float, "1.5", 0⟩ : Token) ∈ tokenize "1.5.2" := by
    have htok : tokenize "1.5.2" =
        [⟨.float, "1.5", 0⟩, ⟨.invalidCharacter, ".", 3⟩, ⟨.integer, "2", 4⟩] := by
      decide +kernel
    rw [htok]
    simp
  exact ⟨hmem, tokenize_shaped "1.5.2" _ hmem⟩

end LambdaCheck
