import LambdaCheck.Proofs.Shapes

/-!
Maximal munch determines the tokens. A layout of a text (`Lexer.Layout`) in which every token has
the shape of its kind against the character after it is the tokenizer's own
(`Lexer.Layout.eq_scan`): the first character of a token fixes its kind, and its shape fixes
where it ends. So the tokens of a text are known as soon as such a layout is exhibited. The
tokens of two texts, the second moved past the first, are such a layout of their concatenation
whenever no token can run across the cut, which gives the tokens of a concatenation
(`tokenize_append`).
-/

namespace LambdaCheck

namespace Lexer

theorem isDigit_eq_false_of_isAlpha {c : Char} (h : c.isAlpha = true) : c.isDigit = false := by
  have hletter : (decide ('A'.val ≤ c.val ∧ c.val ≤ 'Z'.val) ||
      (decide ('a'.val ≤ c.val) && decide (c.val ≤ 'z'.val))) = true := h
  simp only [Bool.or_eq_true, Bool.and_eq_true, decide_eq_true_eq, UInt32.le_iff_toNat_le]
    at hletter
  cases hd : c.isDigit with
  | false => rfl
  | true =>
    have hdigit := Char.isDigit_iff_toNat.1 hd
    have hA : 'A'.val.toNat = 65 := rfl
    have ha : 'a'.val.toNat = 97 := rfl
    have h9 : '9'.toNat = 57 := rfl
    have hc : c.toNat = c.val.toNat := rfl
    omega

theorem symbolKind?_of_symbol? {k : TokenKind} {c : Char} (h : Token.symbol? k = some c) :
    symbolKind? c = some k := by
  cases k <;> cases h <;> rfl

theorem mem_ownCharacters_of_symbolKind? {c : Char} {k : TokenKind}
    (h : symbolKind? c = some k) : c ∈ Token.ownCharacters := by
  unfold symbolKind? at h
  split at h <;> cases h <;> decide

theorem symbolKind?_eq_none {c : Char} (h : c ∉ Token.ownCharacters) : symbolKind? c = none := by
  cases hk : symbolKind? c with
  | none => rfl
  | some k => exact absurd (mem_ownCharacters_of_symbolKind? hk) h

theorem not_mem_ownCharacters_of_isAlpha {c : Char} (h : c.isAlpha = true) :
    c ∉ Token.ownCharacters := fun hc => by
  simp [(mem_ownCharacters hc).2.1] at h

theorem not_mem_ownCharacters_of_isDigit {c : Char} (h : c.isDigit = true) :
    c ∉ Token.ownCharacters := fun hc => by
  simp [(mem_ownCharacters hc).2.2] at h

theorem run_exact {p : Char → Bool} {body rest : List Char} (hbody : ∀ d ∈ body, p d = true)
    (hstop : ∀ d, rest.head? = some d → p d = false) :
    (body ++ rest).takeWhile p = body ∧ (body ++ rest).dropWhile p = rest := by
  rw [List.takeWhile_append_of_pos hbody, List.dropWhile_append_of_pos hbody]
  cases rest with
  | nil => simp
  | cons d rest => simp [hstop d rfl]

theorem fraction_of_head_ne_dot {rest : List Char} (h : ∀ d, rest.head? = some d → d ≠ '.') :
    fraction rest = (false, [], rest) := by
  unfold fraction
  split
  next r => exact absurd rfl (h '.' rfl)
  next => rfl

section

variable {c : Char} {tail rest : List Char}

theorem split_symbol {k : TokenKind} (hk : symbolKind? c = some k) :
    split c ([] ++ rest) = (k, [], rest) := by
  simp [split, hk]

theorem split_integer (hc : c.isDigit = true) (htail : ∀ d ∈ tail, d.isDigit = true)
    (hnext : ∀ d, rest.head? = some d → d.isDigit = false ∧ d ≠ '.') :
    split c (tail ++ rest) = (.integer, tail, rest) := by
  obtain ⟨htake, hdrop⟩ := run_exact htail fun d hd => (hnext d hd).1
  have hfrac := fraction_of_head_ne_dot fun d hd => (hnext d hd).2
  simp [split, symbolKind?_eq_none (not_mem_ownCharacters_of_isDigit hc), hc, numberTail, htake,
    hdrop, hfrac]

theorem split_float {ds es : List Char} (hc : c.isDigit = true) (hds : ∀ d ∈ ds, d.isDigit = true)
    (hes : ∀ d ∈ es, d.isDigit = true) (hnext : ∀ d, rest.head? = some d → d.isDigit = false) :
    split c ((ds ++ '.' :: es) ++ rest) = (.float, ds ++ '.' :: es, rest) := by
  have hdot : ∀ d, ('.' :: (es ++ rest)).head? = some d → d.isDigit = false := fun d hd => by
    cases hd
    decide
  obtain ⟨htake, hdrop⟩ := run_exact hds hdot
  obtain ⟨htake', hdrop'⟩ := run_exact hes hnext
  simp [split, symbolKind?_eq_none (not_mem_ownCharacters_of_isDigit hc), hc, numberTail, htake,
    hdrop, fraction, htake', hdrop']

theorem split_identifier (hc : c.isAlpha = true) (htail : ∀ d ∈ tail, reserved d = false)
    (hnext : ∀ d, rest.head? = some d → reserved d = true) :
    split c (tail ++ rest) = (.identifier, tail, rest) := by
  obtain ⟨htake, hdrop⟩ := run_exact (p := fun d => !reserved d) (by simpa using htail)
    (by simpa using hnext)
  simp [split, symbolKind?_eq_none (not_mem_ownCharacters_of_isAlpha hc),
    isDigit_eq_false_of_isAlpha hc, hc, htake, hdrop]

theorem split_invalid (hown : c ∉ Token.ownCharacters) (hdigit : c.isDigit = false)
    (halpha : c.isAlpha = false) : split c ([] ++ rest) = (.invalidCharacter, [], rest) := by
  simp [split, symbolKind?_eq_none hown, hdigit, halpha]

end

theorem float_parts {cs : List Char} (hdot : cs.count '.' = 1)
    (hchars : ∀ d ∈ cs, d.isDigit = true ∨ d = '.') :
    ∃ ds es, cs = ds ++ '.' :: es ∧ (∀ d ∈ ds, d.isDigit = true) ∧ ∀ d ∈ es, d.isDigit = true := by
  have hsplit := List.takeWhile_append_dropWhile (p := Char.isDigit) (l := cs)
  cases hafter : cs.dropWhile Char.isDigit with
  | nil =>
    rw [hafter, List.append_nil] at hsplit
    rw [← hsplit, count_dot_digits] at hdot
    cases hdot
  | cons e es =>
    -- the run of digits stops at a character that is no digit, hence the dot
    have he : e.isDigit = false := head?_dropWhile (by rw [hafter]; rfl)
    have hmem : e ∈ cs := (List.dropWhile_suffix _).subset (by rw [hafter]; exact .head es)
    obtain rfl : e = '.' := (hchars e hmem).resolve_left (by simp [he])
    rw [hafter] at hsplit
    have hes : es.count '.' = 0 := by
      rw [← hsplit, List.count_append, count_dot_digits, List.count_cons_self] at hdot
      omega
    refine ⟨cs.takeWhile Char.isDigit, es, hsplit.symm, fun d hd => isDigit_of_mem_takeWhile hd,
      fun d hd => ?_⟩
    have hd' : d ∈ cs := by
      rw [← hsplit]
      exact List.mem_append_right _ (List.mem_cons_of_mem _ hd)
    exact (hchars d hd').resolve_right fun h => by
      subst h
      exact absurd hd (List.count_eq_zero.1 hes)

/-- A shaped token is what `split` reads from its first character: the kind is fixed by that
character and the end by the character after the token. -/
theorem split_of_shaped {t : Token} {c : Char} {tail rest : List Char}
    (htext : t.text.toList = c :: tail) (h : t.Shaped rest.head?) :
    split c (tail ++ rest) = (t.kind, tail, rest) := by
  obtain ⟨k, text, start⟩ := t
  simp only at htext ⊢
  cases k
  case whitespace => exact h.elim
  case identifier =>
    obtain ⟨⟨c', cs', htext', halpha⟩, hstops, hnext⟩ := h
    rw [htext] at htext' hstops
    obtain ⟨rfl, rfl⟩ := List.cons.inj htext'
    refine split_identifier halpha (fun d hd => ?_) fun d hd => reserved_iff_mem.2 (hnext d hd)
    cases hr : reserved d with
    | false => rfl
    | true => exact absurd (reserved_iff_mem.1 hr) (hstops d (List.mem_cons_of_mem c hd))
  case integer =>
    obtain ⟨-, hdigits, hnext⟩ := h
    rw [htext] at hdigits
    exact split_integer (hdigits c (.head tail)) (fun d hd => hdigits d (.tail c hd))
      fun d hd => ⟨by simpa using (hnext d hd).1, (hnext d hd).2⟩
  case float =>
    obtain ⟨⟨c', cs', htext', hc, hdot, hchars⟩, hnext⟩ := h
    rw [htext] at htext'
    obtain ⟨rfl, rfl⟩ := List.cons.inj htext'
    obtain ⟨ds, es, rfl, hds, hes⟩ := float_parts hdot hchars
    exact split_float hc hds hes fun d hd => by simpa using hnext d hd
  case invalidCharacter =>
    obtain ⟨c', htext', halpha, hdigit, hown⟩ := h
    rw [htext] at htext'
    obtain ⟨rfl, rfl⟩ := List.cons.inj htext'
    exact split_invalid hown (by simpa using hdigit) (by simpa using halpha)
  all_goals
    obtain ⟨c', hsym, htext'⟩ := h
    rw [htext] at htext'
    obtain ⟨rfl, rfl⟩ := List.cons.inj htext'
    exact split_symbol (symbolKind?_of_symbol? hsym)

namespace Layout

variable {pos : Nat} {cs : List Char} {ts : List Token}

/-- A layout whose tokens all have the shape of their kind is the tokenizer's. -/
theorem eq_scan (h : Layout pos cs ts) (hshape : ∀ t ∈ ts, t.Shaped cs[t.stop - pos]?) :
    ts = scan pos cs := by
  induction h with
  | nil => simp [scan]
  | @skip pos c cs ts hc h ih =>
    rw [scan, if_pos hc]
    refine ih fun t ht => ?_
    have hge := h.start_ge t ht
    have hshape' := hshape t ht
    rwa [← List.singleton_append,
      getElem?_append_sub (by simp only [List.length_singleton, Token.stop_eq]; omega)] at hshape'
  | @token pos t rest ts hstart hne hsolid h ih =>
    obtain ⟨c, tail, htext⟩ := List.exists_cons_of_ne_nil hne
    have hlen : pos + t.length = pos + 1 + tail.length := by
      rw [length_eq_toList, htext, List.length_cons]
      omega
    have hfirst : t.Shaped rest.head? := by
      have hshape' := hshape t (.head ts)
      rwa [getElem?_append_sub (Nat.le_of_eq (by rw [Token.stop, hstart, length_eq_toList])),
        Token.stop, hstart, ← length_eq_toList, Nat.sub_self, ← List.head?_eq_getElem?] at hshape'
    have hrest : ts = scan (pos + t.length) rest := by
      refine ih fun u hu => ?_
      have hge := h.start_ge u hu
      have hshape' := hshape u (.tail t hu)
      rwa [getElem?_append_sub (by rw [← length_eq_toList, Token.stop]; omega),
        ← length_eq_toList] at hshape'
    have hc : blank c = false := hsolid c (by rw [htext]; exact .head tail)
    rw [htext, List.cons_append, scan, if_neg (by simp [hc]), split_of_shaped htext hfirst]
    have ht : (⟨t.kind, String.ofList (c :: tail), pos⟩ : Token) = t := by
      rw [← htext, String.ofList_toList, ← hstart]
    rw [ht, ← hlen, hrest]

theorem append {a b : List Char} {us : List Token} (h₁ : Layout pos a ts)
    (h₂ : Layout (pos + a.length) b us) : Layout pos (a ++ b) (ts ++ us) := by
  induction h₁ with
  | nil => simpa using h₂
  | @skip pos c cs ts hc _ ih =>
    refine .skip hc (ih ?_)
    rwa [List.length_cons, ← Nat.add_assoc, Nat.add_right_comm] at h₂
  | @token pos t rest ts hstart hne hsolid _ ih =>
    rw [List.append_assoc]
    refine .token hstart hne hsolid (ih ?_)
    rwa [List.length_append, ← length_eq_toList, ← Nat.add_assoc] at h₂

theorem getLast?_text (h : Layout pos cs ts) {t : Token} (ht : t ∈ ts)
    (hend : t.stop = pos + cs.length) : t.text.toList.getLast? = cs.getLast? := by
  have hlen := (h.solid t ht).1
  have hge := h.start_ge t ht
  have hend' : t.start - pos + t.length = cs.length := by
    rw [Token.stop] at hend
    omega
  rw [h.text_eq t ht, List.take_of_length_le (by rw [List.length_drop]; omega),
    List.getLast?_drop, if_neg (by omega)]

end Layout

theorem scan_shift (pos n : Nat) (cs : List Char) :
    scan (pos + n) cs = (scan pos cs).map (Token.shift n) := by
  induction pos, cs using scan.induct with
  | case1 pos => simp [scan]
  | case2 pos c cs hc ih =>
    rw [scan, if_pos hc, scan, if_pos hc, Nat.add_right_comm, ih]
  | case3 pos c cs hc ih =>
    rw [scan, if_neg hc, scan, if_neg hc, List.map_cons, ← ih]
    simp only [Token.shift, Nat.add_right_comm]

end Lexer

open Lexer

/-- A token that ends a text keeps its shape when the text goes on, as long as the character on
one side of the cut is reserved: nothing reserved is part of a longer token. -/
theorem Token.Shaped.at_cut {t : Token} {x y : Char} (h : t.Shaped none)
    (hx : t.text.toList.getLast? = some x) (hcut : reserved x = true ∨ reserved y = true) :
    t.Shaped (some y) := by
  obtain ⟨k, text, start⟩ := t
  have hmem : x ∈ text.toList := List.mem_of_getLast? hx
  cases k
  case identifier =>
    obtain ⟨hfirst, hstops, -⟩ := h
    refine ⟨hfirst, hstops, fun d hd => ?_⟩
    cases hd
    rcases hcut with hx' | hy
    · exact absurd (reserved_iff_mem.1 hx') (hstops x hmem)
    · exact reserved_iff_mem.1 hy
  case integer =>
    obtain ⟨hne, hdigits, -⟩ := h
    refine ⟨hne, hdigits, fun d hd => ?_⟩
    cases hd
    have hy := hcut.resolve_left (by simp [not_reserved_of_isDigit (hdigits x hmem)])
    exact ⟨by simp [(reserved_classes hy).2.1], (reserved_classes hy).2.2⟩
  case float =>
    obtain ⟨⟨c, cs, htext, hc, hdot, hchars⟩, -⟩ := h
    refine ⟨⟨c, cs, htext, hc, hdot, hchars⟩, fun d hd => ?_⟩
    cases hd
    -- the last character of a float is a digit or its dot, and neither is reserved
    have hx : reserved x = false := by
      rw [htext] at hmem
      rcases List.mem_cons.1 hmem with rfl | hmem
      · exact not_reserved_of_isDigit hc
      · rcases hchars x hmem with hd | rfl
        · exact not_reserved_of_isDigit hd
        · decide
    have hy := hcut.resolve_left (by simp [hx])
    simp [(reserved_classes hy).2.1]
  all_goals exact h

theorem Lexer.scan_shaped_append {a b : List Char}
    (hcut : ∀ x y, a.getLast? = some x → b.head? = some y →
      reserved x = true ∨ reserved y = true) :
    ∀ t ∈ scan 0 a, t.Shaped (a ++ b)[t.stop]? := by
  intro t ht
  have hlayout := scan_layout 0 a
  have hshape := scan_shaped 0 a t ht
  rw [Nat.sub_zero] at hshape
  have hle : t.stop ≤ a.length := by simpa only [Nat.zero_add] using hlayout.stop_le t ht
  rcases Nat.lt_or_eq_of_le hle with hlt | hend
  · rwa [List.getElem?_append_left hlt]
  · -- the token ends the first part, so the character after it is the second part's first
    rw [hend, List.getElem?_eq_none (Nat.le_refl _)] at hshape
    rw [hend, List.getElem?_append_right (Nat.le_refl _), Nat.sub_self, ← List.head?_eq_getElem?]
    cases hb : b.head? with
    | none => exact hshape
    | some y =>
      have hne : t.text.toList ≠ [] :=
        List.ne_nil_of_length_pos (by rw [← length_eq_toList]; exact (hlayout.solid t ht).1)
      have hx := List.getLast?_eq_some_getLast hne
      have hlast := hlayout.getLast?_text ht (by rw [hend, Nat.zero_add])
      exact hshape.at_cut hx (hcut _ y (hlast ▸ hx) hb)

/-- The tokens of a concatenation cut where no token can run across, that is, where one part is
empty or the character on one side of the cut is reserved, are those of the first part and then
those of the second, moved past the first by its length in characters. -/
theorem tokenize_append {a b : String}
    (hcut : a = "" ∨ b = "" ∨ (∃ x, a.toList.getLast? = some x ∧ reserved x = true) ∨
      ∃ y, b.toList.head? = some y ∧ reserved y = true) :
    tokenize (a ++ b) = tokenize a ++ (tokenize b).map (Token.shift a.length) := by
  have hcut' : ∀ x y, a.toList.getLast? = some x → b.toList.head? = some y →
      reserved x = true ∨ reserved y = true := by
    intro x y hx hy
    rcases hcut with rfl | rfl | ⟨x', hx', hres⟩ | ⟨y', hy', hres⟩
    · simp at hx
    · simp at hy
    · exact .inl (Option.some.inj (hx.symm.trans hx') ▸ hres)
    · exact .inr (Option.some.inj (hy.symm.trans hy') ▸ hres)
  have hshift : (tokenize b).map (Token.shift a.length) = scan a.toList.length b.toList := by
    rw [tokenize, ← scan_shift, Nat.zero_add, String.length_toList]
  rw [tokenize, tokenize, hshift, String.toList_append]
  have hsecond : Layout (0 + a.toList.length) b.toList (scan a.toList.length b.toList) := by
    rw [Nat.zero_add]
    exact scan_layout _ _
  refine (Layout.eq_scan ((scan_layout 0 a.toList).append hsecond) fun t ht => ?_).symm
  rw [Nat.sub_zero]
  rcases List.mem_append.1 ht with ht | ht
  · exact scan_shaped_append hcut' t ht
  · have hshape := scan_shaped _ _ t ht
    have hge := (scan_layout _ _).start_ge t ht
    rwa [List.getElem?_append_right (by simp only [Token.stop_eq] at hge ⊢; omega)]

theorem tokenize_append_at_minus :
    (∃ y, "-2.5".toList.head? = some y ∧ reserved y = true) ∧
      tokenize ("x1" ++ "-2.5") = tokenize "x1" ++ (tokenize "-2.5").map (Token.shift "x1".length) :=
  have hcut : ∃ y, "-2.5".toList.head? = some y ∧ reserved y = true := ⟨'-', by decide, by decide⟩
  ⟨hcut, tokenize_append (.inr (.inr (.inr hcut)))⟩

end LambdaCheck
