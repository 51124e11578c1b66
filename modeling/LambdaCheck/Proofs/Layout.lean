import LambdaCheck.Token.Lexer
import LambdaCheck.Text

/-!
Where the tokens of a text lie. `Lexer.Layout pos cs ts` says that the characters `cs`, the first
of them at offset `pos`, are blanks and the texts of the tokens `ts`, in order, each token starting
at the offset of its first character and holding no blank. The tokenizer lays out every text so
(`Lexer.scan_layout`); that the tokens cut their texts out of the input, come in order, and leave
only blanks uncovered follows from the layout alone.
-/

namespace LambdaCheck

namespace Lexer

theorem blank_iff {c : Char} : blank c = true ↔ c = ' ' ∨ c = '\t' ∨ c = '\r' := by
  simp [blank, or_assoc]

theorem blank_eq_false_of_class (p : Char → Bool)
    (hp : p ' ' = false ∧ p '\t' = false ∧ p '\r' = false) {c : Char} (h : p c = true) :
    blank c = false := by
  cases hb : blank c with
  | false => rfl
  | true =>
    obtain ⟨hspace, htab, hreturn⟩ := hp
    rcases blank_iff.1 hb with rfl | rfl | rfl <;> simp_all

theorem split_solid (c : Char) (cs : List Char) : ∀ d ∈ (split c cs).2.1, blank d = false := by
  unfold split
  split
  · simp
  · split
    · intro d hd
      simp only [numberTail, List.mem_append] at hd
      rcases hd with hd | hd
      · exact blank_eq_false_of_class _ (by decide) (List.all_eq_true.1 List.all_takeWhile d hd)
      · unfold fraction at hd
        split at hd
        · rcases List.mem_cons.1 hd with rfl | hd
          · rfl
          · exact blank_eq_false_of_class _ (by decide)
              (List.all_eq_true.1 List.all_takeWhile d hd)
        · simp at hd
    · split
      · exact fun d hd =>
          blank_eq_false_of_class _ (by decide) (List.all_eq_true.1 List.all_takeWhile d hd)
      · simp

/-- The characters from offset `pos` on are blanks and the texts of the tokens, in order. -/
inductive Layout : Nat → List Char → List Token → Prop where
  | nil (pos : Nat) : Layout pos [] []
  | skip {pos : Nat} {c : Char} {cs : List Char} {ts : List Token} (hc : blank c = true)
      (h : Layout (pos + 1) cs ts) : Layout pos (c :: cs) ts
  | token {pos : Nat} {t : Token} {rest : List Char} {ts : List Token} (hstart : t.start = pos)
      (hne : t.text.toList ≠ []) (hsolid : ∀ c ∈ t.text.toList, blank c = false)
      (h : Layout (pos + t.length) rest ts) : Layout pos (t.text.toList ++ rest) (t :: ts)

theorem length_eq_toList (t : Token) : t.length = t.text.toList.length :=
  String.length_toList.symm

/-- The tokenizer lays out every text. -/
theorem scan_layout (pos : Nat) (cs : List Char) : Layout pos cs (scan pos cs) := by
  induction pos, cs using scan.induct with
  | case1 pos =>
    rw [scan]
    exact .nil pos
  | case2 pos c cs hc ih =>
    rw [scan, if_pos hc]
    exact .skip hc ih
  | case3 pos c cs hc ih =>
    let t : Token := ⟨(split c cs).1, String.ofList (c :: (split c cs).2.1), pos⟩
    have htext : t.text.toList = c :: (split c cs).2.1 := String.toList_ofList
    have hnext : pos + 1 + (split c cs).2.1.length = pos + t.length := by
      rw [length_eq_toList, htext, List.length_cons]
      omega
    have hsolid : ∀ d ∈ t.text.toList, blank d = false := by
      rw [htext]
      intro d hd
      rcases List.mem_cons.1 hd with rfl | hd
      · simpa using hc
      · exact split_solid c cs d hd
    rw [scan, if_neg hc, hnext]
    have hlayout : Layout pos (t.text.toList ++ (split c cs).2.2)
        (t :: scan (pos + t.length) (split c cs).2.2) :=
      Layout.token rfl (by simp [htext]) hsolid (hnext ▸ ih)
    rwa [htext, List.cons_append, split_append] at hlayout

namespace Layout

variable {pos : Nat} {cs : List Char} {ts : List Token}

theorem start_ge (h : Layout pos cs ts) : ∀ t ∈ ts, pos ≤ t.start := by
  induction h with
  | nil => simp
  | skip _ _ ih => exact fun t ht => Nat.le_of_succ_le (ih t ht)
  | @token pos t rest ts hstart _ _ _ ih =>
    intro u hu
    rcases List.mem_cons.1 hu with rfl | hu
    · exact Nat.le_of_eq hstart.symm
    · exact Nat.le_trans (Nat.le_add_right pos t.length) (ih u hu)

theorem solid (h : Layout pos cs ts) :
    ∀ t ∈ ts, 1 ≤ t.length ∧ ∀ c ∈ t.text.toList, blank c = false := by
  induction h with
  | nil => simp
  | skip _ _ ih => exact ih
  | @token pos t rest ts _ hne hsolid _ ih =>
    intro u hu
    rcases List.mem_cons.1 hu with rfl | hu
    · refine ⟨?_, hsolid⟩
      rw [length_eq_toList]
      exact List.length_pos_iff.2 hne
    · exact ih u hu

theorem text_eq (h : Layout pos cs ts) :
    ∀ t ∈ ts, t.text.toList = (cs.drop (t.start - pos)).take t.length := by
  induction h with
  | nil => simp
  | @skip pos c cs ts _ h ih =>
    intro t ht
    have hge := h.start_ge t ht
    have hoff : t.start - pos = t.start - (pos + 1) + 1 := by omega
    rw [hoff, List.drop_succ_cons]
    exact ih t ht
  | @token pos t rest ts hstart _ _ h ih =>
    intro u hu
    rcases List.mem_cons.1 hu with rfl | hu
    · rw [hstart, Nat.sub_self, List.drop_zero, List.take_left' (length_eq_toList u).symm]
    · -- a later token lies past this one's text
      have hge := h.start_ge u hu
      have hoff : u.start - pos = t.text.toList.length + (u.start - (pos + t.length)) := by
        rw [← length_eq_toList]
        omega
      rw [hoff, List.drop_append, List.drop_eq_nil_of_le (Nat.le_add_right _ _), List.nil_append,
        Nat.add_sub_cancel_left]
      exact ih u hu

theorem pairwise (h : Layout pos cs ts) : ts.Pairwise fun a b => a.stop ≤ b.start := by
  induction h with
  | nil => exact .nil
  | skip _ _ ih => exact ih
  | @token pos t rest ts hstart _ _ h ih =>
    refine List.pairwise_cons.2 ⟨fun u hu => ?_, ih⟩
    have hge := h.start_ge u hu
    simp only [Token.stop_eq]
    rw [hstart, ← Token.length]
    exact hge

theorem stop_le (h : Layout pos cs ts) : ∀ t ∈ ts, t.stop ≤ pos + cs.length := by
  induction h with
  | nil => simp
  | @skip pos c cs ts _ _ ih =>
    intro t ht
    have := ih t ht
    simp only [List.length_cons]
    omega
  | @token pos t rest ts hstart _ _ _ ih =>
    intro u hu
    have hlen : (t.text.toList ++ rest).length = t.length + rest.length := by
      rw [List.length_append, ← length_eq_toList]
    rw [hlen]
    rcases List.mem_cons.1 hu with rfl | hu
    · rw [Token.stop, hstart]
      omega
    · have := ih u hu
      omega

theorem uncovered (h : Layout pos cs ts) :
    ∀ k c, cs[k]? = some c → (∀ t ∈ ts, ¬ (t.start ≤ pos + k ∧ pos + k < t.stop)) →
      blank c = true := by
  induction h with
  | nil => simp
  | @skip pos c cs ts hc _ ih =>
    intro k d hk hfree
    cases k with
    | zero =>
      obtain rfl : c = d := by simpa using hk
      exact hc
    | succ k =>
      refine ih k d (by simpa using hk) fun t ht => ?_
      rw [Nat.add_right_comm]
      exact hfree t ht
  | @token pos t rest ts hstart _ _ _ ih =>
    intro k d hk hfree
    by_cases hin : k < t.length
    · -- offsets inside the token's text are covered by it
      refine absurd ⟨?_, ?_⟩ (hfree t (List.mem_cons_self ..))
      · omega
      · rw [Token.stop_eq, hstart, ← Token.length]
        omega
    · have hlen : t.text.toList.length ≤ k := by
        rw [← length_eq_toList]
        omega
      rw [List.getElem?_append_right hlen, ← length_eq_toList] at hk
      refine ih (k - t.length) d hk fun u hu => ?_
      have hoff : pos + t.length + (k - t.length) = pos + k := by omega
      rw [hoff]
      exact hfree u (List.mem_cons_of_mem t hu)

theorem flatten_texts (h : Layout pos cs ts) :
    (ts.map (·.text.toList)).flatten = cs.filter fun c => !blank c := by
  induction h with
  | nil => rfl
  | skip hc _ ih => simp [hc, ih]
  | @token pos t rest ts _ _ hsolid _ ih =>
    have hkeep : t.text.toList.filter (fun c => !blank c) = t.text.toList :=
      List.filter_eq_self.2 fun c hc => by simp [hsolid c hc]
    rw [List.map_cons, List.flatten_cons, ih, List.filter_append, hkeep]

end Layout

end Lexer

open Lexer

/-- How the tokens lie in a text, offsets counted in characters. Each token holds at least one
character and no blank, and its text is the excerpt of the text at its offset and length; each
token ends before any later one starts; every offset that no token covers holds a blank; and so
the token texts, one after another, are the text without its blanks. -/
theorem tokenize_layout (s : String) :
    (∀ t ∈ tokenize s, 1 ≤ t.length ∧ t.text = excerpt s t.start t.length ∧
      ∀ c ∈ t.text.toList, blank c = false) ∧
    (tokenize s).Pairwise (fun a b => a.stop ≤ b.start) ∧
    (∀ k c, s.toList[k]? = some c → (∀ t ∈ tokenize s, ¬ (t.start ≤ k ∧ k < t.stop)) →
      blank c = true) ∧
    ((tokenize s).map (·.text.toList)).flatten = s.toList.filter (fun c => !blank c) := by
  have h := scan_layout 0 s.toList
  refine ⟨fun t ht => ⟨(h.solid t ht).1, ?_, (h.solid t ht).2⟩, h.pairwise, ?_, h.flatten_texts⟩
  · have htext := h.text_eq t ht
    rw [Nat.sub_zero] at htext
    rw [← String.toList_inj, toList_excerpt, htext]
  · intro k c hk hfree
    exact h.uncovered k c hk fun t ht => by simpa using hfree t ht

theorem tokenize_layout_spaced :
    (⟨.identifier, "b", 2⟩ : Token) ∈ tokenize "a b" ∧ "b" = excerpt "a b" 2 1 ∧
      blank ' ' = true := by
  have htok : tokenize "a b" = [⟨.identifier, "a", 0⟩, ⟨.identifier, "b", 2⟩] := by decide +kernel
  have hmem : (⟨.identifier, "b", 2⟩ : Token) ∈ tokenize "a b" := by
    rw [htok]
    simp
  refine ⟨hmem, ((tokenize_layout "a b").1 _ hmem).2.1, ?_⟩
  exact (tokenize_layout "a b").2.2.1 1 ' ' (by decide) (by rw [htok]; decide)

end LambdaCheck
