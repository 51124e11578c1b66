import LambdaCheck.Proofs.Shapes
import LambdaCheck.Proofs.Reads

/-!
Where the diagnostics of a text lie. Every finding names tokens of the input: a skipped run names
the tokens it skipped, in order; an early end names the last token; every other finding names one
token, which for an unused parameter is the one that declared it (`Finding.Within`). The checker
keeps to this on every step, so every finding of a token list does (`Checker.findings_within`).
On the tokens of a text, which hold at least one character each and come in order, a finding's
range then runs from the start of its first token to the end of its last, and so stays inside
the text (`check_ranges_on_tokens`).
-/

namespace LambdaCheck

namespace Finding

/-- The tokens a finding names are tokens of `all`: a skipped run is taken from `all` in order,
and an early end is reported at the last token of `all`. -/
def Within (all : List Token) : Finding → Prop
  | skipped _ found others => (found :: others).Sublist all
  | unrecoverable _ found => found ∈ all
  | earlyEnd _ anchor => ∃ t, anchor = some t ∧ all.getLast? = some t
  | unknownName t | unusedParameter t | unmatchedClose t | misplacedClose t => t ∈ all

end Finding

theorem exists_places_of_sublist {found : Token} {others all : List Token}
    (h : (found :: others).Sublist all) :
    ∃ i j : Nat, i ≤ j ∧ all[i]? = some found ∧ all[j]? = some (others.getLast?.getD found) := by
  obtain ⟨r₁, r₂, rfl, hfound, hothers⟩ := List.cons_sublist_iff.1 h
  obtain ⟨i, hi⟩ := List.mem_iff_getElem?.1 hfound
  have hilt : i < r₁.length := (List.getElem?_eq_some_iff.1 hi).1
  have hfirst : (r₁ ++ r₂)[i]? = some found := by rw [List.getElem?_append_left hilt, hi]
  cases hlast : others.getLast? with
  | none => exact ⟨i, i, Nat.le_refl i, hfirst, hfirst⟩
  | some u =>
    obtain ⟨k, hk⟩ := List.mem_iff_getElem?.1 (hothers.subset (List.mem_of_getLast? hlast))
    refine ⟨i, r₁.length + k, by omega, hfirst, ?_⟩
    rw [List.getElem?_append_right (Nat.le_add_right _ _), Nat.add_sub_cancel_left]
    exact hk

namespace Finding

variable {all : List Token}

theorem stop_ofLength {t : Token} (hlen : 1 ≤ t.length) (code : ErrorCode) (message : String) :
    (Diagnostic.ofLength code message t.start t.length).stop = t.stop := by
  simp only [Diagnostic.stop, Diagnostic.ofLength_start, Diagnostic.ofLength_length, Token.stop]
  omega

theorem Within.range {f : Finding} (hf : f.Within all) (hlen : ∀ t ∈ all, 1 ≤ t.length)
    (hord : all.Pairwise fun a b => a.stop ≤ b.start) :
    ∃ i j : Nat, i ≤ j ∧ ∃ a b : Token, all[i]? = some a ∧ all[j]? = some b ∧
      f.toDiagnostic.start = a.start ∧ f.toDiagnostic.stop = b.stop := by
  have hsingle : ∀ {t : Token}, t ∈ all → ∀ code message,
      ∃ i j : Nat, i ≤ j ∧ ∃ a b : Token, all[i]? = some a ∧ all[j]? = some b ∧
        (Diagnostic.ofLength code message t.start t.length).start = a.start ∧
        (Diagnostic.ofLength code message t.start t.length).stop = b.stop := by
    intro t ht code message
    obtain ⟨i, hi⟩ := List.mem_iff_getElem?.1 ht
    exact ⟨i, i, Nat.le_refl i, t, t, hi, hi, rfl, stop_ofLength (hlen t ht) code message⟩
  cases f with
  | skipped e found others =>
    obtain ⟨i, j, hij, hi, hj⟩ := exists_places_of_sublist hf
    refine ⟨i, j, hij, found, _, hi, hj, rfl, ?_⟩
    have hafter : found.start < (others.getLast?.getD found).stop := by
      have hfound := hlen found (hf.subset (.head others))
      cases hlast : others.getLast? with
      | none => simp only [Option.getD_none, Token.stop]; omega
      | some u =>
        have hu : u ∈ others := List.mem_of_getLast? hlast
        have horder := List.rel_of_pairwise_cons (hord.sublist hf) hu
        have hulen := hlen u (hf.subset (.tail found hu))
        simp only [Option.getD_some, Token.stop] at horder ⊢
        omega
    simp only [toDiagnostic, Diagnostic.ofRange, Diagnostic.stop, Diagnostic.ofLength_start,
      Diagnostic.ofLength_length]
    omega
  | unrecoverable e found => exact hsingle hf _ _
  | earlyEnd e anchor =>
    obtain ⟨t, rfl, hlast⟩ := hf
    exact hsingle (List.mem_of_getLast? hlast) _ _
  | unknownName t => exact hsingle hf _ _
  | unusedParameter t => exact hsingle hf _ _
  | unmatchedClose t => exact hsingle hf _ _
  | misplacedClose t => exact hsingle hf _ _

theorem Within.earlyEnd {f : Finding} (hf : f.Within all) (hlen : ∀ t ∈ all, 1 ≤ t.length)
    (heof : f.code = .unexpectedEof) :
    ∃ t, all.getLast? = some t ∧ f.toDiagnostic.start = t.start ∧ f.toDiagnostic.stop = t.stop := by
  cases f with
  | earlyEnd e anchor =>
    obtain ⟨t, rfl, hlast⟩ := hf
    exact ⟨t, hlast, rfl, stop_ofLength (hlen t (List.mem_of_getLast? hlast)) _ _⟩
  | _ => simp [code] at heof

end Finding

namespace Checker

variable {all : List Token} {s : State} {t : Token}

theorem closeBracket_within (ht : t ∈ all) :
    (∀ f ∈ (s.closeBracket t).2, f.Within all) ∧ (s.closeBracket t).1.params = s.params := by
  unfold State.closeBracket
  split
  · exact ⟨by simpa [Finding.Within] using ht, rfl⟩
  · exact ⟨by simp, rfl⟩

theorem skipAll_within (s : State) {ts : List Token} (hts : ∀ t ∈ ts, t ∈ all) :
    (∀ f ∈ (s.skipAll ts).2, f.Within all) ∧ (s.skipAll ts).1.params = s.params := by
  induction ts generalizing s with
  | nil => exact ⟨by simp [State.skipAll], rfl⟩
  | cons t ts ih =>
    have hbracket : (∀ f ∈ (s.skipBracket t).2, f.Within all) ∧
        (s.skipBracket t).1.params = s.params := by
      unfold State.skipBracket
      split
      · exact ⟨by simp, rfl⟩
      · exact closeBracket_within (hts t (.head ts))
      · exact ⟨by simp, rfl⟩
    obtain ⟨hrest, hparams⟩ := ih (s.skipBracket t).1 fun u hu => hts u (.tail t hu)
    refine ⟨fun f hf => ?_, hparams.trans hbracket.2⟩
    rcases List.mem_append.1 hf with hf | hf
    · exact hbracket.1 f hf
    · exact hrest f hf

theorem optional_within {s' : State} {fs : List Finding} (ht : t ∈ all)
    (h : s.optional t = some (s', fs)) : (∀ f ∈ fs, f.Within all) ∧ s'.params = s.params := by
  obtain ⟨ph, d, b, ps⟩ := s
  unfold State.optional at h
  split at h
  next => cases h; exact ⟨by simp, rfl⟩
  next =>
    have hclose := closeBracket_within (s := ⟨ph, d, b, ps⟩) ht
    rwa [Option.some.inj h] at hclose
  next => cases h; exact ⟨by simpa [Finding.Within] using ht, rfl⟩
  next => cases h; exact ⟨by simp, rfl⟩
  next => cases h; exact ⟨by simp, rfl⟩
  next =>
    split at h
    · cases h; exact ⟨by simp, rfl⟩
    · cases h
  next => cases h; exact ⟨by simp, rfl⟩
  next => cases h; exact ⟨by simp, rfl⟩
  next => cases h

theorem accept_within (hs : ∀ p ∈ s.params, p.name ∈ all) (ht : t ∈ all) :
    (∀ f ∈ (s.accept t).2, f.Within all) ∧ ∀ p ∈ (s.accept t).1.params, p.name ∈ all := by
  obtain ⟨ph, d, b, ps⟩ := s
  have hname : t.kind = .identifier →
      (∀ f ∈ (State.refer ⟨ph, d, b, ps⟩ t).2, f.Within all) ∧
        ∀ p ∈ (State.refer ⟨ph, d, b, ps⟩ t).1.params, p.name ∈ all := by
    intro hk
    rw [State.refer_eq _ hk]
    refine ⟨fun f hf => ?_, fun p hp => ?_⟩
    · obtain ⟨u, hu, rfl⟩ := List.mem_map.1 hf
      obtain ⟨rfl, -⟩ := List.mem_singleton.1 (List.mem_filter.1 hu).1
      exact ht
    · have hmem : p.name ∈ (Param.markNamed [t] ps).map (·.name) := List.mem_map_of_mem hp
      rw [Param.markNamed_names] at hmem
      obtain ⟨q, hq, hqp⟩ := List.mem_map.1 hmem
      exact hqp ▸ hs q hq
  unfold State.accept
  split
  next => exact ⟨by simp, by simp⟩
  next => exact ⟨by simp, hs⟩
  next =>
    refine ⟨by simp, fun p hp => ?_⟩
    rcases List.mem_append.1 hp with hp | hp
    · exact hs p hp
    · obtain rfl := List.mem_singleton.1 hp
      exact ht
  next => exact ⟨by simp, hs⟩
  next => exact ⟨by simp, hs⟩
  next hk => exact hname hk
  next => exact ⟨by simp, hs⟩
  next hk => exact hname hk
  next => exact ⟨by simp, hs⟩
  next =>
    obtain ⟨hf, hparams⟩ := closeBracket_within (s := ⟨_, d, b, ps⟩) ht
    exact ⟨hf, hparams ▸ hs⟩
  next => exact ⟨by simp, hs⟩
  next =>
    refine ⟨fun f hf => ?_, by simp⟩
    obtain ⟨p, hp, rfl⟩ := List.mem_map.1 hf
    exact hs p (List.mem_filter.1 hp).1
  next => exact ⟨by simp, hs⟩
  next => exact ⟨by simp, hs⟩

/-- Every finding of a run over a part of `all` is within `all`, if the run starts with the
parameters in scope declared by tokens of `all` and, unless it starts between expressions, after
a token of `all`. -/
theorem run_within (s : State) (ts : List Token) (hsuf : ts <:+ all)
    (hs : ∀ p ∈ s.params, p.name ∈ all) (hbegun : s.phase = .item ∨ all ≠ []) :
    ∀ f ∈ run all.getLast? s ts, f.Within all := by
  induction s, ts using run.induct with
  | case1 s hp => simp [run_nil_item _ hp]
  | case2 s hp =>
    rw [run_nil_of_ne _ hp]
    intro f hf
    obtain rfl := List.mem_singleton.1 hf
    have hne := hbegun.resolve_left hp
    exact ⟨all.getLast hne, List.getLast?_eq_some_getLast hne, List.getLast?_eq_some_getLast hne⟩
  | case3 s t ts ht ih =>
    rw [run_newLine _ s ts ht]
    exact ih ((List.suffix_cons t ts).trans hsuf) hs hbegun
  | case4 s t ts _ s' fs ho ih =>
    have htall : t ∈ all := hsuf.subset (.head ts)
    obtain ⟨hfs, hparams⟩ := optional_within htall ho
    rw [run_move _ ts (Move.of_optional ho)]
    intro f hf
    rcases List.mem_append.1 hf with hf | hf
    · exact hfs f hf
    · exact ih ((List.suffix_cons t ts).trans hsuf) (hparams ▸ hs)
        (.inr (List.ne_nil_of_mem htall)) f hf
  | case5 s t ts _ hn ha s' fs hacc ih =>
    have htall : t ∈ all := hsuf.subset (.head ts)
    obtain ⟨hfs, hparams⟩ := accept_within hs htall
    rw [hacc] at hfs hparams
    have hmove := Move.of_accept hn ha
    rw [hacc] at hmove
    rw [run_move _ ts hmove]
    intro f hf
    rcases List.mem_append.1 hf with hf | hf
    · exact hfs f hf
    · exact ih ((List.suffix_cons t ts).trans hsuf) hparams (.inr (List.ne_nil_of_mem htall)) f hf
  | case6 s t ts ht hn ha hd =>
    rw [run_unrecoverable _ ht hn (by simpa using ha) hd]
    intro f hf
    rcases List.mem_cons.1 hf with rfl | hf
    · exact hsuf.subset (.head ts)
    · exact (skipAll_within s fun u hu => hsuf.subset hu).1 f hf
  | case7 s t ts ht hn ha target more hd skipped s₁ f₁ hskip s₂ f₂ hacc ih =>
    have hrest : ts <:+ all := (List.suffix_cons t ts).trans hsuf
    have hmore : target :: more <:+ all := by
      rw [← hd]
      exact (List.dropWhile_suffix _).trans hrest
    have hrun : ∀ u ∈ t :: ts.takeWhile (misfit s.phase.expected), u ∈ all := by
      intro u hu
      rcases List.mem_cons.1 hu with rfl | hu
      · exact hsuf.subset (.head ts)
      · exact hrest.subset ((List.takeWhile_prefix _).subset hu)
    obtain ⟨hskipped, hparams₁⟩ := skipAll_within s hrun
    rw [hskip] at hskipped hparams₁
    obtain ⟨hfound, hparams₂⟩ := accept_within (hparams₁ ▸ hs) (hmore.subset (.head more))
    rw [hacc] at hfound hparams₂
    rw [run_skip _ ht hn (by simpa using ha) hd hskip hacc]
    intro f hf
    rcases List.mem_cons.1 hf with rfl | hf
    · show (t :: (ts.takeWhile (misfit s.phase.expected)).filter (·.kind != .newLine)).Sublist all
      exact (((List.filter_sublist).trans (List.takeWhile_prefix _).sublist).cons_cons t).trans
        hsuf.sublist
    · rcases List.mem_append.1 hf with hf | hf
      · rcases List.mem_append.1 hf with hf | hf
        · exact hskipped f hf
        · exact hfound f hf
      · exact ih ((List.suffix_cons target more).trans hmore) hparams₂
          (.inr (List.ne_nil_of_mem (hsuf.subset (.head ts)))) f hf

theorem findings_within (ts : List Token) :
    ∀ f ∈ findings ts, f.Within (ts.filter (·.kind != .whitespace)) := by
  rw [findings_eq]
  exact run_within State.initial _ List.suffix_rfl (by simp [State.initial]) (.inl rfl)

end Checker

open Checker

/-- The diagnostics of a text lie on its tokens. Each is at least one character long and ends
within the text: it starts where a token starts and ends where the same or a later token ends,
and a diagnostic about an early end lies on the last token. -/
theorem check_ranges_on_tokens (s : String) :
    ∀ d ∈ check s, 1 ≤ d.length ∧ d.stop ≤ s.length ∧
      (∃ i j : Nat, i ≤ j ∧ ∃ a b : Token, (tokenize s)[i]? = some a ∧ (tokenize s)[j]? = some b ∧
        d.start = a.start ∧ d.stop = b.stop) ∧
      (d.code = .unexpectedEof →
        ∃ t, (tokenize s).getLast? = some t ∧ d.start = t.start ∧ d.stop = t.stop) := by
  intro d hd
  obtain ⟨f, hf, rfl⟩ := List.mem_map.1 hd
  have hlayout := Lexer.scan_layout 0 s.toList
  -- the tokenizer makes no whitespace, so the checker reads every token of the text
  have hkept : (tokenize s).filter (·.kind != .whitespace) = tokenize s :=
    List.filter_eq_self.2 fun t ht => by simpa using kind_ne_whitespace_of_mem_tokenize ht
  have hwithin := findings_within (tokenize s) f hf
  rw [hkept] at hwithin
  have hlen : ∀ t ∈ tokenize s, 1 ≤ t.length := fun t ht => (hlayout.solid t ht).1
  obtain ⟨i, j, hij, a, b, hi, hj, hstart, hstop⟩ := hwithin.range hlen hlayout.pairwise
  have hb : b.stop ≤ s.length := by
    simpa [String.length_toList] using hlayout.stop_le b (List.mem_of_getElem? hj)
  refine ⟨f.toDiagnostic.length_pos, hstop ▸ hb, ⟨i, j, hij, a, b, hi, hj, hstart, hstop⟩,
    fun heof => hwithin.earlyEnd hlen ?_⟩
  rwa [Finding.code_toDiagnostic] at heof

theorem check_ranges_skipped_run :
    Finding.toDiagnostic (.skipped .lambda ⟨.identifier, "x", 1⟩ [⟨.identifier, "y", 3⟩]) ∈
        check "(x y\\" ∧
      ∃ i j : Nat, i ≤ j ∧ ∃ a b : Token, (tokenize "(x y\\")[i]? = some a ∧
        (tokenize "(x y\\")[j]? = some b ∧
        (Finding.toDiagnostic (.skipped .lambda ⟨.identifier, "x", 1⟩ [⟨.identifier, "y", 3⟩])).start =
          a.start ∧
        (Finding.toDiagnostic (.skipped .lambda ⟨.identifier, "x", 1⟩ [⟨.identifier, "y", 3⟩])).stop =
          b.stop := by
  have hmem : Finding.toDiagnostic (.skipped .lambda ⟨.identifier, "x", 1⟩ [⟨.identifier, "y", 3⟩]) ∈
      check "(x y\\" := by
    have hcheck : check "(x y\\" =
        [Finding.toDiagnostic (.skipped .lambda ⟨.identifier, "x", 1⟩ [⟨.identifier, "y", 3⟩]),
          Finding.toDiagnostic (.earlyEnd .parameter (some ⟨.lambdaIntroducer, "\\", 4⟩))] := by
      decide +kernel
    rw [hcheck]
    exact .head _
  exact ⟨hmem, (check_ranges_on_tokens "(x y\\" _ hmem).2.2.1⟩

end LambdaCheck
