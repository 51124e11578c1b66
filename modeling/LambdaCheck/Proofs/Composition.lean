import LambdaCheck.Proofs.BracketCount

/-!
How the diagnostics of a token list follow from its parts: blank tokens put into it, and a prefix
put before it.

Blank tokens are inert. The checker drops whitespace tokens before it starts, and it passes over
line feeds wherever it looks for a token: no expectation accepts one, so a recovery skips them,
leaves them out of the skipped run it reports and counts no bracket for them
(`Checker.run_filter_newLine`). The only token the checker reads directly is the last one, where
an early end is reported, and that may be a line feed. So the diagnostics of a token list depend
only on its tokens other than whitespace and line feeds, and on its last token other than
whitespace (`findings_eq_of_view`), and putting whitespace anywhere into the input, or line feeds
anywhere before its last token that is not whitespace, changes no diagnostic (`parse_padded`).

A prefix in which the checker finds nothing but names is read without recovery and leaves the
checker in its initial state: between expressions, with no bracket open and no parameter in scope
(`Checker.reads_of_names`). Such a run never looks past its own tokens, so the rest is checked as
if it stood alone. The last token of the whole input, where an early end is reported, is the last
token of the rest whenever the rest has one (`parse_append_of_names`).
-/

namespace LambdaCheck

namespace State

theorem skipAll_filter_newLine (s : State) (ts : List Token) :
    s.skipAll (ts.filter (·.kind != .newLine)) = s.skipAll ts := by
  induction ts generalizing s with
  | nil => rfl
  | cons t ts ih =>
    by_cases ht : t.kind = .newLine
    · have hskip : s.skipBracket t = (s, []) := by simp [skipBracket, ht]
      simp [skipAll, ht, hskip, ih]
    · simp [skipAll, ht, ih]

end State

namespace Checker

theorem newLine_or_misfit (e : Expected) :
    (fun t : Token => !(t.kind != .newLine) || misfit e t) = misfit e := by
  funext t
  by_cases ht : t.kind = .newLine
  · simp [ht, misfit, Expected.accepts_newLine]
  · simp [ht]

theorem accepts_of_dropWhile {e : Expected} {ts more : List Token} {target : Token}
    (hd : ts.dropWhile (misfit e) = target :: more) : e.accepts target.kind = true := by
  have hfit := List.head_dropWhile_not (misfit e) (l := ts) (by simp [hd])
  simpa [hd, misfit] using hfit

/-- The checker passes over line feeds wherever they stand, recoveries included: the line feeds
of a skipped run are left out of its report and of the bracket count. -/
theorem run_filter_newLine (anchor : Option Token) (s : State) (ts : List Token) :
    run anchor s (ts.filter (·.kind != .newLine)) = run anchor s ts := by
  induction s, ts using run.induct with
  | case1 s hp => rfl
  | case2 s hp => rfl
  | case3 s t ts ht ih => rw [List.filter_cons_of_neg (by simp [ht]), ih, run_newLine _ _ _ ht]
  | case4 s t ts ht s' fs ho ih =>
    rw [List.filter_cons_of_pos (by simp [ht]), run_move _ _ (Move.of_optional ho),
      run_move _ _ (Move.of_optional ho), ih]
  | case5 s t ts ht hn ha s' fs hacc ih =>
    have hmove := Move.of_accept_eq hn ha hacc
    rw [List.filter_cons_of_pos (by simp [ht]), run_move _ _ hmove, run_move _ _ hmove, ih]
  | case6 s t ts ht hn ha hd =>
    have hd' : (ts.filter (·.kind != .newLine)).dropWhile (misfit s.phase.expected) = [] := by
      rw [List.dropWhile_filter, newLine_or_misfit, hd, List.filter_nil]
    rw [List.filter_cons_of_pos (by simp [ht]), run_unrecoverable _ ht hn (by simpa using ha) hd',
      run_unrecoverable _ ht hn (by simpa using ha) hd, ← List.filter_cons_of_pos (by simp [ht]),
      State.skipAll_filter_newLine]
  | case7 s t ts ht hn ha target more hd skipped s₁ f₁ hskip s₂ f₂ hacc ih =>
    -- the token found fits, so it is no line feed and survives the filter
    have htarget : target.kind ≠ .newLine := by
      intro hnl
      have hfit := accepts_of_dropWhile hd
      rw [hnl, Expected.accepts_newLine] at hfit
      cases hfit
    have hd' : (ts.filter (·.kind != .newLine)).dropWhile (misfit s.phase.expected) =
        target :: more.filter (·.kind != .newLine) := by
      rw [List.dropWhile_filter, newLine_or_misfit, hd, List.filter_cons_of_pos (by simp [htarget])]
    have htake : (ts.filter (·.kind != .newLine)).takeWhile (misfit s.phase.expected) =
        (ts.takeWhile (misfit s.phase.expected)).filter (·.kind != .newLine) := by
      rw [List.takeWhile_filter, newLine_or_misfit]
    have hskip' : s.skipAll (t :: (ts.filter (·.kind != .newLine)).takeWhile
        (misfit s.phase.expected)) = (s₁, f₁) := by
      rw [htake, ← List.filter_cons_of_pos (by simp [ht]), State.skipAll_filter_newLine, hskip]
    rw [List.filter_cons_of_pos (by simp [ht]), run_skip _ ht hn (by simpa using ha) hd' hskip' hacc,
      run_skip _ ht hn (by simpa using ha) hd hskip hacc, htake, List.filter_filter, ih]
    simp only [Bool.and_self]

end Checker

open Checker

/-- The diagnostics of a token list depend only on its tokens other than whitespace and line
feeds, and on its last token other than whitespace, where an early end is reported. -/
theorem findings_eq_of_view {ts us : List Token}
    (hview : (us.filter (·.kind != .whitespace)).filter (·.kind != .newLine) =
      (ts.filter (·.kind != .whitespace)).filter (·.kind != .newLine))
    (hlast : (us.filter (·.kind != .whitespace)).getLast? =
      (ts.filter (·.kind != .whitespace)).getLast?) :
    findings us = findings ts := by
  rw [findings_eq, findings_eq, ← run_filter_newLine _ _ (us.filter _),
    ← run_filter_newLine _ _ (ts.filter _), hview, hlast]

/-- `Padded ts us`: `us` is `ts` with whitespace tokens put in anywhere and line feeds put in
anywhere before the last token of `ts` that is not whitespace; the tokens put in have any text
and any offset. -/
inductive Padded : List Token → List Token → Prop where
  | nil : Padded [] []
  | keep {ts us : List Token} (t : Token) (h : Padded ts us) : Padded (t :: ts) (t :: us)
  | whitespace {ts us : List Token} {t : Token} (ht : t.kind = .whitespace) (h : Padded ts us) :
      Padded ts (t :: us)
  | newLine {ts us : List Token} {t : Token} (ht : t.kind = .newLine)
      (hlater : ∃ u ∈ ts, u.kind ≠ .whitespace) (h : Padded ts us) : Padded ts (t :: us)

namespace Padded

variable {ts us : List Token}

theorem refl (ts : List Token) : Padded ts ts := by
  induction ts with
  | nil => exact .nil
  | cons t ts ih => exact .keep t ih

theorem filter_eq (h : Padded ts us) :
    (us.filter (·.kind != .whitespace)).filter (·.kind != .newLine) =
      (ts.filter (·.kind != .whitespace)).filter (·.kind != .newLine) := by
  induction h with
  | nil => rfl
  | keep t _ ih =>
    by_cases hw : t.kind = .whitespace
    · simp [hw, ih]
    · by_cases hn : t.kind = .newLine
      · simp [hn, ih]
      · simp [hw, hn, ih]
  | whitespace ht _ ih => simp [ht, ih]
  | newLine ht _ _ ih => simp [ht, ih]

theorem getLast?_eq (h : Padded ts us) :
    (us.filter (·.kind != .whitespace)).getLast? = (ts.filter (·.kind != .whitespace)).getLast? := by
  induction h with
  | nil => rfl
  | keep t _ ih =>
    by_cases hw : t.kind = .whitespace
    · simp [hw, ih]
    · simp [hw, List.getLast?_cons, ih]
  | whitespace ht _ ih => simp [ht, ih]
  | @newLine ts us t ht hlater _ ih =>
    obtain ⟨u, hu, hkind⟩ := hlater
    have hne : ts.filter (·.kind != .whitespace) ≠ [] :=
      List.ne_nil_of_mem (List.mem_filter.2 ⟨hu, by simpa using hkind⟩)
    rw [List.filter_cons_of_pos (by simp [ht]), List.getLast?_cons, ih,
      List.getLast?_eq_some_getLast hne]
    rfl

end Padded

/-- Whitespace tokens put in anywhere, and line feeds put in anywhere before the last token that
is not whitespace, change no diagnostic. -/
theorem parse_padded {ts us : List Token} (h : Padded ts us) : parse us = parse ts := by
  rw [parse, parse, findings_eq_of_view h.filter_eq h.getLast?_eq]

theorem parse_padded_front :
    Padded unknownNameProgram
        (⟨.whitespace, " ", 0⟩ :: ⟨.newLine, "\n", 0⟩ :: unknownNameProgram) ∧
      parse (⟨.whitespace, " ", 0⟩ :: ⟨.newLine, "\n", 0⟩ :: unknownNameProgram) =
        parse unknownNameProgram := by
  have hpadded : Padded unknownNameProgram
      (⟨.whitespace, " ", 0⟩ :: ⟨.newLine, "\n", 0⟩ :: unknownNameProgram) :=
    .whitespace rfl (.newLine rfl ⟨_, .head _, by decide⟩ (.refl _))
  exact ⟨hpadded, parse_padded hpadded⟩

/-! ### Concatenation -/

namespace Checker

theorem run_append_anchor (xs : List Token) {s : State} (ys : List Token) (h : s.phase = .item) :
    run (xs ++ ys).getLast? s ys = run ys.getLast? s ys := by
  cases hy : ys.getLast? with
  | none => rw [List.getLast?_eq_none_iff.1 hy, run_nil_item _ h, run_nil_item _ h]
  | some y => rw [List.getLast?_append, hy, Option.some_or]

end Checker

open Grammar

/-- A prefix whose diagnostics are all about names leaves no trace: parameters, brackets and
the anchor of an early end are the suffix's own, so the diagnostics of a concatenation are those
of its parts. -/
theorem parse_append_of_names {p q : List Token}
    (h : ∀ d ∈ parse p, d.code = .unknownName ∨ d.code = .unusedParameter) :
    parse (p ++ q) = parse p ++ parse q := by
  have hnames : ∀ f ∈ findings p, f.isName = true := by
    intro f hf
    simpa [Finding.isName] using h f.toDiagnostic (List.mem_map_of_mem hf)
  rw [findings_eq] at hnames
  obtain ⟨hreads, -⟩ := reads_of_names _ _ hnames
  have happend : findings (p ++ q) = findings p ++ findings q := by
    rw [findings_eq, findings_eq p, findings_eq q, List.filter_append, hreads.run_append,
      run_append_anchor _ _ rfl]
  rw [parse, parse, parse, happend, List.map_append]

theorem unknownNameProgram_then_open :
    (∀ d ∈ parse unknownNameProgram, d.code = .unknownName ∨ d.code = .unusedParameter) ∧
      parse (unknownNameProgram ++ [⟨.openBracket, "(", 16⟩]) =
        parse unknownNameProgram ++ parse [⟨.openBracket, "(", 16⟩] := by
  have hnames : ∀ d ∈ parse unknownNameProgram,
      d.code = .unknownName ∨ d.code = .unusedParameter := by
    intro d hd
    rw [parse, findings_of_program unknownNameProgram_program] at hd
    obtain ⟨f, hf, rfl⟩ := List.mem_map.1 hd
    simpa [Finding.isName] using nameFindings_isName _ f hf
  exact ⟨hnames, parse_append_of_names hnames⟩

end LambdaCheck
