import LambdaCheck.Proofs.Moves

/-!
Runs without recovery. `Reads s ts s' fs` says that the checker, from `s`, takes every token of
`ts` by a move or passes over it as a line feed, and ends in `s'` having found `fs`. Such a run
never looks past its own tokens, so the findings of a longer input start with `fs`
(`Reads.run_append`), and line feeds play no part in it (`Reads.filter_newLine`). Conversely a
run that reports neither a skipped run nor an unrecoverable token is made of moves alone
(`Checker.reads_of_run`). The checker's equations on one token, recoveries included, are stated
here once, so that no later proof unfolds it.
-/

namespace LambdaCheck

namespace Finding

def code : Finding → ErrorCode
  | skipped .. | unrecoverable .. => .unexpectedToken
  | earlyEnd .. => .unexpectedEof
  | unknownName _ => .unknownName
  | unusedParameter _ => .unusedParameter
  | unmatchedClose _ => .unmatchedCloseBracket
  | misplacedClose _ => .misplacedCloseBracket

@[simp] theorem code_toDiagnostic (f : Finding) : f.toDiagnostic.code = f.code := by
  cases f with
  | earlyEnd e anchor => cases anchor <;> rfl
  | _ => rfl

/-- A finding about names only: an unknown name or an unused parameter. -/
def isName (f : Finding) : Bool :=
  f.code == .unknownName || f.code == .unusedParameter

/-- A finding that reports a recovery: a skipped run or a token nothing after it fits. -/
def recovers : Finding → Bool
  | skipped .. | unrecoverable .. => true
  | _ => false

theorem recovers_eq_false_of_isName {f : Finding} (h : f.isName = true) : f.recovers = false := by
  cases f <;> simp_all [isName, code, recovers]

theorem code_of_isName_eq_false {f : Finding} (h : f.isName = false) :
    f.code = .unexpectedToken ∨ f.code = .unexpectedEof ∨ f.code = .unmatchedCloseBracket ∨
      f.code = .misplacedCloseBracket := by
  cases f <;> simp_all [isName, code]

end Finding

namespace Checker

/-- `Reads s ts s' fs`: from `s` the checker takes each token of `ts` by a move, or passes over
it as a line feed, and reaches `s'` having found `fs`. -/
inductive Reads : State → List Token → State → List Finding → Prop where
  | nil (s : State) : Reads s [] s []
  | newLine {s s' : State} {t : Token} {ts : List Token} {fs : List Finding}
      (ht : t.kind = .newLine) (hrest : Reads s ts s' fs) : Reads s (t :: ts) s' fs
  | move {s s₁ s' : State} {t : Token} {ts : List Token} {f₁ fs : List Finding}
      (hmove : Move s t s₁ f₁) (hrest : Reads s₁ ts s' fs) : Reads s (t :: ts) s' (f₁ ++ fs)

namespace Reads

theorem single {s s' : State} {t : Token} {fs : List Finding} (h : Move s t s' fs) :
    Reads s [t] s' fs := by
  simpa using Reads.move h (.nil s')

theorem append {s s₁ s₂ : State} {xs ys : List Token} {f₁ f₂ : List Finding}
    (h₁ : Reads s xs s₁ f₁) (h₂ : Reads s₁ ys s₂ f₂) : Reads s (xs ++ ys) s₂ (f₁ ++ f₂) := by
  induction h₁ with
  | nil => exact h₂
  | newLine ht _ ih => exact .newLine ht (ih h₂)
  | move hmove _ ih =>
    rw [List.append_assoc]
    exact .move hmove (ih h₂)

theorem filter_newLine {s s' : State} {ts : List Token} {fs : List Finding} :
    Reads s (ts.filter (·.kind != .newLine)) s' fs ↔ Reads s ts s' fs := by
  induction ts generalizing s fs with
  | nil => rfl
  | cons t ts ih =>
    by_cases ht : t.kind = .newLine
    · have hdrop : (t :: ts).filter (·.kind != .newLine) = ts.filter (·.kind != .newLine) := by
        simp [ht]
      rw [hdrop, ih]
      constructor
      · exact .newLine ht
      · intro h
        cases h with
        | newLine _ hrest => exact hrest
        | move hmove _ => exact absurd ht hmove.ne_newLine
    · have hkeep : (t :: ts).filter (·.kind != .newLine) = t :: ts.filter (·.kind != .newLine) := by
        simp [ht]
      rw [hkeep]
      constructor
      · intro h
        cases h with
        | newLine hnl _ => exact absurd hnl ht
        | move hmove hrest => exact .move hmove (ih.1 hrest)
      · intro h
        cases h with
        | newLine hnl _ => exact absurd hnl ht
        | move hmove hrest => exact .move hmove (ih.2 hrest)

end Reads

theorem run_newLine (anchor : Option Token) (s : State) {t : Token} (ts : List Token)
    (ht : t.kind = .newLine) : run anchor s (t :: ts) = run anchor s ts := by
  rw [run]
  simp [ht]

theorem run_move (anchor : Option Token) {s s' : State} {t : Token} {fs : List Finding}
    (ts : List Token) (h : Move s t s' fs) : run anchor s (t :: ts) = fs ++ run anchor s' ts := by
  have hmove := State.move_eq_some_iff.2 h
  rw [run]
  simp only [h.ne_newLine, if_false]
  cases ho : s.optional t with
  | some r =>
    simp only [State.move, ho, Option.some.injEq] at hmove
    simp [hmove]
  | none =>
    simp only [State.move, ho, Option.ite_none_right_eq_some, Option.some.injEq] at hmove
    obtain ⟨ha, hacc⟩ := hmove
    simp [ha, hacc]

theorem run_recover (anchor : Option Token) {s : State} {t : Token} (ts : List Token)
    (ht : t.kind ≠ .newLine) (h : s.move t = none) :
    ∃ f rest, run anchor s (t :: ts) = f :: rest ∧ f.recovers = true := by
  unfold State.move at h
  rw [run]
  simp only [ht, if_false]
  split at h
  next => cases h
  next ho =>
    split at h
    next => cases h
    next ha =>
      simp only [ho, ha, Bool.false_eq_true, if_false]
      split
      · exact ⟨_, _, rfl, rfl⟩
      · exact ⟨_, _, rfl, rfl⟩

theorem run_unrecoverable (anchor : Option Token) {s : State} {t : Token} {ts : List Token}
    (ht : t.kind ≠ .newLine) (hn : s.optional t = none)
    (ha : s.phase.expected.accepts t.kind = false)
    (hd : ts.dropWhile (misfit s.phase.expected) = []) :
    run anchor s (t :: ts) = .unrecoverable s.phase.expected t :: (s.skipAll (t :: ts)).2 := by
  rw [run]
  simp only [ht, hn, ha, if_false, Bool.false_eq_true]
  split
  next => rfl
  next h => rw [hd] at h; cases h

/-- Where no move applies, the checker skips to the next token that fits, counts the brackets of
the skipped run, and takes the token it found. -/
theorem run_skip (anchor : Option Token) {s s₁ s₂ : State} {t target : Token}
    {ts more : List Token} {f₁ f₂ : List Finding} (ht : t.kind ≠ .newLine)
    (hn : s.optional t = none) (ha : s.phase.expected.accepts t.kind = false)
    (hd : ts.dropWhile (misfit s.phase.expected) = target :: more)
    (hskip : s.skipAll (t :: ts.takeWhile (misfit s.phase.expected)) = (s₁, f₁))
    (hacc : s₁.accept target = (s₂, f₂)) :
    run anchor s (t :: ts) =
      .skipped s.phase.expected t ((ts.takeWhile (misfit s.phase.expected)).filter
        (·.kind != .newLine)) :: (f₁ ++ f₂ ++ run anchor s₂ more) := by
  rw [run]
  simp only [ht, hn, ha, if_false, Bool.false_eq_true]
  split
  next h => rw [hd] at h; cases h
  next target' more' h =>
    rw [hd] at h
    obtain ⟨rfl, rfl⟩ := List.cons.inj h
    simp only [hskip, hacc]

theorem run_nil_item (anchor : Option Token) {s : State} (h : s.phase = .item) :
    run anchor s [] = [] := by
  rw [run, h]

theorem run_nil_of_ne (anchor : Option Token) {s : State} (h : s.phase ≠ .item) :
    run anchor s [] = [.earlyEnd s.phase.expected anchor] := by
  rw [run]
  split
  next hp => exact absurd hp h
  next => rfl

theorem findings_eq (ts : List Token) :
    findings ts = run (ts.filter (·.kind != .whitespace)).getLast? State.initial
      (ts.filter (·.kind != .whitespace)) := rfl

theorem Reads.run_append {s s' : State} {xs : List Token} {fs : List Finding}
    (h : Reads s xs s' fs) (anchor : Option Token) (ys : List Token) :
    run anchor s (xs ++ ys) = fs ++ run anchor s' ys := by
  induction h with
  | nil => rfl
  | newLine ht _ ih => rw [List.cons_append, run_newLine anchor _ _ ht, ih]
  | move hmove _ ih => rw [List.cons_append, run_move anchor _ hmove, ih, List.append_assoc]

/-- A run that reports no recovery is made of moves and line feeds alone. -/
theorem reads_of_run (anchor : Option Token) (s : State) (ts : List Token)
    (h : ∀ f ∈ run anchor s ts, f.recovers = false) :
    ∃ s' fs, Reads s ts s' fs ∧ run anchor s ts = fs ++ run anchor s' [] := by
  induction ts generalizing s with
  | nil => exact ⟨s, [], .nil s, rfl⟩
  | cons t ts ih =>
    by_cases ht : t.kind = .newLine
    · rw [run_newLine anchor s ts ht] at h ⊢
      obtain ⟨s', fs, hreads, hrun⟩ := ih s h
      exact ⟨s', fs, .newLine ht hreads, hrun⟩
    · cases hmove : s.move t with
      | none =>
        obtain ⟨f, rest, hrun, hf⟩ := run_recover anchor ts ht hmove
        rw [hrun] at h
        simp [h f (List.mem_cons_self ..)] at hf
      | some r =>
        obtain ⟨s₁, f₁⟩ := r
        have hm := State.move_eq_some_iff.1 hmove
        rw [run_move anchor ts hm] at h ⊢
        obtain ⟨s', fs, hreads, hrun⟩ := ih s₁ fun f hf => h f (List.mem_append_right _ hf)
        exact ⟨s', f₁ ++ fs, .move hm hreads, by rw [hrun, List.append_assoc]⟩

end Checker

end LambdaCheck
