import LambdaCheck.Proofs.Recognition

/-!
The closing brackets the checker reports. Whatever it recovers from, the brackets it reports as
unmatched are those that the greedy count `Brackets.unmatched` reports over all the tokens, once
the closing brackets found where an operand should start are marked: such a bracket is reported
as unmatched and at once as misplaced, and it closes nothing.

`Checker.Counted` says this of a stretch of a run between two states, and `Checker.Tally` of a
run to the end of the input. Each optional move, each accepted token and each skipped token is
counted, and whole runs follow by the checker's own recursion (`Checker.run_tally`).
-/

namespace LambdaCheck

namespace Brackets

theorem stillOpen_append (depth : Nat) (xs ys : List (Token × Bool)) :
    stillOpen depth (xs ++ ys) = stillOpen (stillOpen depth xs) ys := by
  induction xs generalizing depth with
  | nil => rfl
  | cons x xs ih =>
    obtain ⟨t, marked⟩ := x
    simp only [List.cons_append, stillOpen]
    split
    · exact ih (depth + 1)
    · split
      · exact ih depth
      · exact ih (depth - 1)
    · exact ih depth

theorem unmatched_cons_plain {t : Token} (ho : t.kind ≠ .openBracket)
    (hc : t.kind ≠ .closeBracket) (marked : Bool) (depth : Nat) (rest : List (Token × Bool)) :
    unmatched depth ((t, marked) :: rest) = unmatched depth rest := by
  simp only [unmatched]

theorem exists_spread (p : Token → Bool) {ts : List Token} {ms : List (Token × Bool)}
    (hms : ms.map Prod.fst = ts.filter p)
    (hplain : ∀ t ∈ ts, p t = false → t.kind ≠ .openBracket ∧ t.kind ≠ .closeBracket) :
    ∃ ms' : List (Token × Bool), ms'.map Prod.fst = ts ∧
      (∀ depth, unmatched depth ms' = unmatched depth ms) ∧ ms'.filter (·.2) = ms.filter (·.2) := by
  induction ts generalizing ms with
  | nil =>
    obtain rfl : ms = [] := by simpa using hms
    exact ⟨[], rfl, fun _ => rfl, rfl⟩
  | cons t ts ih =>
    have hrest : ∀ u ∈ ts, p u = false → u.kind ≠ .openBracket ∧ u.kind ≠ .closeBracket :=
      fun u hu => hplain u (List.mem_cons_of_mem t hu)
    cases hp : p t with
    | true =>
      rw [List.filter_cons_of_pos hp] at hms
      obtain ⟨⟨t', marked⟩, ms₀, rfl, rfl, hms₀⟩ := List.map_eq_cons_iff.1 hms
      obtain ⟨ms', hfst, hsame, hmarks⟩ := ih hms₀ hrest
      refine ⟨(t', marked) :: ms', by simp [hfst], fun depth => ?_, ?_⟩
      · simp only [unmatched, hsame]
      · rw [List.filter_cons, List.filter_cons, hmarks]
    | false =>
      rw [List.filter_cons_of_neg (by simp [hp] : ¬ p t = true)] at hms
      obtain ⟨ho, hc⟩ := hplain t (List.mem_cons_self ..) hp
      obtain ⟨ms', hfst, hsame, hmarks⟩ := ih hms hrest
      refine ⟨(t, false) :: ms', by simp [hfst], fun depth => ?_, by simp [hmarks]⟩
      rw [unmatched_cons_plain ho hc, hsame]

end Brackets

namespace Finding

/-- A list of findings in which every misplaced bracket comes right after the report of the same
bracket as unmatched. -/
inductive Paired : List Finding → Prop where
  | nil : Paired []
  | cons {f : Finding} {fs : List Finding} (hf : f.code ≠ .misplacedCloseBracket)
      (h : Paired fs) : Paired (f :: fs)
  | pair (t : Token) {fs : List Finding} (h : Paired fs) :
      Paired (unmatchedClose t :: misplacedClose t :: fs)

theorem Paired.append {xs ys : List Finding} (hx : Paired xs) (hy : Paired ys) :
    Paired (xs ++ ys) := by
  induction hx with
  | nil => exact hy
  | cons hf _ ih => exact .cons hf ih
  | pair t _ ih => exact .pair t ih

theorem Paired.of_forall {fs : List Finding} (h : ∀ f ∈ fs, f.code ≠ .misplacedCloseBracket) :
    Paired fs := by
  induction fs with
  | nil => exact .nil
  | cons f fs ih =>
    exact .cons (h f (List.mem_cons_self ..)) (ih fun g hg => h g (List.mem_cons_of_mem f hg))

theorem Paired.preceded {fs : List Finding} (h : Paired fs) {pre post : List Diagnostic}
    {d : Diagnostic} (he : fs.map toDiagnostic = pre ++ d :: post)
    (hd : d.code = .misplacedCloseBracket) :
    ∃ pre' u, pre = pre' ++ [u] ∧ u.code = .unmatchedCloseBracket ∧ u.start = d.start ∧
      u.length = d.length := by
  induction h generalizing pre with
  | nil => simp at he
  | @cons f fs hf _ ih =>
    cases pre with
    | nil =>
      obtain ⟨rfl, -⟩ := List.cons.inj he
      exact absurd (by simpa using hd) hf
    | cons p pre =>
      obtain ⟨pre', u, rfl, hu⟩ := ih (List.cons.inj he).2
      exact ⟨p :: pre', u, rfl, hu⟩
  | pair t _ ih =>
    rcases pre with _ | ⟨p, _ | ⟨q, pre⟩⟩
    · obtain ⟨rfl, -⟩ := List.cons.inj he
      simp [code] at hd
    · -- the misplaced report is the second, right after the unmatched one
      obtain ⟨rfl, rfl, -⟩ : (unmatchedClose t).toDiagnostic = p ∧
          (misplacedClose t).toDiagnostic = d ∧ _ := by simpa using he
      exact ⟨[], _, rfl, rfl, rfl, rfl⟩
    · obtain ⟨pre', u, rfl, hu⟩ := ih (List.cons.inj (List.cons.inj he).2).2
      exact ⟨p :: q :: pre', u, rfl, hu⟩

theorem filter_code_toDiagnostic (fs : List Finding) (c : ErrorCode) :
    (fs.map toDiagnostic).filter (·.code == c) = (fs.filter (·.code == c)).map toDiagnostic := by
  simp [List.filter_map, Function.comp_def]

end Finding

namespace Checker

/-- The bracket findings of `fs` are those that a greedy count from `depth` reports over the
tokens `ms` with their marks: only closing brackets are marked, the unmatched brackets are those
of the count, the misplaced ones are the marked ones, and each misplaced one follows its report
as unmatched. -/
structure Tally (depth : Nat) (ms : List (Token × Bool)) (fs : List Finding) : Prop where
  marked : ∀ p ∈ ms, p.2 = true → p.1.kind = .closeBracket
  unmatched : fs.filter (·.code == .unmatchedCloseBracket) =
    (Brackets.unmatched depth ms).map .unmatchedClose
  misplaced : fs.filter (·.code == .misplacedCloseBracket) =
    (ms.filter (·.2)).map (.misplacedClose ·.1)
  paired : Finding.Paired fs

/-- A stretch of a run over the tokens `ms`, from a state at `depth` to one at `depth'`: its
findings `fs` tally with the count, and the depth moves as the count does. -/
structure Counted (depth : Nat) (ms : List (Token × Bool)) (depth' : Nat) (fs : List Finding) :
    Prop where
  tally : Tally depth ms fs
  depth_eq : depth' = Brackets.stillOpen depth ms

section

variable {d d₁ d₂ : Nat} {ms ms₁ ms₂ : List (Token × Bool)} {fs fs₁ fs₂ : List Finding}
  {t : Token}

theorem Tally.nil : Tally d [] [] :=
  ⟨by simp, rfl, rfl, .nil⟩

theorem Counted.tally_append (h₁ : Counted d ms₁ d₁ fs₁) (h₂ : Tally d₁ ms₂ fs₂) :
    Tally d (ms₁ ++ ms₂) (fs₁ ++ fs₂) where
  marked p hp := by
    rcases List.mem_append.1 hp with hp | hp
    · exact h₁.tally.marked p hp
    · exact h₂.marked p hp
  unmatched := by
    rw [List.filter_append, h₁.tally.unmatched, h₂.unmatched, Brackets.unmatched_append,
      ← h₁.depth_eq, List.map_append]
  misplaced := by
    rw [List.filter_append, h₁.tally.misplaced, h₂.misplaced, List.filter_append, List.map_append]
  paired := h₁.tally.paired.append h₂.paired

theorem Counted.append (h₁ : Counted d ms₁ d₁ fs₁) (h₂ : Counted d₁ ms₂ d₂ fs₂) :
    Counted d (ms₁ ++ ms₂) d₂ (fs₁ ++ fs₂) where
  tally := h₁.tally_append h₂.tally
  depth_eq := by rw [h₂.depth_eq, h₁.depth_eq, Brackets.stillOpen_append]

theorem Counted.silent
    (hfs : ∀ f ∈ fs, f.code ≠ .unmatchedCloseBracket ∧ f.code ≠ .misplacedCloseBracket) :
    Counted d [] d fs where
  tally := {
    marked := by simp
    unmatched := List.filter_eq_nil_iff.2 fun f hf => by simpa using (hfs f hf).1
    misplaced := List.filter_eq_nil_iff.2 fun f hf => by simpa using (hfs f hf).2
    paired := .of_forall fun f hf => (hfs f hf).2 }
  depth_eq := rfl

theorem Counted.plain (ho : t.kind ≠ .openBracket) (hc : t.kind ≠ .closeBracket)
    (hfs : ∀ f ∈ fs, f.code ≠ .unmatchedCloseBracket ∧ f.code ≠ .misplacedCloseBracket) :
    Counted d [(t, false)] d fs where
  tally := {
    marked := by simp
    unmatched := by
      rw [Brackets.unmatched_cons_plain ho hc]
      exact (Counted.silent (d := d) hfs).tally.unmatched
    misplaced := (Counted.silent (d := d) hfs).tally.misplaced
    paired := (Counted.silent (d := d) hfs).tally.paired }
  depth_eq := by simp [Brackets.stillOpen]

theorem Counted.opening (ht : t.kind = .openBracket) : Counted d [(t, false)] (d + 1) [] where
  tally := ⟨by simp, by simp [Brackets.unmatched, ht], rfl, .nil⟩
  depth_eq := by simp [Brackets.stillOpen, ht]

theorem Counted.closing (ht : t.kind = .closeBracket) : Counted (d + 1) [(t, false)] d [] where
  tally := ⟨by simp, by simp [Brackets.unmatched, ht], rfl, .nil⟩
  depth_eq := by simp [Brackets.stillOpen, ht]

theorem Counted.unmatchedClose (ht : t.kind = .closeBracket) :
    Counted 0 [(t, false)] 0 [.unmatchedClose t] where
  tally := ⟨by simp, by simp [Brackets.unmatched, ht, Finding.code],
    by simp [Finding.code], .cons (by simp [Finding.code]) .nil⟩
  depth_eq := by simp [Brackets.stillOpen, ht]

theorem Counted.misplaced (ht : t.kind = .closeBracket) :
    Counted d [(t, true)] d [.unmatchedClose t, .misplacedClose t] where
  tally := ⟨by simp [ht], by simp [Brackets.unmatched, ht, Finding.code],
    by simp [Finding.code], .pair t .nil⟩
  depth_eq := by simp [Brackets.stillOpen, ht]

theorem Tally.cons_silent {f : Finding}
    (hf : f.code ≠ .unmatchedCloseBracket ∧ f.code ≠ .misplacedCloseBracket) (h : Tally d ms fs) :
    Tally d ms (f :: fs) := by
  have hsilent : Counted d [] d [f] := Counted.silent (by simpa using hf)
  exact hsilent.tally_append h

theorem Tally.cons_plain (ho : t.kind ≠ .openBracket) (hc : t.kind ≠ .closeBracket)
    (h : Tally d ms fs) : Tally d ((t, false) :: ms) fs := by
  have hplain : Counted d [(t, false)] d [] := Counted.plain ho hc (by simp)
  exact hplain.tally_append h

end

theorem names_quiet {fs : List Finding} (h : ∀ f ∈ fs, f.isName = true) :
    ∀ f ∈ fs, f.code ≠ .unmatchedCloseBracket ∧ f.code ≠ .misplacedCloseBracket := by
  intro f hf
  have := h f hf
  cases f <;> simp_all [Finding.isName, Finding.code]

theorem unknownNames_isName (ps : List Param) (ops : List Token) :
    ∀ f ∈ Param.unknownNames ps ops, f.isName = true := by
  intro f hf
  obtain ⟨t, -, rfl⟩ := List.mem_map.1 hf
  rfl

theorem unused_isName (s : State) : ∀ f ∈ s.unused, f.isName = true := by
  intro f hf
  obtain ⟨p, -, rfl⟩ := List.mem_map.1 hf
  rfl

theorem closeBracket_counted (s : State) {t : Token} (ht : t.kind = .closeBracket) :
    Counted s.depth [(t, false)] (s.closeBracket t).1.depth (s.closeBracket t).2 := by
  obtain ⟨ph, d, b, ps⟩ := s
  cases d with
  | zero => exact Counted.unmatchedClose ht
  | succ d => exact Counted.closing ht

theorem skipBracket_counted (s : State) (t : Token) :
    Counted s.depth [(t, false)] (s.skipBracket t).1.depth (s.skipBracket t).2 := by
  unfold State.skipBracket
  split
  next ht => exact Counted.opening ht
  next ht => exact closeBracket_counted s ht
  next ho hc => exact Counted.plain ho hc (by simp)

@[simp] theorem skipBracket_phase (s : State) (t : Token) : (s.skipBracket t).1.phase = s.phase := by
  unfold State.skipBracket State.closeBracket
  split
  · rfl
  · split <;> rfl
  · rfl

theorem skipAll_counted (s : State) (xs : List Token) :
    Counted s.depth (xs.map (·, false)) (s.skipAll xs).1.depth (s.skipAll xs).2 := by
  induction xs generalizing s with
  | nil =>
    show Counted s.depth [] s.depth []
    exact Counted.silent (by simp)
  | cons t xs ih => exact (skipBracket_counted s t).append (ih (s.skipBracket t).1)

@[simp] theorem skipAll_phase (s : State) (xs : List Token) : (s.skipAll xs).1.phase = s.phase := by
  induction xs generalizing s with
  | nil => rfl
  | cons t xs ih => simp [State.skipAll, ih]

@[simp] theorem skipBracket_params (s : State) (t : Token) : (s.skipBracket t).1.params = s.params := by
  unfold State.skipBracket State.closeBracket
  split
  · rfl
  · split <;> rfl
  · rfl

@[simp] theorem skipAll_params (s : State) (xs : List Token) : (s.skipAll xs).1.params = s.params := by
  induction xs generalizing s with
  | nil => rfl
  | cons t xs ih => simp [State.skipAll, ih]

theorem optional_counted {s s' : State} {t : Token} {fs : List Finding}
    (h : s.optional t = some (s', fs)) : ∃ marked, Counted s.depth [(t, marked)] s'.depth fs := by
  obtain ⟨ph, d, b, ps⟩ := s
  unfold State.optional at h
  split at h
  next hp ht =>
    subst hp
    cases h
    exact ⟨false, Counted.plain (by simp [ht]) (by simp [ht]) (by simp)⟩
  next hp ht =>
    subst hp
    have hc := closeBracket_counted ⟨.item, d, b, ps⟩ ht
    rw [Option.some.inj h] at hc
    exact ⟨false, hc⟩
  next f hp ht => subst hp; cases h; exact ⟨true, Counted.misplaced ht⟩
  next f hp ht => subst hp; cases h; exact ⟨false, Counted.opening ht⟩
  next f hp ht => subst hp; cases h; exact ⟨false, Counted.opening ht⟩
  next f hp ht =>
    subst hp
    split at h
    next hd =>
      cases h
      have hd : b + 1 < d := hd
      obtain ⟨d, rfl⟩ : ∃ d', d = d' + 1 := ⟨d - 1, by omega⟩
      exact ⟨false, Counted.closing ht⟩
    next => cases h
  next n hp ht =>
    subst hp
    cases h
    exact ⟨false, Counted.plain (by simp [ht]) (by simp [ht]) (by simp)⟩
  next n hp ht =>
    subst hp
    cases h
    exact ⟨false, Counted.plain (by simp [ht]) (by simp [ht]) (by simp)⟩
  next => cases h

theorem ne_of_accepts {e : Expected} {k k' : TokenKind} (ha : e.accepts k = true)
    (hk' : e.accepts k' = false) : k ≠ k' := by
  rintro rfl
  simp [ha] at hk'

theorem accept_counted (s : State) (t : Token) (ha : s.phase.expected.accepts t.kind = true) :
    Counted s.depth [(t, false)] (s.accept t).1.depth (s.accept t).2 := by
  obtain ⟨ph, d, b, ps⟩ := s
  have ho : _ → t.kind ≠ .openBracket := ne_of_accepts ha
  have hc : _ → t.kind ≠ .closeBracket := ne_of_accepts ha
  unfold State.accept
  split
  next hp =>
    subst hp
    exact Counted.opening (by simpa [Phase.expected, Expected.accepts, Expected.kinds] using ha)
  next hp => subst hp; exact Counted.plain (ho rfl) (hc rfl) (by simp)
  next hp _ => subst hp; exact Counted.plain (ho rfl) (hc rfl) (by simp)
  next hp _ => subst hp; exact Counted.plain (ho rfl) (hc rfl) (by simp)
  next hp => subst hp; exact Counted.plain (ho rfl) (hc rfl) (by simp)
  next f hp ht =>
    subst hp
    rw [State.refer_eq _ ht]
    exact Counted.plain (ho rfl) (hc rfl) (names_quiet (unknownNames_isName _ _))
  next f hp _ => subst hp; exact Counted.plain (ho rfl) (hc rfl) (by simp)
  next f hp ht =>
    subst hp
    rw [State.refer_eq _ ht]
    exact Counted.plain (ho rfl) (hc rfl) (names_quiet (unknownNames_isName _ _))
  next f hp _ => subst hp; exact Counted.plain (ho rfl) (hc rfl) (by simp)
  next f hp ht => subst hp; exact closeBracket_counted ⟨.closing f, d, b, ps⟩ ht
  next f hp hne => subst hp; cases f <;> exact Counted.plain (ho rfl) hne (by simp)
  next hp => subst hp; exact Counted.plain (ho rfl) (hc rfl) (names_quiet (unused_isName _))
  next n hp => subst hp; exact Counted.plain (ho rfl) (hc rfl) (by simp)
  next n hp => subst hp; exact Counted.plain (ho rfl) (hc rfl) (by simp)

/-- Every run tallies with a greedy count over its tokens, from the depth it starts at. -/
theorem run_tally (anchor : Option Token) (s : State) (ts : List Token) :
    ∃ ms : List (Token × Bool), ms.map Prod.fst = ts ∧ Tally s.depth ms (run anchor s ts) := by
  induction s, ts using run.induct with
  | case1 s hp => exact ⟨[], rfl, by rw [run_nil_item anchor hp]; exact Tally.nil⟩
  | case2 s hp =>
    refine ⟨[], rfl, ?_⟩
    rw [run_nil_of_ne anchor hp]
    exact Tally.nil.cons_silent (by simp [Finding.code])
  | case3 s t ts ht ih =>
    obtain ⟨ms, hfst, htally⟩ := ih
    refine ⟨(t, false) :: ms, by simp [hfst], ?_⟩
    rw [run_newLine anchor s ts ht]
    exact htally.cons_plain (by simp [ht]) (by simp [ht])
  | case4 s t ts _ s' fs ho ih =>
    obtain ⟨ms, hfst, htally⟩ := ih
    obtain ⟨marked, hstep⟩ := optional_counted ho
    refine ⟨(t, marked) :: ms, by simp [hfst], ?_⟩
    rw [run_move anchor ts (Move.of_optional ho)]
    exact hstep.tally_append htally
  | case5 s t ts _ hn ha s' fs hacc ih =>
    obtain ⟨ms, hfst, htally⟩ := ih
    have hstep := accept_counted s t ha
    have hmove := Move.of_accept hn ha
    rw [hacc] at hstep hmove
    refine ⟨(t, false) :: ms, by simp [hfst], ?_⟩
    rw [run_move anchor ts hmove]
    exact hstep.tally_append htally
  | case6 s t ts ht hn ha hd =>
    refine ⟨(t :: ts).map (·, false), by simp [Function.comp_def], ?_⟩
    rw [run_unrecoverable anchor ht hn (by simpa using ha) hd]
    exact (skipAll_counted s (t :: ts)).tally.cons_silent (by simp [Finding.code])
  | case7 s t ts ht hn ha target more hd skipped s₁ f₁ hskip s₂ f₂ hacc ih =>
    obtain ⟨ms, hfst, htally⟩ := ih
    -- the token found fits where the skipped ones did not, and skipping keeps the position
    have htarget : s₁.phase.expected.accepts target.kind = true := by
      have hphase := skipAll_phase s (t :: skipped)
      rw [hskip] at hphase
      have hfit := List.head_dropWhile_not (misfit s.phase.expected) (l := ts) (by simp [hd])
      simp only [hd, List.head_cons, misfit, Bool.not_eq_false'] at hfit
      rw [hphase]
      exact hfit
    have hskipped := skipAll_counted s (t :: skipped)
    have hfound := accept_counted s₁ target htarget
    rw [hskip] at hskipped
    rw [hacc] at hfound
    refine ⟨(t :: ts.takeWhile (misfit s.phase.expected)).map (·, false) ++ [(target, false)] ++ ms,
      ?_, ?_⟩
    · have hsplit := List.takeWhile_append_dropWhile (p := misfit s.phase.expected) (l := ts)
      rw [hd] at hsplit
      simp [hfst, hsplit, Function.comp_def]
    · rw [run_skip anchor ht hn (by simpa using ha) hd hskip hacc]
      exact ((hskipped.append hfound).tally_append htally).cons_silent (by simp [Finding.code])

theorem Tally.of_spread {d : Nat} {ms ms' : List (Token × Bool)} {fs : List Finding}
    (h : Tally d ms fs) (hsame : ∀ depth, Brackets.unmatched depth ms' = Brackets.unmatched depth ms)
    (hmarks : ms'.filter (·.2) = ms.filter (·.2)) : Tally d ms' fs where
  marked p hp hm := by
    have hp' : p ∈ ms.filter (·.2) := hmarks ▸ List.mem_filter.2 ⟨hp, hm⟩
    exact h.marked p (List.mem_filter.1 hp').1 hm
  unmatched := by rw [hsame]; exact h.unmatched
  misplaced := by rw [hmarks]; exact h.misplaced
  paired := h.paired

/-- The findings of a token list tally with a greedy count over all its tokens from zero:
whitespace, which the checker never sees, is no bracket. -/
theorem findings_tally (ts : List Token) :
    ∃ ms : List (Token × Bool), ms.map Prod.fst = ts ∧ Tally 0 ms (findings ts) := by
  let tsw := ts.filter (·.kind != .whitespace)
  obtain ⟨ms, hfst, htally⟩ := run_tally tsw.getLast? State.initial tsw
  have hplain : ∀ t ∈ ts, (t.kind != .whitespace) = false →
      t.kind ≠ .openBracket ∧ t.kind ≠ .closeBracket := by
    intro t _ ht
    simp only [bne_eq_false_iff_eq] at ht
    simp [ht]
  obtain ⟨ms', hfst', hsame, hmarks⟩ := Brackets.exists_spread _ hfst hplain
  exact ⟨ms', hfst', htally.of_spread hsame hmarks⟩

theorem run_closes (anchor : Option Token) {cs : List Token}
    (h : ∀ c ∈ cs, c.kind = .closeBracket) :
    run anchor State.initial cs = cs.map .unmatchedClose := by
  induction cs with
  | nil => exact run_nil_item anchor rfl
  | cons c cs ih =>
    have hmove : Move State.initial c State.initial [.unmatchedClose c] :=
      .strayUnmatched (h c (List.mem_cons_self ..))
    rw [run_move anchor cs hmove, ih fun c' hc' => h c' (List.mem_cons_of_mem c hc')]
    rfl

end Checker

namespace Grammar

theorem nameFindings_isName (as : List Abstraction) : ∀ f ∈ nameFindings as, f.isName = true := by
  intro f hf
  simp only [nameFindings, Abstraction.nameFindings, List.mem_flatMap, List.mem_append,
    List.mem_map] at hf
  obtain ⟨a, -, ⟨t, -, rfl⟩ | ⟨p, -, rfl⟩⟩ := hf <;> rfl

end Grammar

open Grammar Checker

/-- The closing brackets reported, whatever the checker recovers from. Some closing brackets are
marked (those found where an operand should start): the misplaced brackets reported are the
marked ones, in order, each right after a report of an unmatched bracket at the same place, and
the unmatched brackets reported are those of the greedy count with these marks, in order. A
well-formed program followed by closing brackets gets one unmatched report for each. -/
theorem parse_brackets_follow_count :
    (∀ ts : List Token, ∃ ms : List (Token × Bool), ms.map Prod.fst = ts ∧
      (∀ p ∈ ms, p.2 = true → p.1.kind = .closeBracket) ∧
      (parse ts).filter (·.code == .misplacedCloseBracket) =
        (ms.filter (·.2)).map (fun p => Diagnostic.ofLength .misplacedCloseBracket
          "closing bracket misplaced" p.1.start p.1.length) ∧
      (∀ pre d post, parse ts = pre ++ d :: post → d.code = .misplacedCloseBracket →
        ∃ pre' u, pre = pre' ++ [u] ∧ u.code = .unmatchedCloseBracket ∧ u.start = d.start ∧
          u.length = d.length) ∧
      (parse ts).filter (·.code == .unmatchedCloseBracket) =
        (Brackets.unmatched 0 ms).map fun t => Diagnostic.ofLength .unmatchedCloseBracket
          "closing bracket without matching opening bracket" t.start t.length) ∧
    ∀ (p cs : List Token) (as : List Abstraction),
      Program (p.filter fun t => t.kind != .whitespace && t.kind != .newLine) as →
      (∀ c ∈ cs, c.kind = .closeBracket) →
      (parse (p ++ cs)).filter (·.code == .unmatchedCloseBracket) =
        cs.map fun c => Diagnostic.ofLength .unmatchedCloseBracket
          "closing bracket without matching opening bracket" c.start c.length := by
  constructor
  · intro ts
    obtain ⟨ms, hfst, htally⟩ := findings_tally ts
    refine ⟨ms, hfst, htally.marked, ?_, fun pre d post he hd => htally.paired.preceded he hd, ?_⟩
    · rw [parse, Finding.filter_code_toDiagnostic, htally.misplaced, List.map_map]
      rfl
    · rw [parse, Finding.filter_code_toDiagnostic, htally.unmatched, List.map_map]
      rfl
  · intro p cs as hprog hcs
    have hcs' : cs.filter (·.kind != .whitespace) = cs :=
      List.filter_eq_self.2 fun c hc => by simp [hcs c hc]
    have hfind : findings (p ++ cs) = nameFindings as ++ cs.map .unmatchedClose := by
      rw [findings_eq, List.filter_append, hcs', (reads_of_program hprog).run_append, run_closes _ hcs]
    have hnames : (nameFindings as).filter (·.code == .unmatchedCloseBracket) = [] :=
      List.filter_eq_nil_iff.2 fun f hf => by
        simpa using (names_quiet (nameFindings_isName as) f hf).1
    have hcloses : (cs.map Finding.unmatchedClose).filter (·.code == .unmatchedCloseBracket) =
        cs.map Finding.unmatchedClose :=
      List.filter_eq_self.2 fun f hf => by
        obtain ⟨c, -, rfl⟩ := List.mem_map.1 hf
        rfl
    rw [parse, Finding.filter_code_toDiagnostic, hfind, List.filter_append, hnames, hcloses,
      List.nil_append, List.map_map]
    rfl

theorem unknownNameProgram_closed_twice :
    (parse (unknownNameProgram ++ [⟨.closeBracket, ")", 16⟩, ⟨.closeBracket, ")", 17⟩])).filter
        (·.code == .unmatchedCloseBracket) =
      [Diagnostic.ofLength .unmatchedCloseBracket
          "closing bracket without matching opening bracket" 16 1,
        Diagnostic.ofLength .unmatchedCloseBracket
          "closing bracket without matching opening bracket" 17 1] :=
  parse_brackets_follow_count.2 _ _ _ unknownNameProgram_program (by simp)

end LambdaCheck
