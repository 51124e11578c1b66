import LambdaCheck.Proofs.Ranges

/-!
The order of the diagnostics. Between two recoveries the checker only moves, and its moves, like
the bracket count of a skipped run and the token taken after it, report no token that does not
fit and no early end: they are quiet (`Checker.Quiet`). A quiet stretch reports each code only at
its own tokens, in order and at most once each, or at parameters in scope, which it either keeps
in scope or reports once as unused. So over a whole run:

* an early end is the run's last finding (`Checker.run_earlyEnd_last`);
* the reports of a token that does not fit and of an early end lie in the order of the input,
  each range ending before the next one starts, since a recovery reports its range up to the
  token it found and goes on after it (`Checker.run_separated`);
* the tokens at which a code is reported are tokens of the input, in order
  (`Checker.run_sites`), so on the tokens of a text, which start at increasing offsets, no two
  diagnostics share both a code and a start (`check_reports_in_order`).
-/

namespace LambdaCheck

namespace Finding

/-- A report of a token that does not fit or of an early end: where the input leaves the
grammar. -/
def unexpected (f : Finding) : Bool :=
  f.code == .unexpectedToken || f.code == .unexpectedEof

/-- The token of the input a finding is reported at. An early end is reported at no token of
what is left to read. -/
def site : Finding → Option Token
  | skipped _ found _ | unrecoverable _ found => some found
  | earlyEnd .. => none
  | unknownName t | unusedParameter t | unmatchedClose t | misplacedClose t => some t

/-- The tokens at which the findings `fs` report the code `c`, in order. -/
def sites (c : ErrorCode) (fs : List Finding) : List Token :=
  (fs.filter (·.code == c)).filterMap site

@[simp] theorem sites_nil (c : ErrorCode) : sites c [] = [] := rfl

@[simp] theorem sites_append (c : ErrorCode) (fs gs : List Finding) :
    sites c (fs ++ gs) = sites c fs ++ sites c gs := by
  simp [sites, List.filter_append]

theorem sites_cons_of_ne {c : ErrorCode} {f : Finding} (hf : f.code ≠ c) (fs : List Finding) :
    sites c (f :: fs) = sites c fs := by
  simp [sites, hf]

theorem start_of_site {f : Finding} {t : Token} (h : f.site = some t) :
    f.toDiagnostic.start = t.start := by
  cases f <;> simp only [site, Option.some.injEq, reduceCtorEq] at h <;> subst h <;> rfl

theorem exists_site {f : Finding} (h : f.code ≠ .unexpectedEof) : ∃ t, f.site = some t := by
  cases f <;> simp_all [site, code]

theorem code_ne_of_unexpected {f : Finding} (h : f.unexpected = false) :
    f.code ≠ .unexpectedToken ∧ f.code ≠ .unexpectedEof := by
  simpa [unexpected] using h

theorem sites_sublist_singleton {fs : List Finding} {t : Token}
    (hat : ∀ f ∈ fs, f.site = some t) (hcodes : fs.Pairwise (·.code ≠ ·.code)) (c : ErrorCode) :
    (sites c fs).Sublist [t] := by
  induction fs with
  | nil => simp
  | cons f fs ih =>
    have hrest := ih (fun g hg => hat g (.tail f hg)) hcodes.of_cons
    by_cases hf : f.code = c
    · -- no later finding has the code of the first
      have hnone : sites c fs = [] := by
        simp only [sites, List.filterMap_eq_nil_iff, List.mem_filter, beq_iff_eq]
        intro g ⟨hg, hgc⟩
        exact absurd (hf.trans hgc.symm) ((List.pairwise_cons.1 hcodes).1 g hg)
      simp only [sites, List.filter_cons, hf, beq_self_eq_true, ↓reduceIte, List.filterMap_cons,
        hat f (.head fs)]
      show (t :: sites c fs).Sublist [t]
      exact hnone ▸ List.Sublist.refl [t]
    · rwa [sites_cons_of_ne hf]

end Finding

namespace State

/-- The tokens that a state may still report with code `c` before any token to come: the
parameters in scope, which are reported as unused when their expression ends. -/
def pending (c : ErrorCode) (s : State) : List Token :=
  if c = .unusedParameter then s.params.map (·.name) else []

theorem pending_of_ne {c : ErrorCode} (hc : c ≠ .unusedParameter) (s : State) : s.pending c = [] :=
  if_neg hc

@[simp] theorem pending_initial (c : ErrorCode) : initial.pending c = [] := by
  unfold pending
  split <;> rfl

end State

namespace Checker

open Finding

/-- A stretch of the checker's work from `s` over the tokens `xs` to `s'`, finding `fs`, that
reports no token that does not fit and no early end, and reports each code only at tokens of the
stretch, in order, or at parameters in scope, keeping the rest of them in scope. -/
structure Quiet (s : State) (xs : List Token) (s' : State) (fs : List Finding) : Prop where
  unexpected_eq_false : ∀ f ∈ fs, f.unexpected = false
  sites_sublist : ∀ c, (Finding.sites c fs ++ s'.pending c).Sublist (s.pending c ++ xs)

theorem sites_chain {l p p' xs ys R : List Token} (h : (l ++ p').Sublist (p ++ xs))
    (hR : R.Sublist (p' ++ ys)) : (l ++ R).Sublist (p ++ (xs ++ ys)) :=
  calc (l ++ R).Sublist (l ++ (p' ++ ys)) := hR.append_left l
    _ = (l ++ p') ++ ys := (List.append_assoc ..).symm
    List.Sublist _ ((p ++ xs) ++ ys) := h.append_right ys
    _ = p ++ (xs ++ ys) := List.append_assoc ..

section

variable {s s₁ s₂ s' : State} {xs ys : List Token} {t : Token} {fs f₁ f₂ : List Finding}

theorem Quiet.append (h₁ : Quiet s xs s₁ f₁) (h₂ : Quiet s₁ ys s₂ f₂) :
    Quiet s (xs ++ ys) s₂ (f₁ ++ f₂) where
  unexpected_eq_false f hf := by
    rcases List.mem_append.1 hf with hf | hf
    · exact h₁.unexpected_eq_false f hf
    · exact h₂.unexpected_eq_false f hf
  sites_sublist c := by
    rw [sites_append, List.append_assoc]
    exact sites_chain (h₁.sites_sublist c) (h₂.sites_sublist c)

theorem Quiet.of_params (h : Quiet s xs s₁ fs) (hp : s₂.params = s₁.params) : Quiet s xs s₂ fs where
  unexpected_eq_false := h.unexpected_eq_false
  sites_sublist c := by
    have hpend : s₂.pending c = s₁.pending c := by simp [State.pending, hp]
    exact hpend ▸ h.sites_sublist c

theorem Quiet.at_token (hnames : s'.params.map (·.name) = s.params.map (·.name))
    (hat : ∀ f ∈ fs, f.site = some t) (hcodes : fs.Pairwise (·.code ≠ ·.code))
    (hkinds : ∀ f ∈ fs, f.code = .unknownName ∨ f.code = .unmatchedCloseBracket ∨
      f.code = .misplacedCloseBracket) :
    Quiet s [t] s' fs where
  unexpected_eq_false f hf := by
    rcases hkinds f hf with h | h | h <;> simp [unexpected, h]
  sites_sublist c := by
    by_cases hc : c = .unusedParameter
    · subst hc
      have hnone : Finding.sites .unusedParameter fs = [] := by
        simp only [sites, List.filterMap_eq_nil_iff, List.mem_filter, beq_iff_eq]
        intro f ⟨hf, hfc⟩
        rcases hkinds f hf with h | h | h <;> rw [h] at hfc <;> cases hfc
      simp only [hnone, State.pending, if_true, hnames, List.nil_append]
      exact List.sublist_append_left _ _
    · simpa [State.pending_of_ne hc] using sites_sublist_singleton hat hcodes c

theorem Quiet.keep (hp : s'.params = s.params) : Quiet s [t] s' [] :=
  .at_token (by rw [hp]) (by simp) .nil (by simp)

theorem Quiet.forget (hp : s'.params = []) : Quiet s [t] s' [] where
  unexpected_eq_false := by simp
  sites_sublist c := by simp [State.pending, hp]

theorem Quiet.declare (u : Bool) (hp : s'.params = s.params ++ [⟨t, u⟩]) : Quiet s [t] s' [] where
  unexpected_eq_false := by simp
  sites_sublist c := by
    by_cases hc : c = .unusedParameter
    · simp [State.pending, hc, hp]
    · simp [State.pending_of_ne hc]

theorem Quiet.finish (hp : s'.params = []) : Quiet s [t] s' s.unused where
  unexpected_eq_false f hf := by
    obtain ⟨p, -, rfl⟩ := List.mem_map.1 hf
    rfl
  sites_sublist c := by
    by_cases hc : c = .unusedParameter
    · subst hc
      have hsites : Finding.sites .unusedParameter s.unused =
          (s.params.filter (!·.used)).map (·.name) := by
        have hall : (s.params.filter (!·.used)).filter
            ((fun f : Finding => f.code == .unusedParameter) ∘ fun p => unusedParameter p.name) =
              s.params.filter (!·.used) :=
          List.filter_eq_self.2 fun p _ => rfl
        unfold Finding.sites State.unused
        rw [List.filter_map, hall, List.filterMap_map]
        exact congrFun List.filterMap_eq_map _
      rw [hsites, State.pending, State.pending, if_pos rfl, if_pos rfl, hp, List.map_nil,
        List.append_nil]
      exact ((List.filter_sublist).map _).trans (List.sublist_append_left _ _)
    · have hnone : Finding.sites c s.unused = [] := by
        simp only [sites, State.unused, List.filter_map, List.filterMap_eq_nil_iff, List.mem_map,
          List.mem_filter]
        rintro _ ⟨p, ⟨-, hpc⟩, rfl⟩
        exact absurd (by simpa [code] using hpc) (Ne.symm hc)
      simp [hnone, State.pending_of_ne hc]

end

open State

theorem closeBracket_quiet (s : State) (t : Token) :
    Quiet s [t] (s.closeBracket t).1 (s.closeBracket t).2 := by
  unfold State.closeBracket
  split
  · exact .at_token rfl (by simp [site]) (.cons (by simp) .nil) (by simp [code])
  · exact .keep rfl

theorem skipAll_quiet (s : State) (xs : List Token) :
    Quiet s xs (s.skipAll xs).1 (s.skipAll xs).2 := by
  induction xs generalizing s with
  | nil => exact ⟨by simp [skipAll], fun c => by simp [skipAll]⟩
  | cons t ts ih =>
    have hone : Quiet s [t] (s.skipBracket t).1 (s.skipBracket t).2 := by
      unfold State.skipBracket
      split
      · exact .keep rfl
      · exact closeBracket_quiet s t
      · exact .keep rfl
    exact hone.append (ih (s.skipBracket t).1)

theorem optional_quiet {s s' : State} {t : Token} {fs : List Finding}
    (h : s.optional t = some (s', fs)) : Quiet s [t] s' fs := by
  obtain ⟨ph, d, b, ps⟩ := s
  unfold State.optional at h
  split at h
  next => cases h; exact .keep rfl
  next =>
    have hclose := closeBracket_quiet ⟨ph, d, b, ps⟩ t
    rwa [Option.some.inj h] at hclose
  next =>
    cases h
    exact .at_token rfl (by simp [site]) (.cons (by simp [code]) (.cons (by simp) .nil))
      (by simp [code])
  next => cases h; exact .keep rfl
  next => cases h; exact .keep rfl
  next =>
    split at h
    · cases h; exact .keep rfl
    · cases h
  next => cases h; exact .keep rfl
  next => cases h; exact .keep rfl
  next => cases h

theorem refer_quiet (s : State) {t : Token} (ht : t.kind = .identifier) :
    Quiet s [t] (s.refer t).1 (s.refer t).2 := by
  rw [refer_eq s ht]
  apply Quiet.at_token (Param.markNamed_names _ _)
  · intro f hf
    obtain ⟨u, hu, rfl⟩ := List.mem_map.1 hf
    obtain rfl := List.mem_singleton.1 (List.mem_filter.1 hu).1
    rfl
  · exact ((List.pairwise_singleton _ t).sublist List.filter_sublist).map _ fun _ _ h => h
  · intro f hf
    obtain ⟨u, -, rfl⟩ := List.mem_map.1 hf
    exact .inl rfl

theorem accept_quiet (s : State) (t : Token) : Quiet s [t] (s.accept t).1 (s.accept t).2 := by
  obtain ⟨ph, d, b, ps⟩ := s
  unfold State.accept
  split
  next => exact .forget rfl
  next => exact .keep rfl
  next => exact .declare false rfl
  next => exact .keep rfl
  next => exact .keep rfl
  next hk => exact (refer_quiet _ hk).of_params rfl
  next => exact .keep rfl
  next hk => exact (refer_quiet _ hk).of_params rfl
  next => exact .keep rfl
  next => exact (closeBracket_quiet _ t).of_params rfl
  next => exact .keep rfl
  next => exact .finish rfl
  next => exact .keep rfl
  next => exact .keep rfl

theorem move_quiet {s s' : State} {t : Token} {fs : List Finding} (h : Move s t s' fs) :
    Quiet s [t] s' fs := by
  have hmove := State.move_eq_some_iff.2 h
  unfold State.move at hmove
  split at hmove
  next r ho => cases hmove; exact optional_quiet ho
  next =>
    split at hmove
    next =>
      have hq := accept_quiet s t
      rwa [Option.some.inj hmove] at hq
    next => cases hmove

theorem skip_quiet {s s₁ s₂ : State} {xs : List Token} {target : Token} {f₁ f₂ : List Finding}
    (hskip : s.skipAll xs = (s₁, f₁)) (hacc : s₁.accept target = (s₂, f₂)) :
    Quiet s xs s₁ f₁ ∧ Quiet s₁ [target] s₂ f₂ := by
  have hq₁ := skipAll_quiet s xs
  have hq₂ := accept_quiet s₁ target
  rw [hskip] at hq₁
  rw [hacc] at hq₂
  exact ⟨hq₁, hq₂⟩

theorem Quiet.sites_recover {s s' : State} {t : Token} {xs : List Token} {fs : List Finding}
    (h : Quiet s (t :: xs) s' fs) {g : Finding} (hg : g.code = .unexpectedToken)
    (hsite : g.site = some t) (c : ErrorCode) :
    (Finding.sites c (g :: fs) ++ s'.pending c).Sublist (s.pending c ++ t :: xs) := by
  by_cases hc : c = .unexpectedToken
  · subst hc
    have hnone : Finding.sites .unexpectedToken fs = [] := by
      simp only [sites, List.filterMap_eq_nil_iff, List.mem_filter, beq_iff_eq]
      intro f ⟨hf, hfc⟩
      exact absurd hfc (code_ne_of_unexpected (h.unexpected_eq_false f hf)).1
    simp only [sites, List.filter_cons, hg, beq_self_eq_true, if_true, List.filterMap_cons, hsite]
    rw [← sites, hnone, pending_of_ne (by decide), pending_of_ne (by decide)]
    exact (List.nil_sublist xs).cons_cons t
  · rw [sites_cons_of_ne (hg ▸ Ne.symm hc)]
    exact h.sites_sublist c

theorem filter_unexpected_append {fs : List Finding} (h : ∀ f ∈ fs, f.unexpected = false)
    (rest : List Finding) : (fs ++ rest).filter unexpected = rest.filter unexpected := by
  rw [List.filter_append, List.filter_eq_nil_iff.2 fun f hf => by simp [h f hf], List.nil_append]

/-- The tokens at which a run reports a code are the tokens it reads, in order, or parameters in
scope when it starts. -/
theorem run_sites (anchor : Option Token) (c : ErrorCode) (s : State) (ts : List Token) :
    (sites c (run anchor s ts)).Sublist (s.pending c ++ ts) := by
  induction s, ts using run.induct with
  | case1 s hp => rw [run_nil_item _ hp]; exact List.nil_sublist _
  | case2 s hp =>
    rw [run_nil_of_ne _ hp, sites, List.filter_cons]
    split <;> exact List.nil_sublist _
  | case3 s t ts ht ih =>
    rw [run_newLine _ _ _ ht]
    exact ih.trans ((List.sublist_cons_self t ts).append_left _)
  | case4 s t ts ht s' fs ho ih =>
    rw [run_move _ ts (Move.of_optional ho), sites_append]
    exact sites_chain ((optional_quiet ho).sites_sublist c) ih
  | case5 s t ts ht hn ha s' fs hacc ih =>
    have hmove := Move.of_accept_eq hn ha hacc
    have hq := move_quiet hmove
    rw [run_move _ ts hmove, sites_append]
    exact sites_chain (hq.sites_sublist c) ih
  | case6 s t ts ht hn ha hd =>
    rw [run_unrecoverable _ ht hn (by simpa using ha) hd]
    exact (List.sublist_append_left _ _).trans ((skipAll_quiet s (t :: ts)).sites_recover rfl rfl c)
  | case7 s t ts ht hn ha target more hd skipped s₁ f₁ hskip s₂ f₂ hacc ih =>
    have hsplit : (t :: ts.takeWhile (misfit s.phase.expected)) ++ ([target] ++ more) = t :: ts := by
      rw [List.cons_append, List.singleton_append, ← hd, List.takeWhile_append_dropWhile]
    obtain ⟨hq₁, hq₂⟩ := skip_quiet hskip hacc
    rw [run_skip _ ht hn (by simpa using ha) hd hskip hacc, List.append_assoc, ← List.cons_append,
      sites_append, sites_append, ← hsplit]
    exact sites_chain (hq₁.sites_recover rfl rfl c) (sites_chain (hq₂.sites_sublist c) ih)

theorem earlyEnd_last_append {fs rest : List Finding} (hfs : ∀ f ∈ fs, f.code ≠ .unexpectedEof)
    (hrest : ∀ f ∈ rest.dropLast, f.code ≠ .unexpectedEof) :
    ∀ f ∈ (fs ++ rest).dropLast, f.code ≠ .unexpectedEof := by
  intro f hf
  rw [List.dropLast_append] at hf
  split at hf
  · exact hfs f (List.dropLast_subset _ hf)
  · rcases List.mem_append.1 hf with hf | hf
    · exact hfs f hf
    · exact hrest f hf

/-- An early end can only be the last finding of a run: the checker stops where it reports one,
and no step before reports one. -/
theorem run_earlyEnd_last (anchor : Option Token) (s : State) (ts : List Token) :
    ∀ f ∈ (run anchor s ts).dropLast, f.code ≠ .unexpectedEof := by
  induction s, ts using run.induct with
  | case1 s hp => simp [run_nil_item _ hp]
  | case2 s hp => simp [run_nil_of_ne _ hp]
  | case3 s t ts ht ih => rwa [run_newLine _ _ _ ht]
  | case4 s t ts ht s' fs ho ih =>
    rw [run_move _ ts (Move.of_optional ho)]
    exact earlyEnd_last_append
      (fun f hf => (code_ne_of_unexpected ((optional_quiet ho).unexpected_eq_false f hf)).2) ih
  | case5 s t ts ht hn ha s' fs hacc ih =>
    have hmove := Move.of_accept_eq hn ha hacc
    have hq := move_quiet hmove
    rw [run_move _ ts hmove]
    exact earlyEnd_last_append
      (fun f hf => (code_ne_of_unexpected (hq.unexpected_eq_false f hf)).2) ih
  | case6 s t ts ht hn ha hd =>
    rw [run_unrecoverable _ ht hn (by simpa using ha) hd]
    intro f hf
    rcases List.mem_cons.1 (List.dropLast_subset _ hf) with rfl | hf
    · simp [code]
    · exact (code_ne_of_unexpected ((skipAll_quiet s (t :: ts)).unexpected_eq_false f hf)).2
  | case7 s t ts ht hn ha target more hd skipped s₁ f₁ hskip s₂ f₂ hacc ih =>
    obtain ⟨hq₁, hq₂⟩ := skip_quiet hskip hacc
    rw [run_skip _ ht hn (by simpa using ha) hd hskip hacc, ← List.cons_append]
    refine earlyEnd_last_append (fun f hf => ?_) ih
    rcases List.mem_cons.1 hf with rfl | hf
    · simp [code]
    · exact (code_ne_of_unexpected ((hq₁.append hq₂).unexpected_eq_false f hf)).2

/-- Findings whose ranges start at `lo` or later and come in order, each ending before the next
one starts. -/
def Separated (lo : Nat) (fs : List Finding) : Prop :=
  fs.Pairwise (fun f g => f.toDiagnostic.stop ≤ g.toDiagnostic.start) ∧
    ∀ f ∈ fs, lo ≤ f.toDiagnostic.start

theorem Separated.nil (lo : Nat) : Separated lo [] := ⟨.nil, by simp⟩

theorem Separated.cons {lo lo' : Nat} {f : Finding} {fs : List Finding}
    (hf : lo ≤ f.toDiagnostic.start) (hstop : f.toDiagnostic.stop ≤ lo') (h : Separated lo' fs) :
    Separated lo (f :: fs) := by
  have hlt := f.toDiagnostic.start_lt_stop
  refine ⟨.cons (fun g hg => Nat.le_trans hstop (h.2 g hg)) h.1, fun g hg => ?_⟩
  rcases List.mem_cons.1 hg with rfl | hg
  · exact hf
  · have hg := h.2 g hg
    omega

theorem skipped_stop_le {e : Expected} {t target : Token} {others : List Token}
    (hlen : 1 ≤ t.length) (ht : t.stop ≤ target.start)
    (hothers : ∀ u ∈ others, u.stop ≤ target.start) :
    (Finding.skipped e t others).toDiagnostic.stop ≤ target.start := by
  have hlast : (others.getLast?.getD t).stop ≤ target.start := by
    cases hl : others.getLast? with
    | none => exact ht
    | some u => exact hothers u (List.mem_of_getLast? hl)
  simp only [toDiagnostic, Diagnostic.ofRange, Diagnostic.stop, Diagnostic.ofLength_start,
    Diagnostic.ofLength_length, Token.stop] at hlast ht ⊢
  omega

/-- Over tokens of `all` that come in order and hold a character each, with `v` starting last,
the unexpected findings of a run lie in order: each recovery reports a range that ends before the
token it found, and the run goes on after that token. `lo` bounds the starts of what is left,
and of the last token, where an early end is reported. -/
theorem run_separated {all : List Token} {v : Token}
    (hord : all.Pairwise fun a b => a.stop ≤ b.start) (hlen : ∀ t ∈ all, 1 ≤ t.length)
    (hv : ∀ t ∈ all, t.start ≤ v.start) (s : State) (ts : List Token) (hsuf : ts <:+ all)
    (lo : Nat) (hlo : ∀ t ∈ ts, lo ≤ t.start) (hvlo : lo ≤ v.start) :
    Separated lo ((run (some v) s ts).filter unexpected) := by
  induction s, ts using run.induct generalizing lo with
  | case1 s hp => rw [run_nil_item _ hp]; exact .nil lo
  | case2 s hp =>
    rw [run_nil_of_ne _ hp, List.filter_cons_of_pos rfl, List.filter_nil]
    exact .cons hvlo (Nat.le_refl _) (.nil _)
  | case3 s t ts ht ih =>
    rw [run_newLine _ _ _ ht]
    exact ih ((List.suffix_cons t ts).trans hsuf) lo (fun u hu => hlo u (.tail t hu)) hvlo
  | case4 s t ts ht s' fs ho ih =>
    rw [run_move _ ts (Move.of_optional ho),
      filter_unexpected_append (optional_quiet ho).unexpected_eq_false]
    exact ih ((List.suffix_cons t ts).trans hsuf) lo (fun u hu => hlo u (.tail t hu)) hvlo
  | case5 s t ts ht hn ha s' fs hacc ih =>
    have hmove := Move.of_accept_eq hn ha hacc
    have hq := move_quiet hmove
    rw [run_move _ ts hmove, filter_unexpected_append hq.unexpected_eq_false]
    exact ih ((List.suffix_cons t ts).trans hsuf) lo (fun u hu => hlo u (.tail t hu)) hvlo
  | case6 s t ts ht hn ha hd =>
    rw [run_unrecoverable _ ht hn (by simpa using ha) hd, List.filter_cons_of_pos rfl,
      ← List.append_nil (s.skipAll (t :: ts)).2,
      filter_unexpected_append (skipAll_quiet s (t :: ts)).unexpected_eq_false, List.filter_nil]
    exact .cons (hlo t (.head ts)) (Nat.le_refl _) (.nil _)
  | case7 s t ts ht hn ha target more hd skipped s₁ f₁ hskip s₂ f₂ hacc ih =>
    obtain ⟨hq₁, hq₂⟩ := skip_quiet hskip hacc
    have hsplit : ts = ts.takeWhile (misfit s.phase.expected) ++ target :: more := by
      rw [← hd, List.takeWhile_append_dropWhile]
    have hpair : (t :: ts).Pairwise fun a b => a.stop ≤ b.start := hord.sublist hsuf.sublist
    have htarget : target ∈ ts := by rw [hsplit]; simp
    have hbefore := (List.pairwise_append.1 (hsplit ▸ (List.pairwise_cons.1 hpair).2)).2
    have hmore : more <:+ all :=
      (List.suffix_cons target more).trans ((hd ▸ List.dropWhile_suffix _).trans
        ((List.suffix_cons t ts).trans hsuf))
    have hstop : (Finding.skipped s.phase.expected t ((ts.takeWhile (misfit s.phase.expected)).filter
        (·.kind != .newLine))).toDiagnostic.stop ≤ target.start :=
      skipped_stop_le (hlen t (hsuf.subset (.head ts))) ((List.pairwise_cons.1 hpair).1 target htarget)
        fun u hu => hbefore.2 u (List.mem_filter.1 hu).1 target (.head more)
    have hafter : ∀ u ∈ more, target.start ≤ u.start := by
      intro u hu
      have hu := (List.pairwise_cons.1 hbefore.1).1 u hu
      simp only [Token.stop] at hu
      omega
    rw [run_skip _ ht hn (by simpa using ha) hd hskip hacc, List.filter_cons_of_pos rfl,
      filter_unexpected_append (hq₁.append hq₂).unexpected_eq_false]
    exact .cons (hlo t (.head ts)) hstop
      (ih hmore target.start hafter (hv target (hsuf.subset (.tail t htarget))))

end Checker

open Checker Finding

theorem mem_dropLast_of_pair {α : Type} {a b : α} {l : List α} (h : [a, b].Sublist l) :
    a ∈ l.dropLast := by
  obtain ⟨r₁, r₂, rfl, ha, hb⟩ := List.cons_sublist_iff.1 h
  rw [List.dropLast_append_of_ne_nil (List.ne_nil_of_mem (hb.subset (.head _)))]
  exact List.mem_append_left _ ha

theorem start_le_of_getLast? {ts : List Token} (hord : ts.Pairwise fun a b => a.stop ≤ b.start)
    {v : Token} (hv : ts.getLast? = some v) : ∀ t ∈ ts, t.start ≤ v.start := by
  obtain ⟨init, rfl⟩ := List.getLast?_eq_some_iff.1 hv
  intro t ht
  rcases List.mem_append.1 ht with ht | ht
  · have hbefore := (List.pairwise_append.1 hord).2.2 t ht v (.head _)
    simp only [Token.stop] at hbefore
    omega
  · exact Nat.le_of_eq (congrArg Token.start (List.mem_singleton.1 ht))

theorem run_codes_in_order (anchor : Option Token) {ts : List Token}
    (hsorted : ts.Pairwise fun a b => a.start < b.start) :
    (run anchor State.initial ts).Pairwise
      fun f g => f.code = g.code → f.toDiagnostic.start < g.toDiagnostic.start := by
  rw [List.pairwise_iff_forall_sublist]
  intro f g hfg hcode
  by_cases heof : f.code = .unexpectedEof
  · exact absurd heof (run_earlyEnd_last _ _ _ f (mem_dropLast_of_pair hfg))
  · obtain ⟨x, hx⟩ := exists_site heof
    obtain ⟨y, hy⟩ := exists_site (hcode ▸ heof)
    have hsame : [f, g].Sublist ((run anchor State.initial ts).filter (·.code == f.code)) := by
      simpa [hcode] using hfg.filter (·.code == f.code)
    have hxy : [x, y].Sublist ts := by
      have hsites := (hsame.filterMap site).trans (run_sites anchor f.code _ _)
      simpa [hx, hy] using hsites
    rw [start_of_site hx, start_of_site hy]
    exact List.pairwise_iff_forall_sublist.1 hsorted hxy

theorem run_unexpected_separated {ts : List Token} (hord : ts.Pairwise fun a b => a.stop ≤ b.start)
    (hlen : ∀ t ∈ ts, 1 ≤ t.length) :
    Separated 0 ((run ts.getLast? State.initial ts).filter unexpected) := by
  cases hv : ts.getLast? with
  | none => rw [List.getLast?_eq_none_iff.1 hv, run_nil_item _ rfl]; exact .nil 0
  | some v =>
    exact run_separated hord hlen (start_le_of_getLast? hord hv) _ _ List.suffix_rfl 0
      (fun _ _ => Nat.zero_le _) (Nat.zero_le _)

theorem check_eq_run (s : String) :
    check s = (run (tokenize s).getLast? State.initial (tokenize s)).map toDiagnostic := by
  have hkept : (tokenize s).filter (·.kind != .whitespace) = tokenize s :=
    List.filter_eq_self.2 fun t ht => by simpa using kind_ne_whitespace_of_mem_tokenize ht
  show (findings (tokenize s)).map toDiagnostic = _
  rw [findings_eq, hkept]

theorem tokenize_starts_increase (s : String) :
    (tokenize s).Pairwise fun a b => a.start < b.start := by
  have hlayout := Lexer.scan_layout 0 s.toList
  refine hlayout.pairwise.imp_of_mem fun ha _ hab => ?_
  have hlen := (hlayout.solid _ ha).1
  simp only [Token.stop] at hab
  omega

theorem earlyEnd_at_most_last {ds : List Diagnostic}
    (h : ∀ d ∈ ds.dropLast, d.code ≠ .unexpectedEof) :
    (ds.filter (·.code == .unexpectedEof)).length ≤ 1 ∧
      ∀ d ∈ ds, d.code = .unexpectedEof → ds.getLast? = some d := by
  cases hl : ds.getLast? with
  | none => simp [List.getLast?_eq_none_iff.1 hl]
  | some a =>
    obtain ⟨init, rfl⟩ := List.getLast?_eq_some_iff.1 hl
    rw [List.dropLast_concat] at h
    have hinit : init.filter (·.code == .unexpectedEof) = [] :=
      List.filter_eq_nil_iff.2 fun d hd => by simpa using h d hd
    refine ⟨?_, fun d hd heof => ?_⟩
    · rw [List.filter_append, hinit, List.nil_append]
      exact Nat.le_trans (List.length_filter_le _ _) (by simp)
    · rcases List.mem_append.1 hd with hd | hd
      · exact absurd heof (h d hd)
      · rw [List.mem_singleton.1 hd]

/-- How the diagnostics of a text are ordered. At most one reports an early end, and that one
comes last. The reports of a token that does not fit and of an early end start at strictly
increasing offsets, each range ending before the next one starts, so no two of them overlap. No
two diagnostics have both the same code and the same start. -/
theorem check_reports_in_order (s : String) :
    ((check s).filter (·.code == .unexpectedEof)).length ≤ 1 ∧
    (∀ d ∈ check s, d.code = .unexpectedEof → (check s).getLast? = some d) ∧
    (((check s).filter fun d => d.code == .unexpectedToken || d.code == .unexpectedEof).map
      (·.start)).Pairwise (· < ·) ∧
    ((check s).filter fun d => d.code == .unexpectedToken || d.code == .unexpectedEof).Pairwise
      (fun d e => d.stop ≤ e.start) ∧
    ((check s).map fun d => (d.code, d.start)).Nodup := by
  have hlayout := Lexer.scan_layout 0 s.toList
  have hrun := check_eq_run s
  have hlast : ∀ d ∈ (check s).dropLast, d.code ≠ .unexpectedEof := by
    rw [hrun, ← List.map_dropLast]
    intro d hd
    obtain ⟨f, hf, rfl⟩ := List.mem_map.1 hd
    rw [code_toDiagnostic]
    exact run_earlyEnd_last _ _ _ f hf
  have hunexpected :
      ((check s).filter fun d => d.code == .unexpectedToken || d.code == .unexpectedEof) =
        ((run (tokenize s).getLast? State.initial (tokenize s)).filter unexpected).map
          toDiagnostic := by
    rw [hrun, List.filter_map]
    congr 2
    funext f
    simp [unexpected]
  have hsep := run_unexpected_separated hlayout.pairwise fun t ht => (hlayout.solid t ht).1
  have hpairs := run_codes_in_order (tokenize s).getLast? (tokenize_starts_increase s)
  refine ⟨(earlyEnd_at_most_last hlast).1, (earlyEnd_at_most_last hlast).2, ?_, ?_, ?_⟩
  · rw [hunexpected, List.map_map]
    exact List.pairwise_map.2 (hsep.1.imp fun h => Nat.lt_of_lt_of_le (Diagnostic.start_lt_stop _) h)
  · rw [hunexpected]
    exact List.pairwise_map.2 hsep.1
  · rw [hrun, List.map_map]
    refine List.pairwise_map.2 (hpairs.imp fun h heq => ?_)
    simp only [Function.comp, Prod.mk.injEq, code_toDiagnostic] at heq
    exact Nat.ne_of_lt (h heq.1) heq.2

theorem check_reports_in_order_stray_number :
    ((check "(\\x -> x + 1) 1 2").filter (·.code == .unexpectedEof)).length ≤ 1 ∧
    (∀ d ∈ check "(\\x -> x + 1) 1 2", d.code = .unexpectedEof →
      (check "(\\x -> x + 1) 1 2").getLast? = some d) ∧
    (((check "(\\x -> x + 1) 1 2").filter
      fun d => d.code == .unexpectedToken || d.code == .unexpectedEof).map (·.start)).Pairwise
        (· < ·) ∧
    ((check "(\\x -> x + 1) 1 2").filter
      fun d => d.code == .unexpectedToken || d.code == .unexpectedEof).Pairwise
        (fun d e => d.stop ≤ e.start) ∧
    ((check "(\\x -> x + 1) 1 2").map fun d => (d.code, d.start)).Nodup :=
  check_reports_in_order _

end LambdaCheck
