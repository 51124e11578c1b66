import LambdaCheck.Proofs.Derivation

/-!
Runs without recovery read well-formed programs only. A run that finds nothing but names keeps an
invariant, `Viable`: the tokens read so far are a program followed by the beginning of an
expression, and the state says which beginning (`Partial`, and `Body` inside the body, where the
depth counts the groups of the body still open). A clean move extends the beginning by one token,
and the final `;` of an expression completes it. At the end of the input the checker must be
between expressions, so everything read is a program (`Grammar.program_of_reads`).

Together with `Grammar.reads_program` this decides the grammar (`parse_decides_program`).
-/

namespace LambdaCheck

namespace Grammar

open Checker

/-! ### Growing derivations at their end -/

theorem Group.close {g : List Token} {a t : Token} (hg : Group g a) (ht : t.kind = .closeBracket) :
    Group (g ++ [t]) a := by
  cases hg with
  | mk hopens hoperand hcloses =>
    rename_i closes
    have hcloses' : ∀ u ∈ closes ++ [t], u.kind = .closeBracket :=
      List.forall_mem_append.2 ⟨hcloses, by simp [ht]⟩
    simpa using Group.mk hopens hoperand hcloses'

theorem Chain.close {g ops : List Token} {t : Token} (hc : Chain g ops)
    (ht : t.kind = .closeBracket) : Chain (g ++ [t]) ops := by
  cases hc with
  | pair hfirst hop hsecond => simpa using Chain.pair hfirst hop (hsecond.close ht)
  | snoc hchain hop hgroup => simpa using Chain.snoc hchain hop (hgroup.close ht)

/-- One group, or several joined by operators: what stands before an operator of a body. -/
def Joined (g : List Token) : Prop :=
  (∃ a, Group g a) ∨ ∃ ops, Chain g ops

theorem Joined.chain {g h : List Token} {op b : Token} (hg : Joined g)
    (hop : op.kind.isOperator = true) (hh : Group h b) : ∃ ops, Chain (g ++ op :: h) ops := by
  rcases hg with ⟨a, ha⟩ | ⟨ops, hc⟩
  · exact ⟨_, .pair ha hop hh⟩
  · exact ⟨_, .snoc hc hop hh⟩

theorem Numbers.snoc_plain {ns : List Token} {n : Nat} {t : Token} (h : Numbers ns n)
    (ht : IsNumber t) : Numbers (ns ++ [t]) (n + 1) := by
  induction h with
  | nil => exact .plain ht .nil
  | plain hu _ ih => exact .plain hu ih
  | signed hs hu _ ih => exact .signed hs hu ih

theorem Numbers.snoc_signed {ns : List Token} {n : Nat} {s t : Token} (h : Numbers ns n)
    (hs : s.kind = .signPlus ∨ s.kind = .signMinus) (ht : IsNumber t) :
    Numbers (ns ++ [s, t]) (n + 1) := by
  induction h with
  | nil => exact .signed hs ht .nil
  | plain hu _ ih => exact .plain hu ih
  | signed hs' hu _ ih => exact .signed hs' hu ih

theorem Program.snoc_separator {ts : List Token} {as : List Abstraction} {t : Token}
    (h : Program ts as) (ht : t.kind = .endOfExpression) : Program (ts ++ [t]) as := by
  induction h with
  | nil => exact .separator ht .nil
  | separator hu _ ih => exact .separator hu ih
  | expression he _ ih => simpa using Program.expression he ih

theorem Program.snoc_expression {ts e : List Token} {as : List Abstraction} {a : Abstraction}
    (h : Program ts as) (he : Expression e a) : Program (ts ++ e) (as ++ [a]) := by
  induction h with
  | nil => simpa using Program.expression he .nil
  | separator hu _ ih => exact .separator hu ih
  | expression he' _ ih => simpa using Program.expression he' ih

/-! ### Depth of a body read so far -/

theorem depthAfter_snoc_close {g : List Token} {t : Token} {r : Nat}
    (hr : depthAfter 0 g = some (r + 1)) (ht : t.kind = .closeBracket) :
    depthAfter 0 (g ++ [t]) = some r := by
  simp [depthAfter_append, hr, depthAfter, ht]

theorem depthAfter_snoc_of_ne {g : List Token} {t : Token} {r : Nat}
    (hr : depthAfter 0 g = some r) (ho : t.kind ≠ .openBracket) (hc : t.kind ≠ .closeBracket) :
    depthAfter 0 (g ++ [t]) = some r := by
  rw [depthAfter_append, hr, Option.bind_some, depthAfter_cons_of_ne ho hc]
  rfl

theorem Group.single {a : Token} (ha : IsOperand a) : Group [a] a := by
  have h : Group ([] ++ a :: []) a := Group.mk (by simp) ha (by simp)
  simpa using h

/-! ### A body read so far -/

/-- A body read up to a position of the checker: `Body ph bp r` when the checker is at `ph` after
the body tokens `bp`, with `r` groups of the body open. -/
inductive Body : Phase → List Token → Nat → Prop where
  | start : Body (.lead true) [] 0
  | opening {opens : List Token} (hopens : ∀ t ∈ opens, t.kind = .openBracket) :
      Body (.opening true) opens opens.length
  | first {g : List Token} {a : Token} {r : Nat} (hg : Group g a) (hr : depthAfter 0 g = some r) :
      Body (.closing true) g r
  | operator {g : List Token} {op : Token} {r : Nat} (hg : Joined g)
      (hop : op.kind.isOperator = true) (hr : depthAfter 0 g = some r) :
      Body (.lead false) (g ++ [op]) r
  | reopening {g opens : List Token} {op : Token} {r : Nat} (hg : Joined g)
      (hop : op.kind.isOperator = true) (hopens : ∀ t ∈ opens, t.kind = .openBracket)
      (hr : depthAfter 0 g = some r) :
      Body (.opening false) (g ++ op :: opens) (r + opens.length)
  | chain {g ops : List Token} {r : Nat} (hc : Chain g ops) (hr : depthAfter 0 g = some r) :
      Body (.closing false) g r

theorem not_clean_unmatched {t : Token} {fs : List Finding}
    (h : ∀ f ∈ Finding.unmatchedClose t :: fs, f.isName = true) : False := by
  have := h _ (List.mem_cons_self ..)
  simp [Finding.isName, Finding.code] at this

theorem Body.group_of_opens {opens : List Token} {t : Token}
    (hopens : ∀ u ∈ opens, u.kind = .openBracket) (ht : IsOperand t) :
    Body (.closing true) (opens ++ [t]) opens.length := by
  have hk := IsOperand.not_bracket ht
  have hdepth := depthAfter_opens hopens 0
  rw [Nat.zero_add] at hdepth
  exact Body.first (Group.mk hopens ht (by simp)) (depthAfter_snoc_of_ne hdepth hk.1 hk.2)

theorem Body.chain_of_operand {g opens : List Token} {op t : Token} {r : Nat} (hg : Joined g)
    (hop : op.kind.isOperator = true) (hopens : ∀ u ∈ opens, u.kind = .openBracket)
    (hr : depthAfter 0 g = some r) (ht : IsOperand t) :
    Body (.closing false) (g ++ op :: opens ++ [t]) (r + opens.length) := by
  have hk := not_bracket_of_isOperator hop
  have hk' := IsOperand.not_bracket ht
  have hdepth : depthAfter 0 (g ++ op :: opens) = some (r + opens.length) := by
    rw [depthAfter_append, hr, Option.bind_some, depthAfter_cons_of_ne hk.1 hk.2,
      depthAfter_opens hopens]
  have hgroup : Group (opens ++ [t]) t := Group.mk hopens ht (by simp)
  obtain ⟨ops, hc⟩ := hg.chain hop hgroup
  have hb := Body.chain hc (by simpa using depthAfter_snoc_of_ne hdepth hk'.1 hk'.2)
  simpa using hb

theorem Body.step {ph : Phase} {bp : List Token} {r : Nat} {ps : List Param} {t : Token}
    {s' : State} {fs : List Finding} (hb : Body ph bp r) (hm : Move ⟨ph, r + 1, 0, ps⟩ t s' fs)
    (hclean : ∀ f ∈ fs, f.isName = true) :
    (∃ ph' r' ps', s' = ⟨ph', r' + 1, 0, ps'⟩ ∧ ps'.map (·.name) = ps.map (·.name) ∧
      Body ph' (bp ++ [t]) r') ∨
    (s' = ⟨.numbers ps.length, 0, 0, ps⟩ ∧ t.kind = .closeBracket ∧ (∃ ops, Chain bp ops) ∧
      Balanced bp) := by
  have hnone : ∀ u ∈ ([] : List Token), u.kind = .openBracket := by simp
  -- the position in the body decides which moves can follow; a misplaced `)` is never clean
  cases hb with
  | start =>
    cases hm with
    | misplaced ht => exact (not_clean_unmatched hclean).elim
    | leadOpen ht => exact .inl ⟨_, _, _, rfl, rfl, Body.opening (by simp [ht])⟩
    | leadName ht => exact .inl ⟨_, _, _, rfl, by simp, Body.group_of_opens hnone (.inl ht)⟩
    | leadNumber ht => exact .inl ⟨_, _, _, rfl, rfl, Body.group_of_opens hnone (.inr ht)⟩
  | opening hopens =>
    cases hm with
    | groupOpen ht =>
      have hb' := Body.opening (List.forall_mem_append.2
        ⟨hopens, (by simp [ht] : ∀ u ∈ [t], u.kind = .openBracket)⟩)
      rw [List.length_append, List.length_singleton] at hb'
      exact .inl ⟨_, _, _, rfl, rfl, hb'⟩
    | groupName ht => exact .inl ⟨_, _, _, rfl, by simp, Body.group_of_opens hopens (.inl ht)⟩
    | groupNumber ht => exact .inl ⟨_, _, _, rfl, rfl, Body.group_of_opens hopens (.inr ht)⟩
  | first hg hr =>
    cases hm with
    | groupClose hd ht =>
      obtain ⟨r₀, rfl⟩ : ∃ r₀, r = r₀ + 1 := ⟨r - 1, by omega⟩
      have hb' := Body.first (hg.close ht) (depthAfter_snoc_close hr ht)
      exact .inl ⟨_, r₀, _, rfl, rfl, hb'⟩
    | operator ht => exact .inl ⟨_, _, _, rfl, rfl, Body.operator (.inl ⟨_, hg⟩) ht hr⟩
  | operator hg hop hr =>
    cases hm with
    | misplaced ht => exact (not_clean_unmatched hclean).elim
    | leadOpen ht =>
      have hb' := Body.reopening hg hop (by simp [ht] : ∀ u ∈ [t], u.kind = .openBracket) hr
      exact .inl ⟨_, _, _, rfl, rfl, by simpa using hb'⟩
    | leadName ht =>
      have hb' := Body.chain_of_operand hg hop hnone hr (.inl ht)
      exact .inl ⟨_, _, _, rfl, by simp, by simpa using hb'⟩
    | leadNumber ht =>
      have hb' := Body.chain_of_operand hg hop hnone hr (.inr ht)
      exact .inl ⟨_, _, _, rfl, rfl, by simpa using hb'⟩
  | @reopening g opens op r hg hop hopens hr =>
    cases hm with
    | groupOpen ht =>
      have hb' := Body.reopening hg hop (List.forall_mem_append.2
        ⟨hopens, (by simp [ht] : ∀ u ∈ [t], u.kind = .openBracket)⟩) hr
      have hlen : r + (opens ++ [t]).length = r + opens.length + 1 := by simp; omega
      rw [hlen] at hb'
      exact .inl ⟨_, _, _, rfl, rfl, by simpa using hb'⟩
    | groupName ht =>
      have hb' := Body.chain_of_operand hg hop hopens hr (.inl ht)
      exact .inl ⟨_, _, _, rfl, by simp, by simpa using hb'⟩
    | groupNumber ht =>
      have hb' := Body.chain_of_operand hg hop hopens hr (.inr ht)
      exact .inl ⟨_, _, _, rfl, rfl, by simpa using hb'⟩
  | chain hc hr =>
    cases hm with
    | groupClose hd ht =>
      obtain ⟨r₀, rfl⟩ : ∃ r₀, r = r₀ + 1 := ⟨r - 1, by omega⟩
      have hb' := Body.chain (hc.close ht) (depthAfter_snoc_close hr ht)
      exact .inl ⟨_, r₀, _, rfl, rfl, hb'⟩
    | operator ht => exact .inl ⟨_, _, _, rfl, rfl, Body.operator (.inr ⟨_, hc⟩) ht hr⟩
    | bodyClose hd ht =>
      obtain rfl : r = 0 := by omega
      exact .inr ⟨rfl, ht, ⟨_, hc⟩, hr⟩

/-! ### An expression read so far -/

/-- The tokens before a body: `(`, `\`, the parameters `xs`, `-` and `>`. -/
structure Head (o l m g : Token) (xs : List Token) : Prop where
  opening : o.kind = .openBracket
  lambda : l.kind = .lambdaIntroducer
  params : ∀ x ∈ xs, x.kind = .identifier
  dash : m.kind = .signMinus
  arrow : g.kind = .signMore

/-- An expression read so far: `Partial cur s` when the checker reached `s` after the tokens `cur`
of the current expression. Between expressions nothing is pending and the state is the initial
one; inside one, the depth counts the expression's own bracket and the open groups of its body. -/
inductive Partial : List Token → State → Prop where
  | item : Partial [] State.initial
  | lambda {o : Token} (ho : o.kind = .openBracket) : Partial [o] ⟨.lambda, 1, 0, []⟩
  | params {o l : Token} {ps : List Param} (ho : o.kind = .openBracket)
      (hl : l.kind = .lambdaIntroducer) (hps : ∀ x ∈ ps.map (·.name), x.kind = .identifier) :
      Partial (o :: l :: ps.map (·.name)) ⟨.params, 1, 0, ps⟩
  | arrow {o l m : Token} {ps : List Param} (ho : o.kind = .openBracket)
      (hl : l.kind = .lambdaIntroducer) (hps : ∀ x ∈ ps.map (·.name), x.kind = .identifier)
      (hm : m.kind = .signMinus) :
      Partial (o :: l :: ps.map (·.name) ++ [m]) ⟨.arrow, 1, 0, ps⟩
  | body {o l m g : Token} {ps : List Param} {ph : Phase} {bp : List Token} {r : Nat}
      (hh : Head o l m g (ps.map (·.name))) (hb : Body ph bp r) :
      Partial (o :: l :: ps.map (·.name) ++ m :: g :: bp) ⟨ph, r + 1, 0, ps⟩
  | numbers {o l m g c : Token} {ps : List Param} {body ops ns : List Token} {j k : Nat}
      (hh : Head o l m g (ps.map (·.name))) (hbody : Chain body ops) (hbal : Balanced body)
      (hc : c.kind = .closeBracket) (hns : Numbers ns j) (hjk : j + k = ps.length) :
      Partial (o :: l :: ps.map (·.name) ++ m :: g :: body ++ c :: ns) ⟨.numbers k, 0, 0, ps⟩
  | signed {o l m g c sg : Token} {ps : List Param} {body ops ns : List Token} {j k : Nat}
      (hh : Head o l m g (ps.map (·.name))) (hbody : Chain body ops) (hbal : Balanced body)
      (hc : c.kind = .closeBracket) (hns : Numbers ns j)
      (hsg : sg.kind = .signPlus ∨ sg.kind = .signMinus) (hjk : j + k + 1 = ps.length) :
      Partial (o :: l :: ps.map (·.name) ++ m :: g :: body ++ c :: ns ++ [sg]) ⟨.signed k, 0, 0, ps⟩

theorem Partial.step {cur : List Token} {s s' : State} {t : Token} {fs : List Finding}
    (hp : Partial cur s) (hs : s.phase ≠ .item) (hm : Move s t s' fs)
    (hclean : ∀ f ∈ fs, f.isName = true) :
    Partial (cur ++ [t]) s' ∨ (s' = State.initial ∧ ∃ a, Expression (cur ++ [t]) a) := by
  cases hp with
  | item => exact absurd rfl hs
  | @lambda o ho =>
    cases hm with
    | lambda hl =>
      have hnext := @Partial.params o t [] ho hl (by simp)
      exact .inl (by simpa using hnext)
  | @params o l ps ho hl hps =>
    cases hm with
    | param ht =>
      have hps' : ∀ x ∈ (ps ++ ([⟨t, false⟩] : List Param)).map (·.name),
          x.kind = .identifier := by
        rw [List.map_append]
        exact List.forall_mem_append.2 ⟨hps, by simp [ht]⟩
      have hnext := Partial.params ho hl hps'
      exact .inl (by simpa using hnext)
    | dash hm => exact .inl (Partial.arrow ho hl hps hm)
  | arrow ho hl hps hm =>
    cases hm with
    | arrow hg =>
      have hnext := Partial.body ⟨ho, hl, hps, hm, hg⟩ Body.start
      exact .inl (by simpa using hnext)
  | @body o l m g ps ph bp r hh hb =>
    rcases hb.step hm hclean with ⟨ph', r', ps', rfl, hnames, hb'⟩ | ⟨rfl, hc, ⟨ops, hchain⟩, hbal⟩
    · have hh' : Head o l m g (ps'.map (·.name)) := hnames ▸ hh
      have hnext := Partial.body hh' hb'
      rw [hnames] at hnext
      exact .inl (by simpa using hnext)
    · have hnext := Partial.numbers hh hchain hbal hc Numbers.nil (Nat.zero_add _)
      exact .inl (by simpa using hnext)
  | @numbers o l m g c ps body ops ns j k hh hbody hbal hc hns hjk =>
    cases k with
    | zero =>
      cases hm with
      | finish he =>
        have hlen : (ps.map (·.name)).length = j := by simp; omega
        have hexpr := Expression.mk hh.opening hh.lambda hh.params hh.dash hh.arrow hbody hbal hc
          (hlen ▸ hns) he
        exact .inr ⟨rfl, _, by simpa using hexpr⟩
    | succ n =>
      cases hm with
      | sign hsg =>
        have hnext := Partial.signed hh hbody hbal hc hns hsg hjk
        exact .inl (by simpa using hnext)
      | plain ht =>
        have hnext := Partial.numbers hh hbody hbal hc (hns.snoc_plain ht)
          (show j + 1 + n = ps.length by omega)
        exact .inl (by simpa using hnext)
  | @signed o l m g c sg ps body ops ns j k hh hbody hbal hc hns hsg hjk =>
    cases hm with
    | signedNumber ht =>
      have hnext := Partial.numbers hh hbody hbal hc (hns.snoc_signed hsg ht)
        (show j + 1 + k = ps.length by omega)
      exact .inl (by simpa using hnext)

/-! ### Everything read so far -/

/-- The tokens read so far, at state `s`: a program, then an expression read so far. -/
def Viable (done : List Token) (s : State) : Prop :=
  ∃ pre cur as, done = pre ++ cur ∧ Program pre as ∧ Partial cur s

theorem viable_initial : Viable [] State.initial :=
  ⟨[], [], [], rfl, .nil, .item⟩

theorem Partial.eq_initial {cur : List Token} {s : State} (hp : Partial cur s)
    (hs : s.phase = .item) : cur = [] ∧ s = State.initial := by
  cases hp with
  | item => exact ⟨rfl, rfl⟩
  | lambda => cases hs
  | params => cases hs
  | arrow => cases hs
  | body _ hb => cases hb <;> cases hs
  | numbers => cases hs
  | signed => cases hs

theorem Viable.step {done : List Token} {s s' : State} {t : Token} {fs : List Finding}
    (hv : Viable done s) (hm : Move s t s' fs) (hclean : ∀ f ∈ fs, f.isName = true) :
    Viable (done ++ [t]) s' := by
  obtain ⟨pre, cur, as, rfl, hpre, hcur⟩ := hv
  by_cases hs : s.phase = .item
  · -- between expressions: a `;` is a separator and a `(` begins an expression
    obtain ⟨rfl, rfl⟩ := hcur.eq_initial hs
    cases hm with
    | separator ht => exact ⟨pre ++ [t], [], as, by simp, hpre.snoc_separator ht, .item⟩
    | strayUnmatched ht => exact (not_clean_unmatched hclean).elim
    | begin ho => exact ⟨pre, [t], as, by simp, hpre, .lambda ho⟩
  · rcases hcur.step hs hm hclean with hnext | ⟨rfl, a, he⟩
    · exact ⟨pre, cur ++ [t], as, by simp, hpre, hnext⟩
    · exact ⟨pre ++ (cur ++ [t]), [], as ++ [a], by simp, hpre.snoc_expression he, .item⟩

theorem Viable.reads {done ts : List Token} {s s' : State} {fs : List Finding}
    (hv : Viable done s) (h : Reads s ts s' fs) (hclean : ∀ f ∈ fs, f.isName = true) :
    Viable (done ++ ts.filter (·.kind != .newLine)) s' := by
  induction h generalizing done with
  | nil => simpa using hv
  | @newLine _ _ t ts _ ht _ ih =>
    have hdrop : (t :: ts).filter (·.kind != .newLine) = ts.filter (·.kind != .newLine) := by
      simp [ht]
    rw [hdrop]
    exact ih hv hclean
  | @move _ _ _ t ts f₁ fs hmove _ ih =>
    have hkeep : (t :: ts).filter (·.kind != .newLine) = t :: ts.filter (·.kind != .newLine) := by
      simp [hmove.ne_newLine]
    have hstep := hv.step hmove fun f hf => hclean f (List.mem_append_left _ hf)
    rw [hkeep, ← List.singleton_append, ← List.append_assoc]
    exact ih hstep fun f hf => hclean f (List.mem_append_right _ hf)

theorem program_of_reads {ts : List Token} {s : State} {fs : List Finding}
    (h : Reads State.initial ts s fs) (hclean : ∀ f ∈ fs, f.isName = true)
    (hs : s.phase = .item) :
    s = State.initial ∧ ∃ as, Program (ts.filter (·.kind != .newLine)) as := by
  obtain ⟨pre, cur, as, hdone, hpre, hcur⟩ := viable_initial.reads h hclean
  obtain ⟨rfl, rfl⟩ := hcur.eq_initial hs
  refine ⟨rfl, as, ?_⟩
  rw [List.nil_append] at hdone
  rw [hdone, List.append_nil]
  exact hpre

end Grammar

namespace Checker

open Grammar

/-- A run from the initial state that finds only names is a run without recovery that reads a
well-formed program and ends back in the initial state. -/
theorem reads_of_names (anchor : Option Token) (ts : List Token)
    (h : ∀ f ∈ run anchor State.initial ts, f.isName = true) :
    Reads State.initial ts State.initial (run anchor State.initial ts) ∧
      ∃ as, Program (ts.filter (·.kind != .newLine)) as := by
  obtain ⟨s', fs, hreads, hrun⟩ :=
    reads_of_run anchor State.initial ts fun f hf => Finding.recovers_eq_false_of_isName (h f hf)
  have hs' : s'.phase = .item := by
    apply Classical.byContradiction
    intro hne
    have hend := h (.earlyEnd s'.phase.expected anchor) (by simp [hrun, run_nil_of_ne anchor hne])
    simp [Finding.isName, Finding.code] at hend
  have hfs : ∀ f ∈ fs, f.isName = true := fun f hf => h f (by simp [hrun, hf])
  obtain ⟨rfl, hprog⟩ := program_of_reads hreads hfs hs'
  rw [run_nil_item anchor rfl, List.append_nil] at hrun
  exact ⟨hrun ▸ hreads, hprog⟩

end Checker

open Grammar Checker

theorem filter_whitespace_newLine (ts : List Token) :
    (ts.filter fun t => t.kind != .whitespace && t.kind != .newLine) =
      (ts.filter (·.kind != .whitespace)).filter (·.kind != .newLine) := by
  simp only [List.filter_filter, Bool.and_comm]

theorem reads_of_program {ts : List Token} {as : List Abstraction}
    (h : Program (ts.filter fun t => t.kind != .whitespace && t.kind != .newLine) as) :
    Reads State.initial (ts.filter (·.kind != .whitespace)) State.initial (nameFindings as) := by
  rw [filter_whitespace_newLine] at h
  exact Reads.filter_newLine.1 (reads_program h)

/-- Tokens whose non-blank part is a program get exactly the program's name findings. -/
theorem findings_of_program {ts : List Token} {as : List Abstraction}
    (h : Program (ts.filter fun t => t.kind != .whitespace && t.kind != .newLine) as) :
    findings ts = nameFindings as := by
  have hrun := (reads_of_program h).run_append (ts.filter (·.kind != .whitespace)).getLast? []
  rw [List.append_nil, run_nil_item _ rfl, List.append_nil] at hrun
  exact hrun

/-- The checker decides the grammar of programs. Once whitespace and line feeds are left out, a
well-formed program gets exactly the name findings of its derivation, and a token list that is
no program gets at least one diagnostic of a syntax code. -/
theorem parse_decides_program (ts : List Token) :
    (∀ as, Program (ts.filter fun t => t.kind != .whitespace && t.kind != .newLine) as →
      parse ts = (nameFindings as).map Finding.toDiagnostic) ∧
    ((¬ ∃ as, Program (ts.filter fun t => t.kind != .whitespace && t.kind != .newLine) as) →
      ∃ d ∈ parse ts, d.code = .unexpectedToken ∨ d.code = .unexpectedEof ∨
        d.code = .unmatchedCloseBracket ∨ d.code = .misplacedCloseBracket) := by
  constructor
  · intro as hprog
    rw [parse, findings_of_program hprog]
  · intro hnot
    apply Classical.byContradiction
    intro hbad
    apply hnot
    have hnames : ∀ f ∈ findings ts, f.isName = true := by
      intro f hf
      cases hname : f.isName with
      | true => rfl
      | false =>
        refine (hbad ⟨f.toDiagnostic, List.mem_map_of_mem hf, ?_⟩).elim
        simpa using Finding.code_of_isName_eq_false hname
    rw [findings_eq] at hnames
    rw [filter_whitespace_newLine]
    exact (reads_of_names _ _ hnames).2

/-- The tokens of `(\x -> x + y) 1;`: a well-formed program whose body names `y`, which is no
parameter. -/
def unknownNameProgram : List Token :=
  [⟨.openBracket, "(", 0⟩, ⟨.lambdaIntroducer, "\\", 1⟩, ⟨.identifier, "x", 2⟩,
    ⟨.signMinus, "-", 4⟩, ⟨.signMore, ">", 5⟩, ⟨.identifier, "x", 7⟩, ⟨.signPlus, "+", 9⟩,
    ⟨.identifier, "y", 11⟩, ⟨.closeBracket, ")", 12⟩, ⟨.integer, "1", 14⟩,
    ⟨.endOfExpression, ";", 15⟩]

theorem unknownNameProgram_program :
    Program (unknownNameProgram.filter fun t => t.kind != .whitespace && t.kind != .newLine)
      [⟨[⟨.identifier, "x", 2⟩], [⟨.identifier, "x", 7⟩, ⟨.identifier, "y", 11⟩]⟩] := by
  have hchain : Chain [⟨.identifier, "x", 7⟩, ⟨.signPlus, "+", 9⟩, ⟨.identifier, "y", 11⟩]
      [⟨.identifier, "x", 7⟩, ⟨.identifier, "y", 11⟩] :=
    Chain.pair (Group.single (.inl rfl)) rfl (Group.single (.inl rfl))
  have hexpr := @Expression.mk ⟨.openBracket, "(", 0⟩ ⟨.lambdaIntroducer, "\\", 1⟩
    ⟨.signMinus, "-", 4⟩ ⟨.signMore, ">", 5⟩ ⟨.closeBracket, ")", 12⟩ ⟨.endOfExpression, ";", 15⟩
    [⟨.identifier, "x", 2⟩] _ [⟨.integer, "1", 14⟩] _ rfl rfl (by simp) rfl rfl hchain rfl rfl
    (Numbers.plain (.inl rfl) .nil) rfl
  exact Program.expression hexpr .nil

theorem unknownNameProgram_parse :
    Program (unknownNameProgram.filter fun t => t.kind != .whitespace && t.kind != .newLine)
        [⟨[⟨.identifier, "x", 2⟩], [⟨.identifier, "x", 7⟩, ⟨.identifier, "y", 11⟩]⟩] ∧
      parse unknownNameProgram =
        (nameFindings [⟨[⟨.identifier, "x", 2⟩],
          [⟨.identifier, "x", 7⟩, ⟨.identifier, "y", 11⟩]⟩]).map Finding.toDiagnostic :=
  ⟨unknownNameProgram_program,
    (parse_decides_program unknownNameProgram).1 _ unknownNameProgram_program⟩

end LambdaCheck
