import LambdaCheck.Proofs.Progress
import LambdaCheck.Proofs.BracketCount
import LambdaCheck.Proofs.Composition

/-!
The parser reports what the checker reports. A state of the parser is in step with a state of the
checker's machine (`Descent.Tracks`) when the two agree on the brackets and the parameters, and
the findings the parser has made, followed by the machine's findings on the tokens from the cursor
on, are the findings of the whole input. Each production keeps the two in step: it takes the
tokens the machine takes in the grammar positions it stands for and reports what the machine
reports on them, so that a run whose loops stay within their bound ends with the checker's
findings (`parseWithin_eq_parse`).
-/

namespace LambdaCheck

namespace Checker

theorem run_dropWhile_newLine (anchor : Option Token) (s : State) (ts : List Token) :
    run anchor s (ts.dropWhile (·.kind == .newLine)) = run anchor s ts := by
  induction ts with
  | nil => rfl
  | cons t ts ih =>
    by_cases ht : t.kind = .newLine
    · rw [List.dropWhile_cons_of_pos (by simp [ht]), ih, run_newLine _ _ _ ht]
    · rw [List.dropWhile_cons_of_neg (by simp [ht])]

theorem misfit_split {e : Expected} : ∀ {ts : List Token} {i : Nat},
    ts.findIdx? (e.accepts ·.kind) = some i →
      ts.takeWhile (misfit e) = ts.take i ∧ ts.dropWhile (misfit e) = ts.drop i
  | [], _, h => by simp at h
  | t :: ts, i, h => by
    rw [List.findIdx?_cons] at h
    by_cases ht : e.accepts t.kind
    · rw [if_pos ht] at h
      cases h
      simp [misfit, ht]
    · rw [if_neg ht] at h
      obtain ⟨j, hj, rfl⟩ := Option.map_eq_some_iff.1 h
      obtain ⟨htake, hdrop⟩ := misfit_split hj
      simp [misfit, ht, htake, hdrop]

theorem dropWhile_misfit_eq_nil {e : Expected} : ∀ {ts : List Token},
    ts.findIdx? (e.accepts ·.kind) = none → ts.dropWhile (misfit e) = []
  | [], _ => rfl
  | t :: ts, h => by
    rw [List.findIdx?_cons] at h
    by_cases ht : e.accepts t.kind
    · rw [if_pos ht] at h
      cases h
    · rw [if_neg ht, Option.map_eq_none_iff] at h
      simp [misfit, ht, dropWhile_misfit_eq_nil h]

end Checker

namespace State

variable {s : State} {t : Token}

theorem optional_of_item (h : s.phase = .item) (he : t.kind ≠ .endOfExpression)
    (hc : t.kind ≠ .closeBracket) : s.optional t = none := by
  unfold optional
  split <;> simp_all

theorem optional_of_lead {f : Bool} (h : s.phase = .lead f) (hc : t.kind ≠ .closeBracket)
    (ho : t.kind ≠ .openBracket) : s.optional t = none := by
  unfold optional
  split <;> simp_all

theorem optional_of_opening {f : Bool} (h : s.phase = .opening f) (ho : t.kind ≠ .openBracket) :
    s.optional t = none := by
  unfold optional
  split <;> simp_all

theorem optional_of_closing {f : Bool} (h : s.phase = .closing f)
    (hc : t.kind = .closeBracket → ¬ s.base + 1 < s.depth) : s.optional t = none := by
  unfold optional
  split <;> simp_all

theorem optional_of_numbers {n : Nat} (h : s.phase = .numbers (n + 1))
    (hs : ¬ (t.kind = .signPlus ∨ t.kind = .signMinus)) : s.optional t = none := by
  unfold optional
  split <;> simp_all

@[simp] theorem refer_depth : (s.refer t).1.depth = s.depth := by
  unfold refer
  split <;> rfl

@[simp] theorem refer_base : (s.refer t).1.base = s.base := by
  unfold refer
  split <;> rfl

@[simp] theorem closeBracket_phase : (s.closeBracket t).1.phase = s.phase := by
  unfold closeBracket
  split <;> rfl

@[simp] theorem closeBracket_params : (s.closeBracket t).1.params = s.params := by
  unfold closeBracket
  split <;> rfl

theorem accept_closing {f : Bool} (h : s.phase = .closing f) :
    s.accept t = if t.kind = .closeBracket then
        ({ (s.closeBracket t).1 with phase := .numbers (s.closeBracket t).1.params.length },
          (s.closeBracket t).2)
      else ({ s with phase := .lead false }, []) := by
  unfold accept
  split <;> simp_all

theorem accept_params (h : s.phase = .params) :
    s.accept t = if t.kind = .identifier then ({ s with params := s.params ++ [⟨t, false⟩] }, [])
      else ({ s with phase := .arrow }, []) := by
  unfold accept
  split <;> simp_all

theorem accept_operand {f : Bool} (h : s.phase = .lead f ∨ s.phase = .opening f) :
    s.accept t = if t.kind = .identifier then
        ({ (s.refer t).1 with phase := .closing f }, (s.refer t).2)
      else ({ s with phase := .closing f }, []) := by
  rcases h with h | h <;> unfold accept <;> split <;> simp_all

end State

namespace Descent

open Checker

variable {α β : Type} {toks : Array Token} {D : List Finding}

/-- A state of the parser agrees with a state of the machine: the same brackets, and the same
parameters except between expressions, where the parser still holds those of the last one. -/
structure Agrees (toks : Array Token) (p : Parser) (s : State) : Prop where
  tokens : p.tokens = toks
  pos_le : p.pos ≤ toks.size
  depth : p.brackets.length = s.depth
  base : p.base = s.base
  params : s.phase = .item ∨ p.params = s.params

/-- In step: agreeing, with the findings so far and the machine's findings on the tokens from the
cursor on making up `D`. -/
def Tracks (toks : Array Token) (D : List Finding) (p : Parser) (s : State) : Prop :=
  Agrees toks p s ∧ p.findings ++ run toks.toList.getLast? s p.ahead = D

/-- Agreeing with the machine in `s`, and owing the findings `fs` of a step to `s'` after which
the machine's findings on the tokens from the cursor on complete `D`. -/
def Owes (toks : Array Token) (D : List Finding) (p : Parser) (s : State) (fs : List Finding)
    (s' : State) : Prop :=
  Agrees toks p s ∧ p.findings ++ fs ++ run toks.toList.getLast? s' p.ahead = D

/-- No optional move of the machine applies to the token at the cursor. -/
def Settled (p : Parser) (s : State) : Prop :=
  ∀ t, upcoming p = some t → s.optional t = none

theorem Settled.of_none {p : Parser} {s : State} (h : upcoming p = none) : Settled p s := by
  intro t ht
  rw [h] at ht
  cases ht

theorem Settled.of_upcoming {p : Parser} {s : State} {t : Token} (hup : upcoming p = some t)
    (h : s.optional t = none) : Settled p s := by
  intro t' ht'
  rw [hup, Option.some.injEq] at ht'
  exact ht' ▸ h

theorem Settled.skipNewLines {p : Parser} {s : State} (h : Settled p s) :
    Settled (Descent.skipNewLines p) s := by
  intro t ht
  rw [upcoming_skipNewLines] at ht
  exact h t ht

theorem Tracks.skipNewLines {p : Parser} {s : State} (h : Tracks toks D p s) :
    Tracks toks D (skipNewLines p) s := by
  obtain ⟨hA, htot⟩ := h
  have hle := (skipNewLines_follows (p := p) (by rw [hA.tokens]; exact hA.pos_le)).2.2
  refine ⟨⟨hA.tokens, ?_, hA.depth, hA.base, hA.params⟩, ?_⟩
  · rwa [skipNewLines_tokens, hA.tokens] at hle
  · rw [skipNewLines_findings, ahead_skipNewLines, run_dropWhile_newLine]
    exact htot

@[simp] theorem Step.meets_ok {ok : α → Parser → Prop} {early : Parser → Prop} {a : α} {q : Parser} :
    (Step.ok a q).Meets ok early ↔ ok a q := Iff.rfl

@[simp] theorem Step.meets_early {ok : α → Parser → Prop} {early : Parser → Prop} {q : Parser} :
    (Step.early q : Step α).Meets ok early ↔ early q := Iff.rfl

theorem Tracks.take {p : Parser} {s s' : State} {t : Token} {fs : List Finding}
    (hT : Tracks toks D p s) (hup : upcoming p = some t) (hmove : Move s t s' fs) :
    Owes toks D { Descent.skipNewLines p with pos := (Descent.skipNewLines p).pos + 1 } s fs s' := by
  obtain ⟨hlt, -, hcons⟩ := upcoming_eq_some hup
  have hrun := hT.skipNewLines.2
  rw [hcons, run_move _ _ hmove, ← List.append_assoc] at hrun
  refine ⟨⟨hT.1.tokens, ?_, hT.1.depth, hT.1.base, hT.1.params⟩, hrun⟩
  show (Descent.skipNewLines p).pos + 1 ≤ toks.size
  rw [← hT.1.tokens]
  exact hlt

theorem Owes.tracks {q r : Parser} {s s' : State} {fs : List Finding} (h : Owes toks D q s fs s')
    (htokens : r.tokens = q.tokens) (hpos : r.pos = q.pos) (hdepth : r.brackets.length = s'.depth)
    (hbase : r.base = s'.base) (hparams : s'.phase = .item ∨ r.params = s'.params)
    (hfindings : r.findings = q.findings ++ fs) : Tracks toks D r s' := by
  have hahead : r.ahead = q.ahead := by rw [Parser.ahead, Parser.ahead, htokens, hpos]
  refine ⟨⟨htokens.trans h.1.tokens, by rw [hpos]; exact h.1.pos_le, hdepth, hbase, hparams⟩, ?_⟩
  rw [hfindings, hahead]
  exact h.2

theorem Owes.mirrors {q r : Parser} {s s' : State} {fs : List Finding} (h : Owes toks D q s fs s')
    (hm : Mirrors q r s' fs) (hparams : s'.phase = .item ∨ q.params = s'.params) :
    Tracks toks D r s' :=
  h.tracks hm.tokens hm.pos hm.depth hm.base (by rw [hm.params]; exact hparams) hm.findings

/-- A step that only moves the machine on to the position `ph` needs nothing of the parser. -/
theorem Owes.tracks_phase {q : Parser} {s : State} {ph : Phase}
    (h : Owes toks D q s [] { s with phase := ph }) (hps : q.params = s.params) :
    Tracks toks D q { s with phase := ph } :=
  h.tracks rfl rfl h.1.depth h.1.base (Or.inr hps) (List.append_nil _).symm

theorem neutralize_unfit_tracks {p : Parser} {s : State} {t : Token} (hT : Tracks toks D p s)
    (hup : upcoming p = some t) (hquiet : s.optional t = none)
    (hfit : s.phase.expected.accepts t.kind = false)
    (hfind : (skipNewLines p).ahead.findIdx? (s.phase.expected.accepts ·.kind) = none) :
    (neutralize s.phase.expected p).Meets (fun _ _ => False) (fun q => q.findings = D) := by
  obtain ⟨hlt, hnl, hcons⟩ := upcoming_eq_some hup
  have hrun := hT.skipNewLines.2
  rw [hcons] at hfind hrun
  rw [List.findIdx?_cons, if_neg (by simp [hfit]), Option.map_eq_none_iff] at hfind
  rw [run_unrecoverable _ hnl hquiet hfit (dropWhile_misfit_eq_nil hfind), ← hcons] at hrun
  rw [neutralize_of_unfit hup (by rw [hcons, List.findIdx?_cons, if_neg (by simp [hfit]), hfind]; rfl),
    bind_apply]
  obtain ⟨r, hr, hm⟩ := skipRange_mirrors (s := s) (skipNewLines p).pos
    (p.tokens.size - (skipNewLines p).pos)
    (p := { skipNewLines p with pos := p.tokens.size,
                                findings := p.findings ++ [.unrecoverable s.phase.expected t] })
    (by show _ ≤ p.tokens.size; omega) hT.1.depth hT.1.base
  rw [hr]
  have hall : (p.tokens.toList.drop (skipNewLines p).pos).take (p.tokens.size - (skipNewLines p).pos) =
      (skipNewLines p).ahead := List.take_of_length_le (by simp)
  show r.findings = D
  rw [hm.findings, ← hrun]
  simp only [skipNewLines_tokens, hall, skipNewLines_findings, List.append_assoc, List.singleton_append]

theorem neutralize_fit_owes {p : Parser} {s : State} {t : Token} {i : Nat} (hT : Tracks toks D p s)
    (hup : upcoming p = some t) (hquiet : s.optional t = none)
    (hfit : s.phase.expected.accepts t.kind = false)
    (hfind : (skipNewLines p).ahead.findIdx? (s.phase.expected.accepts ·.kind) = some i) :
    (neutralize s.phase.expected p).Meets
      (fun target q => s.phase.expected.accepts target.kind = true ∧ q.params = p.params ∧
        ∃ s₁, Owes toks D q s₁ (s₁.accept target).2 (s₁.accept target).1 ∧ s₁.phase = s.phase ∧
          s₁.params = s.params)
      (fun _ => False) := by
  obtain ⟨hlt, hnl, hcons⟩ := upcoming_eq_some hup
  have hrun := hT.skipNewLines.2
  rw [hcons] at hrun
  -- the token that fits is the `j`-th after `t`
  have hfind' := hfind
  rw [hcons, List.findIdx?_cons, if_neg (by simp [hfit])] at hfind'
  obtain ⟨j, hj, rfl⟩ := Option.map_eq_some_iff.1 hfind'
  obtain ⟨htake, hdrop⟩ := misfit_split hj
  have hjlt := (List.findIdx?_eq_some_iff_getElem.1 hj).1
  have hlen : ({ skipNewLines p with pos := (skipNewLines p).pos + 1 } : Parser).ahead.length =
      p.tokens.size - ((skipNewLines p).pos + 1) := by simp [Parser.ahead]
  have htarget : (skipNewLines p).pos + (j + 1) < p.tokens.size := by omega
  have hd : ({ skipNewLines p with pos := (skipNewLines p).pos + 1 } : Parser).ahead.dropWhile
      (misfit s.phase.expected) = p.tokens.toList[(skipNewLines p).pos + (j + 1)] ::
        p.tokens.toList.drop ((skipNewLines p).pos + (j + 1) + 1) := by
    rw [hdrop, ← List.drop_eq_getElem_cons (by simpa using htarget)]
    show (p.tokens.toList.drop ((skipNewLines p).pos + 1)).drop j = _
    rw [List.drop_drop, Nat.add_assoc, Nat.add_comm 1 j]
  have hskipped : (p.tokens.toList.drop (skipNewLines p).pos).take (j + 1) =
      t :: ({ skipNewLines p with pos := (skipNewLines p).pos + 1 } : Parser).ahead.takeWhile
        (misfit s.phase.expected) := by
    rw [htake, ← List.take_succ_cons, ← hcons]
    rfl
  cases hs₁ : s.skipAll (t :: List.takeWhile (misfit s.phase.expected)
      ({ skipNewLines p with pos := (skipNewLines p).pos + 1 } : Parser).ahead) with
  | mk s₁ f₁ =>
  cases hs₂ : s₁.accept p.tokens.toList[(skipNewLines p).pos + (j + 1)] with
  | mk s₂ f₂ =>
  rw [run_skip _ hnl hquiet hfit hd hs₁ hs₂] at hrun
  rw [neutralize_of_fit hup hfind, bind_apply]
  obtain ⟨r, hr, hm⟩ := skipRange_mirrors (s := s) (skipNewLines p).pos (j + 1)
    (p := { skipNewLines p with findings := _ }) (by show _ ≤ p.tokens.size; omega) hT.1.depth hT.1.base
  rw [hr]
  obtain ⟨rtoks, rpos, rparams, rbrackets, rbase, rfindings⟩ := r
  cases hm.tokens
  dsimp only [skipNewLines_tokens] at hm
  rw [hskipped, hs₁] at hm
  show (tokenAt _ ⟨p.tokens, (skipNewLines p).pos + (j + 1) + 1, rparams, rbrackets, rbase,
    rfindings⟩).Meets _ _
  rw [tokenAt_of_lt (p := ⟨p.tokens, (skipNewLines p).pos + (j + 1) + 1, rparams, rbrackets, rbase,
    rfindings⟩) htarget]
  have hph : s₁.phase = s.phase := (congrArg (·.1.phase) hs₁).symm.trans (skipAll_phase _ _)
  have hps : s₁.params = s.params := (congrArg (·.1.params) hs₁).symm.trans (skipAll_params _ _)
  rw [Array.getElem_toList] at hs₂
  refine ⟨by simpa using accepts_of_dropWhile hd, hm.params, s₁,
    ⟨⟨hT.1.tokens, ?_, hm.depth, hm.base, ?_⟩, ?_⟩, hph, hps⟩
  · show _ + (j + 1) + 1 ≤ toks.size
    rw [← hT.1.tokens]
    omega
  · rw [hph, hps, hm.params]
    exact hT.1.params
  · rw [hs₂, hm.findings, ← hrun]
    simp [hskipped, Parser.ahead]

/-- `expect` where no optional move of the machine applies: the machine accepts the token at the
cursor, or recovers as the parser does, and the token the parser takes is due. At the end of the
input the machine ends early where the parser does, unless it stands between expressions. -/
theorem expect_owes {p : Parser} {s : State} (hT : Tracks toks D p s) (hquiet : Settled p s)
    (hitem : s.phase = .item → upcoming p ≠ none) :
    (expect s.phase.expected p).Meets
      (fun t q => s.phase.expected.accepts t.kind = true ∧ q.params = p.params ∧
        ∃ s₁, Owes toks D q s₁ (s₁.accept t).2 (s₁.accept t).1 ∧ s₁.phase = s.phase ∧
          s₁.params = s.params)
      (fun q => q.findings = D) := by
  have hT' := hT.skipNewLines
  unfold expect
  rw [bind_apply, peek_apply]
  cases hup : upcoming p with
  | none =>
    have hleft : (skipNewLines p).ahead = [] := by
      rw [ahead_skipNewLines]
      exact List.head?_eq_none_iff.1 hup
    have hrun := hT'.2
    rw [hleft, run_nil_of_ne _ fun h => hitem h hup] at hrun
    show (neutralize _ (skipNewLines p)).Meets _ _
    rw [neutralize_of_none (by rwa [upcoming_skipNewLines])]
    show (skipNewLines p).findings ++ _ = D
    rw [← hrun, skipNewLines_tokens, hT.1.tokens, Array.getLast?_toList]
  | some t =>
    dsimp only
    split
    · rename_i hfit
      have hmove := Move.of_accept_eq (hquiet t hup) hfit (Prod.eta _).symm
      exact ⟨hfit, rfl, s, hT.take hup hmove, rfl, rfl⟩
    · rename_i hfit
      have hup' : upcoming (skipNewLines p) = some t := by rwa [upcoming_skipNewLines]
      have hfit' : s.phase.expected.accepts t.kind = false := by simpa using hfit
      cases hfind : (skipNewLines (skipNewLines p)).ahead.findIdx?
          (s.phase.expected.accepts ·.kind) with
      | none =>
        exact (neutralize_unfit_tracks hT' hup' (hquiet t hup) hfit' hfind).mono
          (fun _ _ h => h.elim) (fun _ h => h)
      | some i =>
        exact (neutralize_fit_owes hT' hup' (hquiet t hup) hfit' hfind).mono
          (fun _ _ h => h) (fun _ h => h.elim)

/-! ### Procedures in step with the machine -/

/-- Started in step with the machine in a state meeting `pre`, `x` either ends the parse early
with all the machine's findings, or returns in step with the machine in a state meeting `post`. -/
def Sim (toks : Array Token) (D : List Finding) (pre : Parser → State → Prop) (x : Parse α)
    (post : α → Parser → State → Prop) : Prop :=
  ∀ p s, Tracks toks D p s → pre p s →
    (x p).Meets (fun a q => ∃ s', Tracks toks D q s' ∧ post a q s') (fun q => q.findings = D)

theorem Sim.bind {x : Parse α} {f : α → Parse β} {pre : Parser → State → Prop}
    {mid : α → Parser → State → Prop} {post : β → Parser → State → Prop}
    (hx : Sim toks D pre x mid) (hf : ∀ a, Sim toks D (mid a) (f a) post) :
    Sim toks D pre (x >>= f) post := by
  intro p s hT hpre
  apply meets_bind
  exact (hx p s hT hpre).mono (fun a q ⟨s', hT', hmid⟩ => hf a q s' hT' hmid) (fun _ h => h)

theorem Sim.mono {x : Parse α} {pre pre' : Parser → State → Prop}
    {post post' : α → Parser → State → Prop} (h : Sim toks D pre x post)
    (hpre : ∀ p s, pre' p s → pre p s) (hpost : ∀ a q s, post a q s → post' a q s) :
    Sim toks D pre' x post' := fun p s hT hp =>
  (h p s hT (hpre p s hp)).mono (fun a q ⟨s', hT', hq⟩ => ⟨s', hT', hpost a q s' hq⟩) (fun _ h => h)

theorem rounds_meets_of_moves {bound : Nat} {body : Parse (Option α)} {I : Parser → Prop}
    {ok : α → Parser → Prop} {early : Parser → Prop} (hmoves : Moves bound (· = none) body)
    (hI : ∀ p, I p → p.pos ≤ p.tokens.size ∧ p.tokens.size < bound)
    (hround : ∀ p, I p → (body p).Meets (fun r q => r.elim (I q) (ok · q)) early) :
    ∀ p, I p → (rounds body bound p).Meets ok early := by
  intro p hp
  refine rounds_meets (fun q hq => ?_) bound p hp (by have := hI p hp; omega)
  obtain ⟨hpos, hb⟩ := hI q hq
  refine ((hround q hq).and (hmoves q hpos hb)).mono (fun r q' ⟨h, hfollow, hstrict⟩ => ?_)
    (fun _ h => h.1)
  cases r with
  | none =>
    have hlt := hstrict rfl
    obtain ⟨htokens, -, hle⟩ := hfollow
    rw [htokens] at hle ⊢
    exact ⟨h, by omega⟩
  | some a => exact h

/-- The run lemma of a loop in step with the machine: each round keeps `inv` and moves the cursor
on, or ends the loop with `post`. -/
theorem Sim.rounds {bound : Nat} (hsize : toks.size < bound) {body : Parse (Option α)}
    {inv : Parser → State → Prop} {post : α → Parser → State → Prop}
    (hmoves : Moves bound (· = none) body)
    (hbody : Sim toks D inv body fun r q s => r.elim (inv q s) fun a => post a q s) :
    Sim toks D inv (rounds body bound) post := fun p s hT hinv =>
  rounds_meets_of_moves (I := fun q => ∃ s, Tracks toks D q s ∧ inv q s) hmoves
    (fun _ ⟨_, hT, _⟩ => ⟨by rw [hT.1.tokens]; exact hT.1.pos_le, by rw [hT.1.tokens]; exact hsize⟩)
    (fun q ⟨s, hT, hinv⟩ => (hbody q s hT hinv).mono
      (fun r _ ⟨s', hT', h⟩ => by cases r <;> exact ⟨s', hT', h⟩) (fun _ h => h))
    p ⟨s, hT, hinv⟩

/-- `expect` where the machine's acceptance only moves it on to the position `next`. -/
theorem expect_sim (e : Expected) (next : Phase) {P : Phase → Prop}
    (hP : ∀ ph, P ph → ph.expected = e ∧ ph ≠ .item)
    (hacc : ∀ (s : State) (t : Token), P s.phase → e.accepts t.kind = true →
      s.accept t = ({ s with phase := next }, [])) :
    Sim toks D (fun p s => P s.phase ∧ Settled p s) (expect e)
      (fun t _ s => s.phase = next ∧ e.accepts t.kind = true) := by
  intro p s hT ⟨hs, hquiet⟩
  obtain ⟨he, hitem⟩ := hP _ hs
  subst he
  refine (expect_owes hT hquiet (fun h => absurd h hitem)).mono
    (fun t q ⟨hfit, _, s₁, hO, hph₁, _⟩ => ?_) (fun _ h => h)
  rw [hacc s₁ t (hph₁ ▸ hs) hfit] at hO
  exact ⟨_, hO.tracks_phase (hO.1.params.resolve_left (hph₁ ▸ hitem)), rfl, hfit⟩

/-- What the parser does with the token `expect` takes stands in for the machine's acceptance. -/
theorem expect_bind_sim (e : Expected) {P : Phase → Prop} {k : Token → Parse β}
    {post : β → Parser → State → Prop} (hP : ∀ ph, P ph → ph.expected = e ∧ ph ≠ .item)
    (hk : ∀ t q s₁, P s₁.phase → q.params = s₁.params → e.accepts t.kind = true →
      Owes toks D q s₁ (s₁.accept t).2 (s₁.accept t).1 →
      (k t q).Meets (fun b r => ∃ s', Tracks toks D r s' ∧ post b r s') (fun r => r.findings = D)) :
    Sim toks D (fun p s => P s.phase ∧ Settled p s) (expect e >>= k) post := by
  intro p s hT ⟨hs, hquiet⟩
  obtain ⟨he, hitem⟩ := hP _ hs
  subst he
  apply meets_bind
  refine (expect_owes hT hquiet (fun h => absurd h hitem)).mono (fun t q h => ?_) (fun _ h => h)
  obtain ⟨hfit, _, s₁, hO, hph₁, _⟩ := h
  rw [← hph₁] at hs hitem
  exact hk t q s₁ hs (hO.1.params.resolve_left hitem) hfit hO

/-! ### Operands -/

theorem misplacedRound_sim (f : Bool) :
    Sim toks D (fun _ s => s.phase = .lead f) misplacedRound fun r q s => r.elim (s.phase = .lead f)
      fun _ => s.phase = .lead f ∧ ∀ t, upcoming q = some t → t.kind ≠ .closeBracket := by
  intro p s hT hph
  unfold misplacedRound
  rw [bind_apply, peek_apply]
  cases hup : upcoming p with
  | none => exact ⟨s, hT.skipNewLines, hph, by rw [upcoming_skipNewLines, hup]; nofun⟩
  | some t =>
    dsimp only
    split
    · rename_i hk
      have hO := hT.take hup (Move.of_optional
        (show s.optional t = some (s, [.unmatchedClose t, .misplacedClose t]) by
          simp [State.optional, hph, hk]))
      exact ⟨s, hO.tracks rfl rfl hT.1.depth hT.1.base hT.1.params (List.append_assoc _ _ _), hph⟩
    · rename_i hk
      refine ⟨s, hT.skipNewLines, hph, fun t' ht' => ?_⟩
      rw [upcoming_skipNewLines, hup, Option.some.injEq] at ht'
      exact ht' ▸ hk

theorem openRound_sim (f : Bool) :
    Sim toks D (fun q s => s.phase = .opening f ∨
        (s.phase = .lead f ∧ ∀ t, upcoming q = some t → t.kind ≠ .closeBracket))
      openRound fun r q s => r.elim (s.phase = .opening f ∨
          (s.phase = .lead f ∧ ∀ t, upcoming q = some t → t.kind ≠ .closeBracket))
        fun _ => (s.phase = .lead f ∨ s.phase = .opening f) ∧ Settled q s := by
  intro p s hT hph
  unfold openRound
  rw [bind_apply, peek_apply]
  cases hup : upcoming p with
  | none =>
    refine ⟨s, hT.skipNewLines, ?_, (Settled.of_none hup).skipNewLines⟩
    rcases hph with h | h
    · exact Or.inr h
    · exact Or.inl h.1
  | some t =>
    dsimp only
    split
    · rename_i hk
      have ho : s.optional t = some ({ s with phase := .opening f, depth := s.depth + 1 }, []) := by
        rcases hph with h | h <;> simp [State.optional, h, hk]
      have hps : p.params = s.params :=
        hT.1.params.resolve_left (by rcases hph with h | h <;> simp [h])
      have hO := hT.take hup (Move.of_optional ho)
      exact ⟨_, hO.tracks rfl rfl (by simp [hT.1.depth]) hT.1.base (Or.inr hps)
        (List.append_nil _).symm, Or.inl rfl⟩
    · rename_i hk
      refine ⟨s, hT.skipNewLines, ?_, (Settled.of_upcoming hup ?_).skipNewLines⟩
      · rcases hph with h | h
        · exact Or.inr h
        · exact Or.inl h.1
      rcases hph with h | h
      · exact State.optional_of_opening h hk
      · exact State.optional_of_lead h.1 (h.2 _ hup) hk

/-- After an operand, a `)` closes a group of the body while one is open above the expression's
own bracket. -/
theorem closeRound_sim (f : Bool) :
    Sim toks D (fun _ s => s.phase = .closing f) closeRound fun r q s => r.elim (s.phase = .closing f)
      fun _ => s.phase = .closing f ∧ Settled q s := by
  intro p s hT hph
  unfold closeRound
  rw [bind_apply, peek_apply]
  dsimp only
  rw [bind_apply]
  dsimp only [current]
  split
  · rename_i hclose
    obtain ⟨t, hup, hk⟩ := Option.map_eq_some_iff.1 hclose.1
    have hopen : s.base + 1 < s.depth := by
      have := hclose.2
      rwa [skipNewLines_base, skipNewLines_brackets, hT.1.depth, hT.1.base] at this
    have hO := hT.take hup (Move.of_optional
      (show s.optional t = some ({ s with depth := s.depth - 1 }, []) by
        simp [State.optional, hph, hk, hopen]))
    exact ⟨_, hO.tracks rfl rfl (by simp [hT.1.depth]) hT.1.base hT.1.params
      (List.append_nil _).symm, hph⟩
  · rename_i hclose
    refine ⟨s, hT.skipNewLines, hph, fun t ht =>
      State.optional_of_closing hph fun hk hopen => hclose ?_⟩
    rw [skipNewLines_base, skipNewLines_brackets, hT.1.depth, hT.1.base]
    rw [upcoming_skipNewLines] at ht
    exact ⟨by rw [ht, Option.map_some, hk], hopen⟩

theorem reference_apply (t : Token) {q : Parser} {s : State} (hp : q.params = s.params) :
    reference t q = .ok () { q with params := (s.refer t).1.params,
                                    findings := q.findings ++ (s.refer t).2 } := by
  obtain ⟨tokens, pos, params, brackets, base, findings⟩ := q
  simp only at hp
  subst hp
  simp only [reference, bind_apply, current, State.refer]
  split
  · simp [update]
  · rfl

/-- An operand: a name marks the parameters it names, or is reported. -/
theorem operand_sim (f : Bool) :
    Sim toks D (fun p s => (s.phase = .lead f ∨ s.phase = .opening f) ∧ Settled p s) operand
      (fun _ _ s => s.phase = .closing f) := by
  unfold operand
  refine expect_bind_sim .operand (P := fun ph => ph = .lead f ∨ ph = .opening f)
    (by rintro _ (rfl | rfl) <;> exact ⟨rfl, by simp⟩) fun t q s₁ hph hps _ hO => ?_
  rw [State.accept_operand hph] at hO
  split
  · rename_i hk
    rw [if_pos hk] at hO
    rw [reference_apply t hps]
    exact ⟨_, hO.tracks rfl rfl (by simp [hO.1.depth]) (by simp [hO.1.base]) (Or.inr rfl) rfl, rfl⟩
  · rename_i hk
    rw [if_neg hk] at hO
    exact ⟨_, hO.tracks_phase hps, rfl⟩

/-! ### The numbers and the end of an expression -/

theorem current_bind (k : Parser → Parse β) (p : Parser) : (current >>= k) p = k p p := rfl

theorem skipSign_sim (n : Nat) :
    Sim toks D (fun _ s => s.phase = .numbers (n + 1)) skipSign
      (fun _ q s => (s.phase = .numbers (n + 1) ∨ s.phase = .signed n) ∧ Settled q s) := by
  intro p s hT hph
  unfold skipSign
  rw [bind_apply, peek_apply]
  cases hup : upcoming p with
  | none => exact ⟨s, hT.skipNewLines, Or.inl hph, (Settled.of_none hup).skipNewLines⟩
  | some t =>
    dsimp only
    split
    · rename_i hk
      have ho : s.optional t = some ({ s with phase := .signed n }, []) := by
        rcases hk with hk | hk <;> simp [State.optional, hph, hk]
      have hps : p.params = s.params := hT.1.params.resolve_left (by simp [hph])
      have hO := hT.take hup (Move.of_optional ho)
      exact ⟨_, hO.tracks_phase hps, Or.inr rfl, fun _ _ => by simp [State.optional]⟩
    · rename_i hk
      exact ⟨s, hT.skipNewLines, Or.inl hph,
        (Settled.of_upcoming hup (State.optional_of_numbers hph hk)).skipNewLines⟩

theorem numberLoop_sim (n : Nat) :
    Sim toks D (fun _ s => s.phase = .numbers n) (numberLoop n)
      (fun _ _ s => s.phase = .numbers 0) := by
  induction n with
  | zero => exact fun _ s hT h => ⟨s, hT, h⟩
  | succ n ih =>
    have hnumber : Sim toks D _ (expect .number) _ := expect_sim .number (.numbers n)
      (P := fun ph => ph = .numbers (n + 1) ∨ ph = .signed n)
      (by rintro _ (rfl | rfl) <;> exact ⟨rfl, by simp⟩)
      (by rintro s t (h | h) _ <;> simp [State.accept, h])
    exact (skipSign_sim n).bind fun _ =>
      (hnumber.mono (fun _ _ h => h) (fun _ _ _ h => h.1)).bind fun _ => ih

/-- The numbers of an expression and its final `;`, where the parameters its body never named are
reported. -/
theorem numbers_sim :
    Sim toks D (fun _ s => s.phase = .numbers s.params.length) numbers
      (fun _ _ s => s.phase = .item) := by
  intro p s hT hph
  have hps : p.params = s.params := hT.1.params.resolve_left (by simp [hph])
  unfold numbers
  simp only [current_bind]
  rw [hps]
  apply meets_bind
  refine (numberLoop_sim _ p s hT hph).mono (fun _ q ⟨s', hT', hph'⟩ => ?_) (fun _ h => h)
  refine expect_bind_sim .endOfExpression (P := (· = .numbers 0))
    (by rintro _ rfl; exact ⟨rfl, by decide⟩) (fun t r s₁ hph₁ hpr _ hO => ?_) q s' hT'
    ⟨hph', fun _ _ => by simp [State.optional, hph']⟩
  rw [show s₁.accept t = ({ s₁ with phase := .item, params := [] }, s₁.unused) by
    simp [State.accept, hph₁]] at hO
  rw [current_bind]
  exact ⟨_, hO.tracks rfl rfl hO.1.depth hO.1.base (Or.inl rfl) (by simp [State.unused, hpr]),
    rfl⟩

/-! ### Loops, bodies and expressions -/

section Loops

variable {bound : Nat}

theorem misplacedRounds_sim (hsize : toks.size < bound) (f : Bool) :
    Sim toks D (fun _ s => s.phase = .lead f) (rounds misplacedRound bound)
      (fun _ q s => s.phase = .lead f ∧ ∀ t, upcoming q = some t → t.kind ≠ .closeBracket) :=
  Sim.rounds hsize misplacedRound_moves (misplacedRound_sim f)

theorem openRounds_sim (hsize : toks.size < bound) (f : Bool) :
    Sim toks D (fun q s => s.phase = .opening f ∨
        (s.phase = .lead f ∧ ∀ t, upcoming q = some t → t.kind ≠ .closeBracket))
      (rounds openRound bound)
      (fun _ q s => (s.phase = .lead f ∨ s.phase = .opening f) ∧ Settled q s) :=
  Sim.rounds hsize openRound_moves (openRound_sim f)

theorem closeRounds_sim (hsize : toks.size < bound) (f : Bool) :
    Sim toks D (fun _ s => s.phase = .closing f) (rounds closeRound bound)
      (fun _ q s => s.phase = .closing f ∧ Settled q s) :=
  Sim.rounds hsize closeRound_moves (closeRound_sim f)

theorem leadOperand_sim (hsize : toks.size < bound) (f : Bool) {x : Parse β}
    {post : β → Parser → State → Prop} (hx : Sim toks D (fun _ s => s.phase = .closing f) x post) :
    Sim toks D (fun _ s => s.phase = .lead f)
      (rounds misplacedRound bound >>= fun _ => rounds openRound bound >>= fun _ =>
        operand >>= fun _ => x)
      post :=
  (misplacedRounds_sim hsize f).bind fun _ =>
    ((openRounds_sim hsize f).mono (fun _ _ h => Or.inr h) (fun _ _ _ h => h)).bind fun _ =>
      (operand_sim f).bind fun _ => hx

/-- A later operand, and what follows it: an operator, or the `)` that ends the body. -/
theorem operationRound_sim (hsize : toks.size < bound) :
    Sim toks D (fun _ s => s.phase = .lead false) (operationRound bound)
      fun r _ s => r.elim (s.phase = .lead false) fun _ => s.phase = .item := by
  unfold operationRound
  refine leadOperand_sim hsize false ((closeRounds_sim hsize false).bind fun _ =>
    expect_bind_sim .operatorOrClose (P := (· = .closing false))
      (by rintro _ rfl; exact ⟨rfl, by decide⟩) fun t q s₁ hph₁ hps _ hO => ?_)
  rw [State.accept_closing hph₁] at hO
  split
  · rename_i hk
    rw [if_pos hk] at hO
    -- the body ends: the expression's bracket closes and the numbers follow
    obtain ⟨r, hr, hm⟩ := closeBracket_mirrors t hO.1.depth hO.1.base
    have hT' := hO.mirrors ⟨hm.tokens, hm.pos, hm.params, hm.depth, hm.base, hm.findings⟩
      (Or.inr (by simp [hps]))
    apply meets_bind
    rw [hr]
    exact meets_bind ((numbers_sim r _ hT' rfl).mono (fun _ _ h => h) (fun _ h => h))
  · rename_i hk
    rw [if_neg hk] at hO
    exact ⟨_, hO.tracks_phase hps, rfl⟩

theorem operation_sim (hsize : toks.size < bound) :
    Sim toks D (fun _ s => s.phase = .closing true) (operation bound)
      (fun _ _ s => s.phase = .item) := by
  have hoperator : Sim toks D _ (expect .operator) _ := expect_sim .operator (.lead false)
    (P := (· = .closing true)) (by rintro _ rfl; exact ⟨rfl, by decide⟩)
    fun s t h ha => by
      rw [State.accept_closing h, if_neg fun hk => absurd (hk ▸ ha) (by decide)]
  exact (closeRounds_sim hsize true).bind fun _ =>
    (hoperator.mono (fun _ _ h => h) (fun _ _ _ h => h.1)).bind fun _ =>
      Sim.rounds hsize operationRound_moves (operationRound_sim hsize)

theorem firstOperand_sim (hsize : toks.size < bound) :
    Sim toks D (fun _ s => s.phase = .lead true) (firstOperand bound) (fun _ _ s => s.phase = .item) :=
  leadOperand_sim hsize true (operation_sim hsize)

theorem arrow_sim (hsize : toks.size < bound) :
    Sim toks D (fun _ s => s.phase = .arrow) (arrow bound) (fun _ _ s => s.phase = .item) := by
  have harrow : Sim toks D _ (expect .arrow) _ :=
    expect_sim .arrow (.lead true) (P := (· = .arrow))
    (by rintro _ rfl; exact ⟨rfl, by decide⟩) fun s t h _ => by simp [State.accept, h]
  exact (harrow.mono (fun _ _ h => ⟨h, fun _ _ => by simp [State.optional, h]⟩)
    (fun _ _ _ h => h.1)).bind fun _ => firstOperand_sim hsize

/-- A parameter is recorded; a `-` ends the parameters, and the arrow and the body follow. -/
theorem paramRound_sim (hsize : toks.size < bound) :
    Sim toks D (fun _ s => s.phase = .params) (paramRound bound)
      fun r _ s => r.elim (s.phase = .params) fun _ => s.phase = .item := by
  unfold paramRound
  refine (expect_bind_sim .parameter (P := (· = .params)) (by rintro _ rfl; exact ⟨rfl, by decide⟩)
    fun t q s₁ hph₁ hps _ hO => ?_).mono
      (fun _ _ h => ⟨h, fun _ _ => by simp [State.optional, h]⟩) (fun _ _ _ h => h)
  rw [State.accept_params hph₁] at hO
  split
  · rename_i hk
    rw [if_neg (by simpa using hk)] at hO
    exact meets_bind ((arrow_sim hsize q _ (hO.tracks_phase hps) rfl).mono (fun _ _ h => h)
      (fun _ h => h))
  · rename_i hk
    rw [if_pos (by simpa using hk)] at hO
    exact ⟨_, hO.tracks rfl rfl hO.1.depth hO.1.base (Or.inr (by simp [hps]))
      (List.append_nil _).symm, hph₁⟩

theorem expression_sim (hsize : toks.size < bound) :
    Sim toks D (fun p s => s.phase = .item ∧
        ∃ t, upcoming p = some t ∧ t.kind ≠ .endOfExpression ∧ t.kind ≠ .closeBracket)
      (expression bound) (fun _ _ s => s.phase = .item) := by
  intro p s hT hpre
  obtain ⟨hph, t, hup, he, hc⟩ := hpre
  have hexp : s.phase.expected = .openBracket := by rw [hph]; rfl
  unfold expression
  apply meets_bind
  rw [← hexp]
  have hquiet : Settled p s := .of_upcoming hup (State.optional_of_item hph he hc)
  refine (expect_owes hT hquiet (fun _ => by simp [hup])).mono (fun o q h => ?_) (fun _ h => h)
  obtain ⟨_, _, s₁, hO, hph₁, _⟩ := h
  rw [hph] at hph₁
  have hacc : s₁.accept o =
      ({ s₁ with phase := .lambda, params := [], base := s₁.depth, depth := s₁.depth + 1 }, []) := by
    simp [State.accept, hph₁]
  rw [hacc] at hO
  -- the expression's own bracket opens above everything open so far
  have hT' : Tracks toks D
      { q with params := [], base := q.brackets.length, brackets := q.brackets ++ [o.start] } _ :=
    hO.tracks rfl rfl (by simp [hO.1.depth]) hO.1.depth (Or.inr rfl) (List.append_nil _).symm
  have hlambda : Sim toks D _ (expect .lambda) _ :=
    expect_sim .lambda .params (P := (· = .lambda))
    (by rintro _ rfl; exact ⟨rfl, by decide⟩) fun s t h _ => by simp [State.accept, h]
  exact ((hlambda.mono (fun _ _ h => h) (fun _ _ _ h => h.1)).bind fun _ =>
    Sim.rounds hsize paramRound_moves (paramRound_sim hsize)) _ _ hT'
      ⟨rfl, fun _ _ => by simp [State.optional]⟩

/-- Between expressions `;` is passed over and `)` closes a bracket, as in the machine; an
expression that ends early ends the program with all the machine's findings. -/
theorem programRound_meets (hsize : toks.size < bound) {p : Parser} {s : State}
    (hT : Tracks toks D p s) (hph : s.phase = .item) :
    (programRound bound p).Meets
      (fun r q => r.elim (∃ s, Tracks toks D q s ∧ s.phase = .item) fun _ => q.findings = D)
      (fun q => q.findings = D) := by
  unfold programRound
  rw [bind_apply, peek_apply]
  cases hup : upcoming p with
  | none =>
    have hleft : (skipNewLines p).ahead = [] := by
      rw [ahead_skipNewLines]
      exact List.head?_eq_none_iff.1 hup
    have hrun := hT.skipNewLines.2
    rw [hleft, run_nil_item _ hph, List.append_nil] at hrun
    exact hrun
  | some t =>
    dsimp only
    cases hk : t.kind
    case endOfExpression =>
      have hO := hT.take hup (Move.of_optional
        (show s.optional t = some (s, []) by simp [State.optional, hph, hk]))
      exact ⟨s, hO.tracks rfl rfl hT.1.depth hT.1.base (Or.inl hph) (List.append_nil _).symm, hph⟩
    case closeBracket =>
      have hO := hT.take hup (Move.of_optional
        (show s.optional t = some ((s.closeBracket t).1, (s.closeBracket t).2) by
          simp [State.optional, hph, hk]))
      obtain ⟨r, hr, hm⟩ := closeBracket_mirrors t hO.1.depth hO.1.base
      show ((closeBracket t >>= fun _ => pure none)
        { skipNewLines p with pos := (skipNewLines p).pos + 1 }).Meets _ _
      rw [bind_apply, hr]
      exact ⟨_, hO.mirrors hm (Or.inl (by simp [hph])), by simp [hph]⟩
    all_goals
      have hx := expression_sim hsize (skipNewLines p) s hT.skipNewLines
        ⟨hph, t, by rwa [upcoming_skipNewLines], by simp [hk], by simp [hk]⟩
      dsimp only
      rw [bind_apply]
      unfold attempt
      cases he : expression bound (skipNewLines p) with
      | ok a q => rw [he] at hx; exact hx
      | early q => rw [he] at hx; exact hx
      | fault f => rw [he] at hx; exact hx.elim

theorem program_meets (hsize : toks.size < bound) {p : Parser} {s : State}
    (hT : Tracks toks D p s) (hph : s.phase = .item) :
    (program bound p).Meets (fun _ q => q.findings = D) (fun q => q.findings = D) :=
  rounds_meets_of_moves (I := fun q => ∃ s, Tracks toks D q s ∧ s.phase = .item) programRound_moves
    (fun _ ⟨_, hT, _⟩ => ⟨by rw [hT.1.tokens]; exact hT.1.pos_le, by rw [hT.1.tokens]; exact hsize⟩)
    (fun _ ⟨_, hT, hph⟩ => programRound_meets hsize hT hph) p ⟨s, hT, hph⟩

end Loops

/-- With a bound above the number of tokens, the parser runs to its end and reports the checker's
diagnostics. -/
theorem parseWithin_eq_parse {bound : Nat} {tokens : List Token}
    (h : (tokens.filter (·.kind != .whitespace)).length < bound) :
    parseWithin bound tokens = .ok (parse tokens) := by
  have hT : Tracks (tokens.filter (·.kind != .whitespace)).toArray (findings tokens) (Parser.new tokens)
      State.initial :=
    ⟨⟨rfl, Nat.zero_le _, rfl, rfl, Or.inl rfl⟩, by simp [Parser.new, Parser.ahead, findings_eq]⟩
  have hrun := program_meets (by simpa using h) hT rfl
  unfold parseWithin
  cases hp : program bound (Parser.new tokens) with
  | ok _ q =>
    rw [hp] at hrun
    show Except.ok (q.findings.map _) = _
    rw [hrun]
    rfl
  | early q =>
    rw [hp] at hrun
    show Except.ok (q.findings.map _) = _
    rw [hrun]
    rfl
  | fault f => rw [hp] at hrun; exact hrun.elim

/-- The parser's cursor only moves forward and stays within the tokens, and no read, slice or
insertion is out of range: every `expect` and every `expression` that returns has moved the
cursor on, and every round of every loop either moves it on or ends its loop. So a bound above the
number of tokens is never reached, and the parser then reports the checker's diagnostics. -/
theorem cursor_moves_forward (bound : Nat) :
    (∀ e, Moves bound (fun _ => True) (expect e)) ∧ Moves bound (fun _ => True) (expression bound) ∧
      Moves bound (· = none) (programRound bound) ∧ Moves bound (· = none) (paramRound bound) ∧
      Moves bound (· = none) (operationRound bound) ∧ Moves bound (· = none) openRound ∧
      Moves bound (· = none) closeRound ∧ Moves bound (· = none) misplacedRound ∧
      Moves bound (fun _ => False) (program bound) ∧
      ∀ tokens : List Token, (tokens.filter (·.kind != .whitespace)).length < bound →
        parseWithin bound tokens = .ok (parse tokens) :=
  ⟨expect_moves, expression_moves, programRound_moves, paramRound_moves, operationRound_moves,
    openRound_moves, closeRound_moves, misplacedRound_moves, program_moves,
    fun _ h => parseWithin_eq_parse h⟩

theorem parseWithin_unknownNameProgram :
    (unknownNameProgram.filter (·.kind != .whitespace)).length < 40 ∧
      parseWithin 40 unknownNameProgram = .ok (parse unknownNameProgram) :=
  ⟨by decide, (cursor_moves_forward 40).2.2.2.2.2.2.2.2.2 _ (by decide)⟩

end Descent

end LambdaCheck
