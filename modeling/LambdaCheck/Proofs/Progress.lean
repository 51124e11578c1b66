import LambdaCheck.Syntax.Descent
import LambdaCheck.Proofs.Reads

/-!
The parser's cursor only moves forward, never past the end of the tokens, and no step of the
parser faults: every read of the token array, every slice of it and every insertion into the
bracket stack is in range (`Descent.Moves`). `expect` moves the cursor on whenever it returns a
token, and so does every `expression` that returns; every round of every loop either moves the
cursor on or ends its loop, so that no loop goes round more often than there are tokens left, and
a bound above the number of tokens is never reached (`Descent.Moves.rounds`).
-/

namespace LambdaCheck

namespace Descent

variable {α β : Type}

theorem bind_apply (x : Parse α) (f : α → Parse β) (p : Parser) :
    (x >>= f) p = match x p with
      | .ok a q => f a q
      | .early q => .early q
      | .fault e => .fault e := rfl

@[simp] theorem pure_apply (a : α) (p : Parser) : (pure a : Parse α) p = .ok a p := rfl

namespace Step

/-- `r` is a result satisfying `ok` or an early end satisfying `early`, and no fault. -/
def Meets (ok : α → Parser → Prop) (early : Parser → Prop) : Step α → Prop
  | .ok a q => ok a q
  | .early q => early q
  | .fault _ => False

theorem Meets.mono {r : Step α} {ok ok' : α → Parser → Prop} {early early' : Parser → Prop}
    (h : r.Meets ok early) (hok : ∀ a q, ok a q → ok' a q) (hearly : ∀ q, early q → early' q) :
    r.Meets ok' early' := by
  cases r with
  | ok a q => exact hok a q h
  | early q => exact hearly q h
  | fault e => exact h.elim

theorem Meets.and {r : Step α} {ok ok' : α → Parser → Prop} {early early' : Parser → Prop}
    (h : r.Meets ok early) (h' : r.Meets ok' early') :
    r.Meets (fun a q => ok a q ∧ ok' a q) (fun q => early q ∧ early' q) := by
  cases r with
  | ok a q => exact ⟨h, h'⟩
  | early q => exact ⟨h, h'⟩
  | fault e => exact h.elim

end Step

theorem meets_bind {x : Parse α} {f : α → Parse β} {p : Parser} {ok : β → Parser → Prop}
    {early : Parser → Prop} (h : (x p).Meets (fun a q => (f a q).Meets ok early) early) :
    ((x >>= f) p).Meets ok early := by
  rw [bind_apply]
  cases hx : x p with
  | ok a q => rw [hx] at h; exact h
  | early q => rw [hx] at h; exact h
  | fault e => rw [hx] at h; exact h.elim

/-- The run lemma of a loop: where every round from a state satisfying `I` either ends the loop
as `ok` asks or goes round again from a state satisfying `I` with fewer tokens left, a bound
above the tokens left is never reached. -/
theorem rounds_meets {body : Parse (Option α)} {I : Parser → Prop} {ok : α → Parser → Prop}
    {early : Parser → Prop}
    (hround : ∀ p, I p → (body p).Meets
      (fun r q => match r with
        | none => I q ∧ q.tokens.size - q.pos < p.tokens.size - p.pos
        | some a => ok a q) early) :
    ∀ bound p, I p → p.tokens.size - p.pos < bound → (rounds body bound p).Meets ok early := by
  intro bound
  induction bound with
  | zero => exact fun p _ h => absurd h (Nat.not_lt_zero _)
  | succ bound ih =>
    intro p hp hlt
    apply meets_bind
    refine (hround p hp).mono (fun r q hq => ?_) (fun _ h => h)
    cases r with
    | none => exact ih q hq.1 (by omega)
    | some a => exact hq

/-- `q` comes after `p`: the same tokens, and a cursor neither further back nor past the end. -/
def Parser.Follows (p q : Parser) : Prop :=
  q.tokens = p.tokens ∧ p.pos ≤ q.pos ∧ q.pos ≤ q.tokens.size

theorem Parser.Follows.refl {p : Parser} (h : p.pos ≤ p.tokens.size) : p.Follows p :=
  ⟨rfl, Nat.le_refl _, h⟩

theorem Parser.Follows.trans {p q r : Parser} (h₁ : p.Follows q) (h₂ : q.Follows r) :
    p.Follows r :=
  ⟨h₂.1.trans h₁.1, Nat.le_trans h₁.2.1 h₂.2.1, h₂.2.2⟩

/-- `x` runs safely on every state with fewer than `bound` tokens and its cursor within them: it
never faults, and it leaves the tokens as they are and the cursor neither further back nor past
the end, whether it returns or ends the parse; when it returns a result satisfying `strict`, the
cursor has moved on. -/
def Moves (bound : Nat) (strict : α → Prop) (x : Parse α) : Prop :=
  ∀ p : Parser, p.pos ≤ p.tokens.size → p.tokens.size < bound →
    (x p).Meets (fun a q => p.Follows q ∧ (strict a → p.pos < q.pos)) p.Follows

variable {bound : Nat}

theorem Moves.weaken {x : Parse α} {s s' : α → Prop} (h : Moves bound s x)
    (hs : ∀ a, s' a → s a) : Moves bound s' x := fun p hp hb =>
  (h p hp hb).mono (fun a _ hq => ⟨hq.1, fun ha => hq.2 (hs a ha)⟩) (fun _ h => h)

/-- A sequence moves the cursor on when its first step does, or its second. -/
theorem Moves.bind {x : Parse α} {f : α → Parse β} {sx : α → Prop} {s : β → Prop}
    (hx : Moves bound sx x) (hf : ∀ a, Moves bound (fun b => s b ∧ ¬ sx a) (f a)) :
    Moves bound s (x >>= f) := by
  intro p hp hb
  apply meets_bind
  refine (hx p hp hb).mono (fun a q hq => ?_) (fun _ h => h)
  refine (hf a q hq.1.2.2 (hq.1.1 ▸ hb)).mono (fun b r hr => ⟨hq.1.trans hr.1, fun hs => ?_⟩)
    (fun _ h => hq.1.trans h)
  by_cases ha : sx a
  · exact Nat.lt_of_lt_of_le (hq.2 ha) hr.1.2.1
  · exact Nat.lt_of_le_of_lt hq.1.2.1 (hr.2 ⟨hs, ha⟩)

theorem Moves.safe {x : Parse α} {s : α → Prop} (h : Moves bound s x) :
    Moves bound (fun _ => False) x :=
  h.weaken fun _ h => h.elim

theorem Moves.bind_safe {x : Parse α} {f : α → Parse β} {s : β → Prop}
    (hx : Moves bound (fun _ => False) x) (hf : ∀ a, Moves bound s (f a)) :
    Moves bound s (x >>= f) :=
  hx.bind fun a => (hf a).weaken fun _ h => h.1

theorem Moves.bind_advancing {x : Parse α} {f : α → Parse β} {s : β → Prop}
    (hx : Moves bound (fun _ => True) x) (hf : ∀ a, Moves bound (fun _ => False) (f a)) :
    Moves bound s (x >>= f) :=
  hx.bind fun a => (hf a).weaken fun _ h => h.2 trivial

theorem Moves.after {x : Parse α} {s : α → Prop} (h : Moves bound s x) {p q : Parser}
    (hpq : p.Follows q) (hb : p.tokens.size < bound) :
    (x q).Meets (fun a r => p.Follows r ∧ (s a → p.pos < r.pos)) p.Follows :=
  (h q hpq.2.2 (hpq.1 ▸ hb)).mono
    (fun _ _ hr => ⟨hpq.trans hr.1, fun ha => Nat.lt_of_le_of_lt hpq.2.1 (hr.2 ha)⟩)
    (fun _ hr => hpq.trans hr)

theorem Moves.rounds {body : Parse (Option α)} (h : Moves bound (· = none) body) :
    Moves bound (fun _ => False) (rounds body bound) := by
  intro p hp hb
  refine rounds_meets (I := p.Follows) (fun q hq => ?_) bound p (.refl hp) (by omega)
  refine (h q hq.2.2 (hq.1 ▸ hb)).mono (fun r q' hr => ?_) (fun _ h => hq.trans h)
  cases r with
  | none =>
    have hlt := hr.2 rfl
    have htokens := hr.1.1
    have hle := hr.1.2.2
    rw [htokens] at hle ⊢
    exact ⟨hq.trans hr.1, by omega⟩
  | some a => exact ⟨hq.trans hr.1, False.elim⟩

theorem Moves.of_keeps {x : Parse α}
    (h : ∀ p, ∃ a q, x p = .ok a q ∧ q.tokens = p.tokens ∧ q.pos = p.pos) :
    Moves bound (fun _ => False) x := by
  intro p hp _
  obtain ⟨a, q, hx, ht, hpos⟩ := h p
  rw [hx]
  exact ⟨⟨ht, Nat.le_of_eq hpos.symm, by rw [ht, hpos]; exact hp⟩, False.elim⟩

/-! ### The primitives -/

/-- The tokens from the cursor on. -/
def Parser.ahead (p : Parser) : List Token := p.tokens.toList.drop p.pos

/-- The token at the cursor once line feeds are passed over. -/
def upcoming (p : Parser) : Option Token :=
  (p.ahead.dropWhile (·.kind == .newLine)).head?

@[simp] theorem skipNewLines_tokens (p : Parser) : (skipNewLines p).tokens = p.tokens := rfl

@[simp] theorem skipNewLines_findings (p : Parser) : (skipNewLines p).findings = p.findings := rfl

@[simp] theorem skipNewLines_params (p : Parser) : (skipNewLines p).params = p.params := rfl

@[simp] theorem skipNewLines_brackets (p : Parser) : (skipNewLines p).brackets = p.brackets := rfl

@[simp] theorem skipNewLines_base (p : Parser) : (skipNewLines p).base = p.base := rfl

theorem ahead_skipNewLines (p : Parser) :
    (skipNewLines p).ahead = p.ahead.dropWhile (·.kind == .newLine) := by
  have hsplit := congrArg (List.drop (p.ahead.takeWhile (·.kind == .newLine)).length)
    (List.takeWhile_append_dropWhile (p := (·.kind == .newLine)) (l := p.ahead))
  rw [List.drop_left, Parser.ahead, List.drop_drop] at hsplit
  exact hsplit.symm

theorem peek_apply (p : Parser) : peek p = .ok (upcoming p) (skipNewLines p) := by
  show Step.ok (skipNewLines p).tokens[(skipNewLines p).pos]? _ = _
  rw [← Array.getElem?_toList, ← List.head?_drop]
  show Step.ok (skipNewLines p).ahead.head? _ = _
  rw [ahead_skipNewLines]
  rfl

theorem skipNewLines_follows {p : Parser} (h : p.pos ≤ p.tokens.size) :
    p.Follows (skipNewLines p) := by
  have hle : (p.ahead.takeWhile (·.kind == .newLine)).length ≤ p.tokens.size - p.pos :=
    calc _ ≤ p.ahead.length := (List.takeWhile_sublist _).length_le
      _ = p.tokens.size - p.pos := by simp [Parser.ahead]
  have hpos : (skipNewLines p).pos = p.pos + (p.ahead.takeWhile (·.kind == .newLine)).length := rfl
  exact ⟨rfl, Nat.le_add_right _ _, by rw [hpos, skipNewLines_tokens]; omega⟩

theorem dropWhile_dropWhile {α : Type} (f : α → Bool) (l : List α) :
    (l.dropWhile f).dropWhile f = l.dropWhile f := by
  induction l with
  | nil => rfl
  | cons a l ih => by_cases h : f a <;> simp [h, ih]

theorem takeWhile_dropWhile {α : Type} (f : α → Bool) (l : List α) :
    (l.dropWhile f).takeWhile f = [] := by
  induction l with
  | nil => rfl
  | cons a l ih => by_cases h : f a <;> simp [h, ih]

theorem skipNewLines_skipNewLines (p : Parser) : skipNewLines (skipNewLines p) = skipNewLines p := by
  have h : ((skipNewLines p).tokens.toList.drop (skipNewLines p).pos).takeWhile
      (fun t : Token => t.kind == .newLine) = [] := by
    show (skipNewLines p).ahead.takeWhile _ = []
    rw [ahead_skipNewLines, takeWhile_dropWhile]
  conv => lhs; rw [skipNewLines]
  rw [h]
  rfl

theorem upcoming_skipNewLines (p : Parser) : upcoming (skipNewLines p) = upcoming p := by
  rw [upcoming, ahead_skipNewLines, dropWhile_dropWhile]
  rfl

theorem upcoming_eq_some {p : Parser} {t : Token} (h : upcoming p = some t) :
    (skipNewLines p).pos < p.tokens.size ∧ t.kind ≠ .newLine ∧
      (skipNewLines p).ahead = t :: { skipNewLines p with pos := (skipNewLines p).pos + 1 }.ahead := by
  rw [upcoming, ← ahead_skipNewLines] at h
  have hlt : (skipNewLines p).pos < p.tokens.size := by
    rw [← Array.length_toList]
    exact Nat.lt_of_not_le fun hle => by
      rw [Parser.ahead, skipNewLines_tokens, List.drop_eq_nil_of_le hle] at h
      cases h
  have hcons : (skipNewLines p).ahead =
      p.tokens.toList[(skipNewLines p).pos] ::
        { skipNewLines p with pos := (skipNewLines p).pos + 1 }.ahead :=
    List.drop_eq_getElem_cons (by simpa using hlt)
  rw [hcons, List.head?_cons, Option.some.injEq] at h
  subst h
  refine ⟨hlt, fun hnl => ?_, hcons⟩
  have hfirst := List.head_dropWhile_not (·.kind == .newLine) (l := p.ahead)
    (by rw [← ahead_skipNewLines, hcons]; exact List.cons_ne_nil _ _)
  simp only [← ahead_skipNewLines, hcons, List.head_cons, hnl, beq_self_eq_true] at hfirst
  exact Bool.noConfusion hfirst

/-- `q` is `p` after a step on the brackets and the findings alone, the one the machine takes
to `s'`, reporting `fs`. -/
structure Mirrors (p q : Parser) (s' : State) (fs : List Finding) : Prop where
  tokens : q.tokens = p.tokens
  pos : q.pos = p.pos
  params : q.params = p.params
  depth : q.brackets.length = s'.depth
  base : q.base = s'.base
  findings : q.findings = p.findings ++ fs

theorem closeBracket_apply (t : Token) (p : Parser) :
    closeBracket t p = .ok () { p with brackets := p.brackets.dropLast,
                                       findings := if p.brackets = [] then p.findings ++ [.unmatchedClose t]
                                         else p.findings } := by
  show (if p.brackets.getLast?.isNone = true then report (.unmatchedClose t) else pure ())
    { p with brackets := p.brackets.dropLast } = _
  by_cases h : p.brackets = []
  · simp [h, report, update]
  · simp [h]

theorem closeBracket_mirrors (t : Token) {p : Parser} {s : State}
    (hd : p.brackets.length = s.depth) (hb : p.base = s.base) :
    ∃ q, closeBracket t p = .ok () q ∧ Mirrors p q (s.closeBracket t).1 (s.closeBracket t).2 := by
  refine ⟨_, closeBracket_apply t p, ?_⟩
  obtain ⟨ph, d, b, ps⟩ := s
  simp only at hd hb
  cases d with
  | zero =>
    have hnil : p.brackets = [] := List.eq_nil_of_length_eq_zero hd
    exact ⟨rfl, rfl, rfl, by simp [hnil, State.closeBracket], hb, by simp [hnil, State.closeBracket]⟩
  | succ d =>
    have hne : p.brackets ≠ [] := fun h => by simp [h] at hd
    exact ⟨rfl, rfl, rfl, by simp [hd, State.closeBracket], hb, by simp [hne, State.closeBracket]⟩

theorem Mirrors.trans {p q r : Parser} {s₁ s₂ : State} {f₁ f₂ : List Finding}
    (h₁ : Mirrors p q s₁ f₁) (h₂ : Mirrors q r s₂ f₂) : Mirrors p r s₂ (f₁ ++ f₂) :=
  ⟨h₂.tokens.trans h₁.tokens, h₂.pos.trans h₁.pos, h₂.params.trans h₁.params, h₂.depth, h₂.base,
    by rw [h₂.findings, h₁.findings, List.append_assoc]⟩

theorem tokenAt_of_lt {i : Nat} {p : Parser} (h : i < p.tokens.size) :
    tokenAt i p = .ok p.tokens[i] p := dif_pos h

theorem skipBracket_mirrors (t : Token) {p : Parser} {s : State}
    (hd : p.brackets.length = s.depth) (hb : p.base = s.base) :
    ∃ q, skipBracket t p = .ok () q ∧ Mirrors p q (s.skipBracket t).1 (s.skipBracket t).2 := by
  unfold skipBracket State.skipBracket
  cases hk : t.kind
  case openBracket =>
    -- the bracket is filed at a slot no higher than the stack
    have hslot := Nat.min_le_right p.base p.brackets.length
    simp only [bind_apply, current, insertBracket, if_pos hslot, update]
    refine ⟨_, rfl, rfl, rfl, rfl, ?_, ?_, by simp⟩
    · show (p.brackets.insertIdx _ t.start).length = _
      rw [List.length_insertIdx_of_le_length hslot, hd]
    · simp [hd, hb]
  case closeBracket => exact closeBracket_mirrors t hd hb
  all_goals exact ⟨p, rfl, rfl, rfl, rfl, hd, hb, by simp⟩

theorem skipRange_mirrors (lo n : Nat) {p : Parser} {s : State} (h : lo + n ≤ p.tokens.size)
    (hd : p.brackets.length = s.depth) (hb : p.base = s.base) :
    ∃ q, skipRange lo n p = .ok () q ∧
      Mirrors p q (s.skipAll ((p.tokens.toList.drop lo).take n)).1
        (s.skipAll ((p.tokens.toList.drop lo).take n)).2 := by
  induction n generalizing lo p s with
  | zero => exact ⟨p, rfl, rfl, rfl, rfl, hd, hb, by simp [State.skipAll]⟩
  | succ n ih =>
    have hlt : lo < p.tokens.size := by omega
    obtain ⟨q, hq, hm⟩ := skipBracket_mirrors p.tokens[lo] hd hb
    obtain ⟨r, hr, hm'⟩ := ih (lo + 1) (by rw [hm.tokens]; omega) hm.depth hm.base
    refine ⟨r, ?_, ?_⟩
    · show (tokenAt lo >>= fun t => skipBracket t >>= fun _ => skipRange (lo + 1) n) p = _
      rw [bind_apply, tokenAt_of_lt hlt]
      show (skipBracket p.tokens[lo] >>= fun _ => skipRange (lo + 1) n) p = _
      rw [bind_apply, hq]
      exact hr
    · have hcons : (p.tokens.toList.drop lo).take (n + 1) =
          p.tokens[lo] :: (p.tokens.toList.drop (lo + 1)).take n := by
        rw [List.drop_eq_getElem_cons (by simpa using hlt), List.take_succ_cons,
          Array.getElem_toList]
      rw [hm.tokens] at hm'
      rw [hcons]
      exact hm.trans hm'

/-- Recovery with nothing left at the cursor: an early end, reported at the last token. -/
theorem neutralize_of_none {e : Expected} {p : Parser} (h : upcoming p = none) :
    neutralize e p =
      .early { skipNewLines p with findings := p.findings ++ [.earlyEnd e p.tokens.back?] } := by
  simp only [neutralize, bind_apply, peek_apply, h, current, report, update, endEarly,
    skipNewLines_findings, skipNewLines_tokens]

/-- Recovery with a token at the cursor and none after it that fits: the token is reported, the
cursor goes to the end, and the brackets of what is left are filed. -/
theorem neutralize_of_unfit {e : Expected} {p : Parser} {found : Token} (h : upcoming p = some found)
    (hnone : (skipNewLines p).ahead.findIdx? (e.accepts ·.kind) = none) :
    neutralize e p = (skipRange (skipNewLines p).pos (p.tokens.size - (skipNewLines p).pos) >>=
      fun _ => endEarly) { skipNewLines p with pos := p.tokens.size,
                                               findings := p.findings ++ [.unrecoverable e found] } := by
  have hlt := (upcoming_eq_some h).1
  have htake : (p.tokens.toList.drop (skipNewLines p).pos).take (p.tokens.size - (skipNewLines p).pos) =
      (skipNewLines p).ahead := List.take_of_length_le (by simp)
  simp only [neutralize, bind_apply, peek_apply, h, current, slice, if_pos (And.intro (Nat.le_of_lt hlt)
    (Nat.le_refl _)), skipNewLines_tokens, htake, hnone, report, update]
  rfl

/-- Recovery with a token at the cursor and one after it that fits: the run up to it is reported,
its brackets are filed, and the token that fits is taken. -/
theorem neutralize_of_fit {e : Expected} {p : Parser} {found : Token} {i : Nat}
    (h : upcoming p = some found)
    (hsome : (skipNewLines p).ahead.findIdx? (e.accepts ·.kind) = some i) :
    neutralize e p = (skipRange (skipNewLines p).pos i >>=
      fun _ => update (fun r => { r with pos := (skipNewLines p).pos + i + 1 }) >>=
      fun _ => tokenAt ((skipNewLines p).pos + i))
        { skipNewLines p with findings := p.findings ++
          [.skipped e found ((((skipNewLines p).ahead.take i).drop 1).filter (·.kind != .newLine))] } := by
  have hlt := (upcoming_eq_some h).1
  obtain ⟨hi, -⟩ := List.findIdx?_eq_some_iff_getElem.1 hsome
  have hend : (skipNewLines p).pos + i ≤ p.tokens.size := by
    simp [Parser.ahead] at hi
    omega
  have htake : (p.tokens.toList.drop (skipNewLines p).pos).take (p.tokens.size - (skipNewLines p).pos) =
      (skipNewLines p).ahead := List.take_of_length_le (by simp)
  simp only [neutralize, bind_apply, peek_apply, h, current, slice, if_pos (And.intro (Nat.le_of_lt hlt)
    (Nat.le_refl _)), skipNewLines_tokens, htake, hsome, if_pos (And.intro (Nat.le_add_right _ i) hend),
    Nat.add_sub_cancel_left, report, update]
  rfl

/-! ### Every procedure moves the cursor forward, within the tokens -/

theorem pure_moves (a : α) {s : α → Prop} (h : ¬ s a) : Moves bound s (pure a : Parse α) :=
  fun _ hp _ => ⟨.refl hp, fun hs => absurd hs h⟩

theorem endEarly_moves {s : α → Prop} : Moves bound s (endEarly : Parse α) :=
  fun _ hp _ => .refl hp

theorem update_moves {f : Parser → Parser} (h : ∀ p, (f p).tokens = p.tokens ∧ (f p).pos = p.pos) :
    Moves bound (fun _ => False) (update f) :=
  Moves.of_keeps fun p => ⟨(), f p, rfl, (h p).1, (h p).2⟩

theorem report_moves (f : Finding) : Moves bound (fun _ => False) (report f) :=
  update_moves fun _ => by exact ⟨rfl, rfl⟩

theorem push_moves (start : Nat) : Moves bound (fun _ => False) (push start) :=
  update_moves fun _ => by exact ⟨rfl, rfl⟩

theorem pop_moves : Moves bound (fun _ => False) pop :=
  Moves.of_keeps fun _ => ⟨_, _, rfl, rfl, rfl⟩

theorem current_moves : Moves bound (fun _ => False) current :=
  Moves.of_keeps fun p => ⟨p, p, rfl, rfl, rfl⟩

theorem peek_moves : Moves bound (fun _ => False) peek := by
  intro p hp _
  rw [peek_apply]
  exact ⟨skipNewLines_follows hp, False.elim⟩

theorem closeBracket_moves (t : Token) : Moves bound (fun _ => False) (closeBracket t) :=
  Moves.of_keeps fun p => ⟨(), _, closeBracket_apply t p, rfl, rfl⟩

theorem skipBracket_moves (t : Token) : Moves bound (fun _ => False) (skipBracket t) :=
  Moves.of_keeps fun p =>
    have ⟨q, hq, hm⟩ := skipBracket_mirrors t (s := ⟨.item, p.brackets.length, p.base, []⟩) rfl rfl
    ⟨(), q, hq, hm.tokens, hm.pos⟩

theorem advance_meets {p : Parser} {t : Token} (hp : p.pos ≤ p.tokens.size)
    (hup : upcoming p = some t) :
    (advance (skipNewLines p)).Meets (fun _ r => p.Follows r ∧ p.pos < r.pos) p.Follows := by
  have hlt := (upcoming_eq_some hup).1
  have hle := (skipNewLines_follows hp).2.1
  exact ⟨⟨rfl, by show p.pos ≤ (skipNewLines p).pos + 1; omega, hlt⟩,
    by show p.pos < (skipNewLines p).pos + 1; omega⟩

theorem advance_bind_meets {k : Parse α} {s : α → Prop} (hk : Moves bound (fun _ => False) k)
    {p : Parser} {t : Token} (hp : p.pos ≤ p.tokens.size) (hb : p.tokens.size < bound)
    (hup : upcoming p = some t) :
    ((advance >>= fun _ => k) (skipNewLines p)).Meets
      (fun a r => p.Follows r ∧ (s a → p.pos < r.pos)) p.Follows := by
  apply meets_bind
  refine (advance_meets hp hup).mono (fun _ q hq => ?_) (fun _ h => h)
  exact (hk q hq.1.2.2 (hq.1.1 ▸ hb)).mono
    (fun _ r hr => ⟨hq.1.trans hr.1, fun _ => Nat.lt_of_lt_of_le hq.2 hr.1.2.1⟩)
    (fun _ h => hq.1.trans h)

theorem neutralize_moves (e : Expected) : Moves bound (fun _ => True) (neutralize e) := by
  intro p hp _
  have hq := skipNewLines_follows hp
  cases hup : upcoming p with
  | none =>
    rw [neutralize_of_none hup]
    exact hq
  | some found =>
    have hlt := (upcoming_eq_some hup).1
    cases hfit : (skipNewLines p).ahead.findIdx? (e.accepts ·.kind) with
    | none =>
      rw [neutralize_of_unfit hup hfit, bind_apply]
      obtain ⟨r, hr, hm⟩ := skipRange_mirrors (s := ⟨.item, p.brackets.length, p.base, []⟩)
        (skipNewLines p).pos (p.tokens.size - (skipNewLines p).pos)
        (p := { skipNewLines p with pos := p.tokens.size,
                                    findings := p.findings ++ [.unrecoverable e found] })
        (by show _ ≤ p.tokens.size; omega) rfl rfl
      rw [hr]
      exact ⟨hm.tokens, by rw [hm.pos]; exact hp, by rw [hm.pos, hm.tokens]; exact Nat.le_refl _⟩
    | some i =>
      rw [neutralize_of_fit hup hfit, bind_apply]
      obtain ⟨hi, -⟩ := List.findIdx?_eq_some_iff_getElem.1 hfit
      have hend : (skipNewLines p).pos + i < p.tokens.size := by
        simp [Parser.ahead] at hi
        omega
      obtain ⟨r, hr, hm⟩ := skipRange_mirrors (s := ⟨.item, p.brackets.length, p.base, []⟩)
        (skipNewLines p).pos i (p := { skipNewLines p with findings := _ })
        (by show _ ≤ p.tokens.size; omega) rfl rfl
      rw [hr]
      have htarget : (skipNewLines p).pos + i < r.tokens.size := by rw [hm.tokens]; exact hend
      show (tokenAt _ { r with pos := (skipNewLines p).pos + i + 1 }).Meets _ _
      rw [tokenAt_of_lt (p := { r with pos := (skipNewLines p).pos + i + 1 }) htarget]
      exact ⟨⟨hm.tokens, by show p.pos ≤ _ + i + 1; have := hq.2.1; omega,
        by show _ + i + 1 ≤ r.tokens.size; omega⟩,
        fun _ => by show p.pos < _ + i + 1; have := hq.2.1; omega⟩

theorem expect_moves (e : Expected) : Moves bound (fun _ => True) (expect e) := by
  intro p hp hb
  unfold expect
  rw [bind_apply, peek_apply]
  have hq := skipNewLines_follows hp
  cases hup : upcoming p with
  | none => exact (neutralize_moves e).after hq hb
  | some t =>
    dsimp only
    split
    · exact advance_bind_meets (pure_moves t nofun) hp hb hup
    · exact (neutralize_moves e).after hq hb

theorem attempt_moves {x : Parse α} {s : α → Prop} (h : Moves bound s x) :
    Moves bound (fun r => ∃ a, r = some a ∧ s a) (attempt x) := by
  intro p hp hb
  unfold attempt
  have hx := h p hp hb
  cases hr : x p with
  | ok a q => rw [hr] at hx; exact ⟨hx.1, fun ⟨_, ha, hs⟩ => hx.2 (Option.some.inj ha ▸ hs)⟩
  | early q => rw [hr] at hx; exact ⟨hx, fun ⟨_, ha, _⟩ => nomatch ha⟩
  | fault e => rw [hr] at hx; exact hx.elim

theorem openRound_moves : Moves bound (· = none) openRound := by
  intro p hp hb
  unfold openRound
  rw [bind_apply, peek_apply]
  cases hup : upcoming p with
  | none => exact ⟨skipNewLines_follows hp, nofun⟩
  | some t =>
    dsimp only
    split
    · exact advance_bind_meets ((push_moves _).bind_safe fun _ => pure_moves _ nofun) hp hb hup
    · exact ⟨skipNewLines_follows hp, nofun⟩

theorem closeRound_moves : Moves bound (· = none) closeRound := by
  intro p hp hb
  unfold closeRound
  rw [bind_apply, peek_apply]
  dsimp only
  rw [bind_apply]
  dsimp only [current]
  split
  · rename_i hclose
    obtain ⟨t, hup, -⟩ := Option.map_eq_some_iff.1 hclose.1
    exact advance_bind_meets (pop_moves.bind_safe fun _ => pure_moves _ nofun) hp hb hup
  · exact ⟨skipNewLines_follows hp, nofun⟩

theorem misplacedRound_moves : Moves bound (· = none) misplacedRound := by
  intro p hp hb
  unfold misplacedRound
  rw [bind_apply, peek_apply]
  cases hup : upcoming p with
  | none => exact ⟨skipNewLines_follows hp, nofun⟩
  | some t =>
    dsimp only
    split
    · exact advance_bind_meets ((report_moves _).bind_safe fun _ =>
        (report_moves _).bind_safe fun _ => pure_moves _ nofun) hp hb hup
    · exact ⟨skipNewLines_follows hp, nofun⟩

theorem reference_moves (t : Token) : Moves bound (fun _ => False) (reference t) := by
  unfold reference
  refine current_moves.bind_safe fun p => ?_
  split
  · exact update_moves fun _ => by exact ⟨rfl, rfl⟩
  · exact report_moves _

theorem operand_moves : Moves bound (fun _ => True) operand := by
  unfold operand
  refine (expect_moves _).bind_advancing fun t => ?_
  split
  · exact reference_moves t
  · exact pure_moves () nofun

theorem skipSign_moves : Moves bound (fun _ => False) skipSign := by
  intro p hp hb
  unfold skipSign
  rw [bind_apply, peek_apply]
  cases hup : upcoming p with
  | none => exact ⟨skipNewLines_follows hp, False.elim⟩
  | some t =>
    dsimp only
    split
    · exact (advance_meets hp hup).mono (fun _ _ h => ⟨h.1, False.elim⟩) (fun _ h => h)
    · exact ⟨skipNewLines_follows hp, False.elim⟩

theorem numberLoop_moves (n : Nat) : Moves bound (fun _ => False) (numberLoop n) := by
  induction n with
  | zero => exact pure_moves () nofun
  | succ n ih => exact skipSign_moves.bind_safe fun _ => (expect_moves _).safe.bind_safe fun _ => ih

theorem numbers_moves : Moves bound (fun _ => False) numbers :=
  current_moves.bind_safe fun _ => (numberLoop_moves _).bind_safe fun _ =>
    (expect_moves _).safe.bind_safe fun _ => current_moves.bind_safe fun _ =>
      update_moves fun _ => by exact ⟨rfl, rfl⟩

theorem operationRound_moves : Moves bound (· = none) (operationRound bound) := by
  unfold operationRound
  refine misplacedRound_moves.rounds.bind_safe fun _ => openRound_moves.rounds.bind_safe fun _ =>
    operand_moves.bind_advancing fun _ => closeRound_moves.rounds.bind_safe fun _ =>
      (expect_moves _).safe.bind_safe fun t => ?_
  split
  · exact (closeBracket_moves t).bind_safe fun _ => numbers_moves.bind_safe fun _ => pure_moves _ nofun
  · exact pure_moves _ nofun

theorem operation_moves : Moves bound (fun _ => False) (operation bound) :=
  closeRound_moves.rounds.bind_safe fun _ => (expect_moves _).safe.bind_safe fun _ =>
    operationRound_moves.rounds

theorem firstOperand_moves : Moves bound (fun _ => False) (firstOperand bound) :=
  misplacedRound_moves.rounds.bind_safe fun _ => openRound_moves.rounds.bind_safe fun _ =>
    operand_moves.safe.bind_safe fun _ => operation_moves

theorem arrow_moves : Moves bound (fun _ => False) (arrow bound) :=
  (expect_moves _).safe.bind_safe fun _ => firstOperand_moves

theorem paramRound_moves : Moves bound (· = none) (paramRound bound) := by
  unfold paramRound
  refine (expect_moves _).bind_advancing fun _ => ?_
  split
  · exact arrow_moves.bind_safe fun _ => pure_moves _ nofun
  · exact (update_moves fun _ => by exact ⟨rfl, rfl⟩).bind_safe fun _ => pure_moves _ nofun

/-- No expression returns without having read a token. -/
theorem expression_moves : Moves bound (fun _ => True) (expression bound) :=
  (expect_moves _).bind_advancing fun _ =>
    (update_moves fun _ => by exact ⟨rfl, rfl⟩).bind_safe fun _ =>
      (update_moves fun _ => by exact ⟨rfl, rfl⟩).bind_safe fun _ =>
        (push_moves _).bind_safe fun _ =>
          (expect_moves _).safe.bind_safe fun _ => paramRound_moves.rounds

theorem startExpression_moves :
    Moves bound (· = none) (attempt (expression bound) >>= fun r =>
      if r.isNone = true then pure (some ()) else pure none) := by
  refine Moves.bind (attempt_moves expression_moves) fun r => ?_
  split
  · exact pure_moves _ fun h => nomatch h.1
  · rename_i hr
    cases r with
    | none => exact absurd rfl hr
    | some a => exact pure_moves _ fun h => h.2 ⟨a, rfl, trivial⟩

theorem programRound_moves : Moves bound (· = none) (programRound bound) := by
  intro p hp hb
  unfold programRound
  rw [bind_apply, peek_apply]
  have hq := skipNewLines_follows hp
  cases hup : upcoming p with
  | none => exact ⟨hq, nofun⟩
  | some t =>
    dsimp only
    cases hk : t.kind
    case endOfExpression => exact advance_bind_meets (pure_moves _ nofun) hp hb hup
    case closeBracket =>
      exact advance_bind_meets ((closeBracket_moves t).bind_safe fun _ => pure_moves _ nofun) hp hb hup
    all_goals exact startExpression_moves.after hq hb

theorem program_moves : Moves bound (fun _ => False) (program bound) :=
  programRound_moves.rounds

end Descent

end LambdaCheck
