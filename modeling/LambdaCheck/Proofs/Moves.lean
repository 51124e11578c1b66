import LambdaCheck.Syntax.Checker

/-!
The checker's moves. On a token that is no line feed, the checker first tries the position's
optional move and then the position's expectation; `State.move` is that choice, and it is `none`
exactly where the checker has to recover. `Move` lists what a move can do, one constructor per
transition, and `State.move_eq_some_iff` says the two agree, so that later proofs take a move
apart by cases on `Move` and never unfold the checker.
-/

namespace LambdaCheck

namespace State

/-- The move on a token, if the position has one: its optional move, else its expectation. -/
def move (s : State) (t : Token) : Option (State × List Finding) :=
  match s.optional t with
  | some r => some r
  | none => if s.phase.expected.accepts t.kind then some (s.accept t) else none

end State

namespace Param

/-- The parameters once the operands `ops` have been read: a parameter becomes used when an
identifier operand has its name. -/
def markNamed (ops : List Token) (ps : List Param) : List Param :=
  ps.map fun p =>
    { p with used := p.used || ops.any fun t => t.kind == .identifier && t.text == p.name.text }

/-- The identifier operands of `ops` that no parameter of `ps` has the name of, reported. -/
def unknownNames (ps : List Param) (ops : List Token) : List Finding :=
  (ops.filter fun t => t.kind == .identifier && !ps.any (·.name.text == t.text)).map .unknownName

@[simp] theorem markNamed_nil (ps : List Param) : markNamed [] ps = ps := by
  simp [markNamed]

theorem markNamed_append (xs ys : List Token) (ps : List Param) :
    markNamed (xs ++ ys) ps = markNamed ys (markNamed xs ps) := by
  simp [markNamed, Bool.or_assoc]

@[simp] theorem markNamed_names (ops : List Token) (ps : List Param) :
    (markNamed ops ps).map (·.name) = ps.map (·.name) := by
  simp [markNamed]

@[simp] theorem length_markNamed (ops : List Token) (ps : List Param) :
    (markNamed ops ps).length = ps.length := by
  simp [markNamed]

theorem unknownNames_markNamed (xs ops : List Token) (ps : List Param) :
    unknownNames (markNamed xs ps) ops = unknownNames ps ops := by
  unfold unknownNames markNamed
  simp only [List.any_map]
  rfl

theorem unknownNames_append (ps : List Param) (xs ys : List Token) :
    unknownNames ps (xs ++ ys) = unknownNames ps xs ++ unknownNames ps ys := by
  simp [unknownNames]

theorem markNamed_of_ne {t : Token} (ht : t.kind ≠ .identifier) (ps : List Param) :
    markNamed [t] ps = ps := by
  have hb : (t.kind == .identifier) = false := by simpa using ht
  simp [markNamed, hb]

theorem unknownNames_of_ne {t : Token} (ht : t.kind ≠ .identifier) (ps : List Param) :
    unknownNames ps [t] = [] := by
  simp [unknownNames, ht]

theorem mark_one (t : Token) (p : Param) :
    { p with used := p.used || t.text == p.name.text } =
      if p.name.text == t.text then { p with used := true } else p := by
  by_cases h : p.name.text = t.text
  · simp [h]
  · have h' : (t.text == p.name.text) = false := by simpa using Ne.symm h
    simp [h, h']

end Param

namespace State

theorem refer_eq (s : State) {t : Token} (ht : t.kind = .identifier) :
    s.refer t =
      ({ s with params := Param.markNamed [t] s.params }, Param.unknownNames s.params [t]) := by
  have hmark : Param.markNamed [t] s.params =
      s.params.map fun p => if p.name.text == t.text then { p with used := true } else p := by
    simp only [Param.markNamed, List.any_cons, List.any_nil, ht, beq_self_eq_true, Bool.true_and,
      Bool.or_false]
    exact List.map_congr_left fun p _ => Param.mark_one t p
  unfold refer
  split
  next hany => simp [Param.unknownNames, ht, hany, hmark]
  next hany =>
    have hsame : Param.markNamed [t] s.params = s.params := by
      rw [hmark]
      conv => rhs; rw [← List.map_id s.params]
      apply List.map_congr_left
      intro p hp
      have hne : p.name.text ≠ t.text := fun h => hany (List.any_eq_true.2 ⟨p, hp, by simp [h]⟩)
      simp [hne]
    simp [Param.unknownNames, ht, hany, hsame]

end State

/-- One move of the checker, one constructor per transition: `Move s t s' fs` when the checker
in state `s` takes the token `t` without recovering and reaches `s'`, finding `fs`. -/
inductive Move : State → Token → State → List Finding → Prop where
  /-- A `;` between expressions is passed over. -/
  | separator {d b : Nat} {ps : List Param} {t : Token} (ht : t.kind = .endOfExpression) :
      Move ⟨.item, d, b, ps⟩ t ⟨.item, d, b, ps⟩ []
  /-- A `)` between expressions closes an open bracket. -/
  | strayClose {d b : Nat} {ps : List Param} {t : Token} (ht : t.kind = .closeBracket) :
      Move ⟨.item, d + 1, b, ps⟩ t ⟨.item, d, b, ps⟩ []
  /-- A `)` between expressions with no bracket open is reported. -/
  | strayUnmatched {b : Nat} {ps : List Param} {t : Token} (ht : t.kind = .closeBracket) :
      Move ⟨.item, 0, b, ps⟩ t ⟨.item, 0, b, ps⟩ [.unmatchedClose t]
  /-- A `(` begins an expression: its bracket opens above everything open so far. -/
  | begin {d b : Nat} {ps : List Param} {t : Token} (ht : t.kind = .openBracket) :
      Move ⟨.item, d, b, ps⟩ t ⟨.lambda, d + 1, d, []⟩ []
  | lambda {d b : Nat} {ps : List Param} {t : Token} (ht : t.kind = .lambdaIntroducer) :
      Move ⟨.lambda, d, b, ps⟩ t ⟨.params, d, b, ps⟩ []
  | param {d b : Nat} {ps : List Param} {t : Token} (ht : t.kind = .identifier) :
      Move ⟨.params, d, b, ps⟩ t ⟨.params, d, b, ps ++ [⟨t, false⟩]⟩ []
  | dash {d b : Nat} {ps : List Param} {t : Token} (ht : t.kind = .signMinus) :
      Move ⟨.params, d, b, ps⟩ t ⟨.arrow, d, b, ps⟩ []
  | arrow {d b : Nat} {ps : List Param} {t : Token} (ht : t.kind = .signMore) :
      Move ⟨.arrow, d, b, ps⟩ t ⟨.lead true, d, b, ps⟩ []
  /-- A `)` where an operand should start is reported twice and closes nothing. -/
  | misplaced {f : Bool} {d b : Nat} {ps : List Param} {t : Token} (ht : t.kind = .closeBracket) :
      Move ⟨.lead f, d, b, ps⟩ t ⟨.lead f, d, b, ps⟩ [.unmatchedClose t, .misplacedClose t]
  | leadOpen {f : Bool} {d b : Nat} {ps : List Param} {t : Token} (ht : t.kind = .openBracket) :
      Move ⟨.lead f, d, b, ps⟩ t ⟨.opening f, d + 1, b, ps⟩ []
  | groupOpen {f : Bool} {d b : Nat} {ps : List Param} {t : Token} (ht : t.kind = .openBracket) :
      Move ⟨.opening f, d, b, ps⟩ t ⟨.opening f, d + 1, b, ps⟩ []
  /-- An operand that is a name marks the parameters it names, or is reported. -/
  | leadName {f : Bool} {d b : Nat} {ps : List Param} {t : Token} (ht : t.kind = .identifier) :
      Move ⟨.lead f, d, b, ps⟩ t ⟨.closing f, d, b, Param.markNamed [t] ps⟩
        (Param.unknownNames ps [t])
  | groupName {f : Bool} {d b : Nat} {ps : List Param} {t : Token} (ht : t.kind = .identifier) :
      Move ⟨.opening f, d, b, ps⟩ t ⟨.closing f, d, b, Param.markNamed [t] ps⟩
        (Param.unknownNames ps [t])
  | leadNumber {f : Bool} {d b : Nat} {ps : List Param} {t : Token}
      (ht : t.kind = .integer ∨ t.kind = .float) :
      Move ⟨.lead f, d, b, ps⟩ t ⟨.closing f, d, b, ps⟩ []
  | groupNumber {f : Bool} {d b : Nat} {ps : List Param} {t : Token}
      (ht : t.kind = .integer ∨ t.kind = .float) :
      Move ⟨.opening f, d, b, ps⟩ t ⟨.closing f, d, b, ps⟩ []
  /-- After an operand, a `)` closes a group of the body while one is open. -/
  | groupClose {f : Bool} {d b : Nat} {ps : List Param} {t : Token} (hd : b + 1 < d)
      (ht : t.kind = .closeBracket) :
      Move ⟨.closing f, d, b, ps⟩ t ⟨.closing f, d - 1, b, ps⟩ []
  | operator {f : Bool} {d b : Nat} {ps : List Param} {t : Token} (ht : t.kind.isOperator = true) :
      Move ⟨.closing f, d, b, ps⟩ t ⟨.lead false, d, b, ps⟩ []
  /-- After a later operand, a `)` at the expression's own bracket ends the body. -/
  | bodyClose {d b : Nat} {ps : List Param} {t : Token} (hd : d ≤ b)
      (ht : t.kind = .closeBracket) :
      Move ⟨.closing false, d + 1, b, ps⟩ t ⟨.numbers ps.length, d, b, ps⟩ []
  | bodyUnmatched {b : Nat} {ps : List Param} {t : Token} (ht : t.kind = .closeBracket) :
      Move ⟨.closing false, 0, b, ps⟩ t ⟨.numbers ps.length, 0, b, ps⟩ [.unmatchedClose t]
  | sign {n d b : Nat} {ps : List Param} {t : Token}
      (ht : t.kind = .signPlus ∨ t.kind = .signMinus) :
      Move ⟨.numbers (n + 1), d, b, ps⟩ t ⟨.signed n, d, b, ps⟩ []
  | plain {n d b : Nat} {ps : List Param} {t : Token} (ht : t.kind = .integer ∨ t.kind = .float) :
      Move ⟨.numbers (n + 1), d, b, ps⟩ t ⟨.numbers n, d, b, ps⟩ []
  | signedNumber {n d b : Nat} {ps : List Param} {t : Token}
      (ht : t.kind = .integer ∨ t.kind = .float) :
      Move ⟨.signed n, d, b, ps⟩ t ⟨.numbers n, d, b, ps⟩ []
  /-- The final `;` reports the unused parameters and forgets all of them. -/
  | finish {d b : Nat} {ps : List Param} {t : Token} (ht : t.kind = .endOfExpression) :
      Move ⟨.numbers 0, d, b, ps⟩ t ⟨.item, d, b, []⟩ (State.unused ⟨.numbers 0, d, b, ps⟩)

namespace Move

theorem move_eq {s s' : State} {t : Token} {fs : List Finding} (h : Move s t s' fs) :
    s.move t = some (s', fs) := by
  cases h
  case leadName ht =>
    simp [State.move, State.optional, State.accept, ht, State.refer_eq, Phase.expected,
      Expected.accepts, Expected.kinds]
  case groupName ht =>
    simp [State.move, State.optional, State.accept, ht, State.refer_eq, Phase.expected,
      Expected.accepts, Expected.kinds]
  case leadNumber ht =>
    rcases ht with ht | ht <;>
      simp [State.move, State.optional, State.accept, ht, Phase.expected, Expected.accepts,
        Expected.kinds]
  case groupNumber ht =>
    rcases ht with ht | ht <;>
      simp [State.move, State.optional, State.accept, ht, Phase.expected, Expected.accepts,
        Expected.kinds]
  case operator f d b ps ht =>
    cases hk : t.kind <;> cases f <;>
      simp_all [State.move, State.optional, State.accept, Phase.expected, Expected.accepts,
        Expected.kinds, TokenKind.isOperator]
  case bodyClose d b ps hd ht =>
    have hlt : ¬ b < d := by omega
    simp [State.move, State.optional, State.accept, State.closeBracket, ht, hlt, Phase.expected,
      Expected.accepts, Expected.kinds]
  case sign n d b ps ht =>
    rcases ht with ht | ht <;> simp [State.move, State.optional, ht]
  case plain n d b ps ht =>
    rcases ht with ht | ht <;>
      simp [State.move, State.optional, State.accept, ht, Phase.expected, Expected.accepts,
        Expected.kinds]
  case signedNumber n d b ps ht =>
    rcases ht with ht | ht <;>
      simp [State.move, State.optional, State.accept, ht, Phase.expected, Expected.accepts,
        Expected.kinds]
  all_goals simp_all [State.move, State.optional, State.accept, State.closeBracket,
    Phase.expected, Expected.accepts, Expected.kinds]

/-- No move is on a line feed: line feeds are passed over before any move is tried. -/
theorem ne_newLine {s s' : State} {t : Token} {fs : List Finding} (h : Move s t s' fs) :
    t.kind ≠ .newLine := by
  cases h
  case leadNumber ht => rcases ht with ht | ht <;> simp [ht]
  case groupNumber ht => rcases ht with ht | ht <;> simp [ht]
  case sign ht => rcases ht with ht | ht <;> simp [ht]
  case plain ht => rcases ht with ht | ht <;> simp [ht]
  case signedNumber ht => rcases ht with ht | ht <;> simp [ht]
  case operator ht =>
    intro hk
    simp [hk, TokenKind.isOperator] at ht
  all_goals simp_all

theorem of_optional {s s' : State} {t : Token} {fs : List Finding}
    (h : s.optional t = some (s', fs)) : Move s t s' fs := by
  obtain ⟨ph, d, b, ps⟩ := s
  unfold State.optional at h
  split at h
  next hp ht => subst hp; cases h; exact .separator ht
  next hp ht =>
    subst hp
    cases d with
    | zero => cases h; exact .strayUnmatched ht
    | succ d => cases h; exact .strayClose ht
  next f hp ht => subst hp; cases h; exact .misplaced ht
  next f hp ht => subst hp; cases h; exact .leadOpen ht
  next f hp ht => subst hp; cases h; exact .groupOpen ht
  next f hp ht =>
    subst hp
    split at h
    next hd => cases h; exact .groupClose hd ht
    next => cases h
  next n hp ht => subst hp; cases h; exact .sign (.inl ht)
  next n hp ht => subst hp; cases h; exact .sign (.inr ht)
  next => cases h

theorem of_accept {s : State} {t : Token} (hn : s.optional t = none)
    (ha : s.phase.expected.accepts t.kind = true) : Move s t (s.accept t).1 (s.accept t).2 := by
  obtain ⟨ph, d, b, ps⟩ := s
  simp only [Phase.expected, Expected.accepts, Expected.kinds] at ha
  unfold State.accept
  split
  next hp => subst hp; exact .begin (by simpa using ha)
  next hp => subst hp; exact .lambda (by simpa using ha)
  next hp ht => subst hp; exact .param ht
  next hp ht =>
    subst hp
    simp only [List.contains_cons, List.contains_nil, Bool.or_false, Bool.or_eq_true,
      beq_iff_eq] at ha
    exact .dash (ha.resolve_left ht)
  next hp => subst hp; exact .arrow (by simpa using ha)
  next f hp ht =>
    subst hp
    simp only [State.refer_eq _ ht]
    exact .leadName ht
  next f hp ht =>
    subst hp
    simp only [List.contains_cons, List.contains_nil, Bool.or_false, Bool.or_eq_true,
      beq_iff_eq] at ha
    exact .leadNumber (ha.resolve_left ht)
  next f hp ht =>
    subst hp
    simp only [State.refer_eq _ ht]
    exact .groupName ht
  next f hp ht =>
    subst hp
    simp only [List.contains_cons, List.contains_nil, Bool.or_false, Bool.or_eq_true,
      beq_iff_eq] at ha
    exact .groupNumber (ha.resolve_left ht)
  next f hp ht =>
    subst hp
    cases f with
    | true => simp [ht] at ha
    | false =>
      simp only [State.optional, ht] at hn
      cases d with
      | zero => exact .bodyUnmatched ht
      | succ d => exact .bodyClose (by simpa using hn) ht
  next f hp ht =>
    subst hp
    refine .operator ?_
    cases f <;> simp at ha <;> rcases ha with h | h | h | h <;> simp_all [TokenKind.isOperator]
  next hp => subst hp; exact .finish (by simpa using ha)
  next n hp => subst hp; exact .plain (by simpa using ha)
  next n hp => subst hp; exact .signedNumber (by simpa using ha)

theorem of_accept_eq {s s' : State} {t : Token} {fs : List Finding} (hn : s.optional t = none)
    (ha : s.phase.expected.accepts t.kind = true) (h : s.accept t = (s', fs)) : Move s t s' fs := by
  have hmove := of_accept hn ha
  rwa [h] at hmove

end Move

namespace State

theorem move_eq_some_iff {s s' : State} {t : Token} {fs : List Finding} :
    s.move t = some (s', fs) ↔ Move s t s' fs := by
  constructor
  · intro h
    unfold move at h
    split at h
    next r ho => cases h; exact Move.of_optional ho
    next ho =>
      split at h
      next ha =>
        have hmove := Move.of_accept ho ha
        rwa [Option.some.inj h] at hmove
      next => cases h
  · exact Move.move_eq

end State

end LambdaCheck
