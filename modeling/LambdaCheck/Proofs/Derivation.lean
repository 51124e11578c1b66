import LambdaCheck.Proofs.Reads
import LambdaCheck.Syntax.Grammar

/-!
Well-formed programs are read without recovery. Each production of the grammar is read by moves
from the state its position demands: parameters are recorded, the groups of a body move the depth
as their brackets say and never reach the expression's own bracket, operands mark the parameters
they name, and the numbers count down to the final `;`. The findings are then the name findings
that `Grammar.nameFindings` reads off the derivation (`Grammar.reads_program`).
-/

namespace LambdaCheck

namespace Grammar

open Checker Param

/-! ### Bracket depth of a derivation -/

theorem depthAfter_append (d : Nat) (xs ys : List Token) :
    depthAfter d (xs ++ ys) = (depthAfter d xs).bind (depthAfter · ys) := by
  induction xs generalizing d with
  | nil => rfl
  | cons t ts ih =>
    simp only [List.cons_append, depthAfter]
    split
    · exact ih (d + 1)
    · cases d with
      | zero => rfl
      | succ d => exact ih d
    · exact ih d

theorem depthAfter_cons_of_ne {t : Token} (ho : t.kind ≠ .openBracket)
    (hc : t.kind ≠ .closeBracket) (d : Nat) (ts : List Token) :
    depthAfter d (t :: ts) = depthAfter d ts := by
  simp [depthAfter]

theorem depthAfter_opens {opens : List Token} (h : ∀ t ∈ opens, t.kind = .openBracket) (d : Nat) :
    depthAfter d opens = some (d + opens.length) := by
  induction opens generalizing d with
  | nil => rfl
  | cons t ts ih =>
    have ht : t.kind = .openBracket := h t (List.mem_cons_self ..)
    simp only [depthAfter, ht]
    rw [ih (fun u hu => h u (List.mem_cons_of_mem _ hu)), List.length_cons]
    congr 1
    omega

theorem depthAfter_closes {closes : List Token} (h : ∀ t ∈ closes, t.kind = .closeBracket)
    {d d' : Nat} (hd : depthAfter d closes = some d') :
    closes.length ≤ d ∧ d' = d - closes.length := by
  induction closes generalizing d with
  | nil => simp_all [depthAfter]
  | cons t ts ih =>
    have ht : t.kind = .closeBracket := h t (List.mem_cons_self ..)
    simp only [depthAfter, ht] at hd
    cases d with
    | zero => cases hd
    | succ d =>
      have := ih (fun u hu => h u (List.mem_cons_of_mem _ hu)) hd
      simp only [List.length_cons]
      omega

theorem IsOperand.not_bracket {t : Token} (h : IsOperand t) :
    t.kind ≠ .openBracket ∧ t.kind ≠ .closeBracket := by
  rcases h with h | h | h <;> simp [h]

theorem depthAfter_split {xs ys : List Token} {t : Token} {r r' : Nat}
    (ho : t.kind ≠ .openBracket) (hc : t.kind ≠ .closeBracket)
    (h : depthAfter r (xs ++ t :: ys) = some r') :
    ∃ r₁, depthAfter r xs = some r₁ ∧ depthAfter r₁ ys = some r' := by
  rw [depthAfter_append] at h
  cases hxs : depthAfter r xs with
  | none => simp [hxs] at h
  | some r₁ =>
    rw [hxs, Option.bind_some, depthAfter_cons_of_ne ho hc] at h
    exact ⟨r₁, rfl, h⟩

theorem not_bracket_of_isOperator {t : Token} (h : t.kind.isOperator = true) :
    t.kind ≠ .openBracket ∧ t.kind ≠ .closeBracket := by
  constructor <;> intro hk <;> simp [hk, TokenKind.isOperator] at h

/-! ### Reading the productions -/

theorem reads_params (d base : Nat) (ps : List Param) {xs : List Token}
    (hxs : ∀ x ∈ xs, x.kind = .identifier) :
    Reads ⟨.params, d, base, ps⟩ xs ⟨.params, d, base, ps ++ xs.map (⟨·, false⟩)⟩ [] := by
  induction xs generalizing ps with
  | nil => simpa using Reads.nil _
  | cons x xs ih =>
    have hx : x.kind = .identifier := hxs x (List.mem_cons_self ..)
    have hrest := ih (ps ++ [⟨x, false⟩]) fun y hy => hxs y (List.mem_cons_of_mem _ hy)
    simpa using Reads.move (Move.param hx) hrest

theorem reads_opening (f : Bool) (d base : Nat) (ps : List Param) {opens : List Token}
    (h : ∀ t ∈ opens, t.kind = .openBracket) :
    Reads ⟨.opening f, d, base, ps⟩ opens ⟨.opening f, d + opens.length, base, ps⟩ [] := by
  induction opens generalizing d with
  | nil => exact .nil _
  | cons o os ih =>
    have ho : o.kind = .openBracket := h o (List.mem_cons_self ..)
    have hrest := ih (d + 1) fun t ht => h t (List.mem_cons_of_mem _ ht)
    rw [List.length_cons, ← Nat.add_assoc, Nat.add_right_comm]
    simpa using Reads.move (Move.groupOpen ho) hrest

theorem reads_operand {ph : Phase} {f : Bool} (hp : ph = .lead f ∨ ph = .opening f)
    (d base : Nat) (ps : List Param) {a : Token} (ha : IsOperand a) :
    Reads ⟨ph, d, base, ps⟩ [a] ⟨.closing f, d, base, markNamed [a] ps⟩
      (unknownNames ps [a]) := by
  rcases ha with ha | ha
  · rcases hp with rfl | rfl
    · exact .single (Move.leadName ha)
    · exact .single (Move.groupName ha)
  · have hne : a.kind ≠ .identifier := by rcases ha with h | h <;> simp [h]
    rw [Param.markNamed_of_ne hne, Param.unknownNames_of_ne hne]
    rcases hp with rfl | rfl
    · exact .single (Move.leadNumber ha)
    · exact .single (Move.groupNumber ha)

/-- After an operand, the closing brackets of its group close groups of the body, none of them
the expression's own bracket. -/
theorem reads_closes (f : Bool) (base r : Nat) (ps : List Param) {closes : List Token}
    (h : ∀ t ∈ closes, t.kind = .closeBracket) (hr : closes.length ≤ r) :
    Reads ⟨.closing f, base + 1 + r, base, ps⟩ closes
      ⟨.closing f, base + 1 + (r - closes.length), base, ps⟩ [] := by
  induction closes generalizing r with
  | nil => exact .nil _
  | cons c cs ih =>
    have hc : c.kind = .closeBracket := h c (List.mem_cons_self ..)
    simp only [List.length_cons] at hr
    have hdepth : base + 1 + r - 1 = base + 1 + (r - 1) := by omega
    have hmove : Move ⟨.closing f, base + 1 + r, base, ps⟩ c
        ⟨.closing f, base + 1 + (r - 1), base, ps⟩ [] :=
      hdepth ▸ Move.groupClose (by omega) hc
    have hrest := ih (r - 1) (fun t ht => h t (List.mem_cons_of_mem _ ht)) (by omega)
    have hleft : r - 1 - cs.length = r - (cs.length + 1) := by omega
    rw [hleft] at hrest
    simpa using Reads.move hmove hrest

theorem reads_group {g : List Token} {a : Token} (hg : Group g a) (f : Bool) (base : Nat)
    (ps : List Param) {r r' : Nat} (hr : depthAfter r g = some r') :
    Reads ⟨.lead f, base + 1 + r, base, ps⟩ g ⟨.closing f, base + 1 + r', base, markNamed [a] ps⟩
      (unknownNames ps [a]) := by
  cases hg with
  | @mk opens closes _ hopens hoperand hcloses =>
    rw [depthAfter_append, depthAfter_opens hopens, Option.bind_some,
      depthAfter_cons_of_ne hoperand.not_bracket.1 hoperand.not_bracket.2] at hr
    obtain ⟨hle, rfl⟩ := depthAfter_closes hcloses hr
    have hafter := reads_closes f base (r + opens.length) (markNamed [a] ps) hcloses hle
    cases opens with
    | nil =>
      have hop := reads_operand (f := f) (.inl rfl) (base + 1 + r) base ps hoperand
      simpa using hop.append hafter
    | cons o os =>
      have ho : o.kind = .openBracket := hopens o (List.mem_cons_self ..)
      have hos := reads_opening f (base + 1 + r + 1) base ps
        fun t ht => hopens t (List.mem_cons_of_mem _ ht)
      have hop := reads_operand (f := f) (.inr rfl) (base + 1 + (r + (o :: os).length)) base ps
        hoperand
      have hdepth : base + 1 + r + 1 + os.length = base + 1 + (r + (o :: os).length) := by
        simp only [List.length_cons]
        omega
      rw [hdepth] at hos
      simpa using Reads.move (Move.leadOpen ho) (hos.append (hop.append hafter))

theorem reads_chain {body ops : List Token} (hc : Chain body ops) (base : Nat) (ps : List Param)
    {r r' : Nat} (hr : depthAfter r body = some r') :
    Reads ⟨.lead true, base + 1 + r, base, ps⟩ body
      ⟨.closing false, base + 1 + r', base, markNamed ops ps⟩ (unknownNames ps ops) := by
  induction hc generalizing r r' with
  | @pair first second a b op hfirst hop hsecond =>
    obtain ⟨r₁, h₁, h₂⟩ := depthAfter_split (not_bracket_of_isOperator hop).1
      (not_bracket_of_isOperator hop).2 hr
    have hfirst' := reads_group hfirst true base ps h₁
    have hsecond' := reads_group hsecond false base (markNamed [a] ps) h₂
    rw [unknownNames_markNamed, ← markNamed_append] at hsecond'
    have hall := hfirst'.append (Reads.move (Move.operator hop) hsecond')
    rw [show [a, b] = [a] ++ [b] from rfl, unknownNames_append]
    simpa using hall
  | @snoc chain group operands b op hchain hop hgroup ih =>
    obtain ⟨r₁, h₁, h₂⟩ := depthAfter_split (not_bracket_of_isOperator hop).1
      (not_bracket_of_isOperator hop).2 hr
    have hgroup' := reads_group hgroup false base (markNamed operands ps) h₂
    rw [unknownNames_markNamed, ← markNamed_append] at hgroup'
    have hall := (ih h₁).append (Reads.move (Move.operator hop) hgroup')
    rw [unknownNames_append]
    simpa using hall

theorem reads_numbers {ns : List Token} {n : Nat} (h : Numbers ns n) (d base : Nat)
    (ps : List Param) : Reads ⟨.numbers n, d, base, ps⟩ ns ⟨.numbers 0, d, base, ps⟩ [] := by
  induction h with
  | nil => exact .nil _
  | plain ht _ ih => simpa using Reads.move (Move.plain ht) ih
  | signed hs ht _ ih => simpa using Reads.move (Move.sign hs) (Reads.move (Move.signedNumber ht) ih)

/-- The name findings of an expression are what its body reports, then the unused parameters
reported at its end. -/
theorem nameFindings_eq (xs ops : List Token) (d base : Nat) :
    Abstraction.nameFindings ⟨xs, ops⟩ =
      unknownNames (xs.map (⟨·, false⟩)) ops ++
        State.unused ⟨.numbers 0, d, base, markNamed ops (xs.map (⟨·, false⟩))⟩ := by
  simp [Abstraction.nameFindings, Abstraction.declares, Abstraction.mentions, unknownNames,
    State.unused, markNamed, List.filter_map, Function.comp_def]

/-- An expression is read from between two expressions to between two expressions, with its name
findings: its own bracket opens and closes at the depth it started from. -/
theorem reads_expression {e : List Token} {a : Abstraction} (h : Expression e a) (d base : Nat)
    (ps : List Param) : Reads ⟨.item, d, base, ps⟩ e ⟨.item, d, d, []⟩ a.nameFindings := by
  cases h with
  | @mk o l m g c e params body numbers operands ho hl hparams hm hg hbody hbalanced hc hnumbers
      he =>
    let X : List Param := params.map (⟨·, false⟩)
    let P := markNamed operands X
    have hnames := reads_params (d + 1) d [] hparams
    rw [List.nil_append] at hnames
    have hbody' := reads_chain hbody d X (r := 0) hbalanced
    have hlen : P.length = params.length := by simp [P, X]
    have hclose : Move ⟨.closing false, d + 1, d, P⟩ c ⟨.numbers params.length, d, d, P⟩ [] :=
      hlen ▸ Move.bodyClose (Nat.le_refl d) hc
    have hnums := reads_numbers hnumbers d d P
    have hbegin : Move ⟨.item, d, base, ps⟩ o ⟨.lambda, d + 1, d, []⟩ [] := Move.begin ho
    have hall := Reads.move hbegin (Reads.move (Move.lambda hl) (hnames.append
      (Reads.move (Move.dash hm) (Reads.move (Move.arrow hg) (hbody'.append
        (Reads.move hclose (hnums.append (Reads.single (Move.finish he)))))))))
    rw [nameFindings_eq params operands d d]
    simpa using hall

/-- A well-formed program is read from the initial state back to it, with its name findings. -/
theorem reads_program {ts : List Token} {as : List Abstraction} (h : Program ts as) :
    Reads State.initial ts State.initial (nameFindings as) := by
  induction h with
  | nil => exact .nil _
  | @separator t _ _ ht _ ih =>
    have hsep : Move State.initial t State.initial [] := Move.separator ht
    simpa using Reads.move hsep ih
  | expression he _ ih =>
    have hexpr : Reads State.initial _ State.initial _ := reads_expression he 0 0 []
    simpa [nameFindings] using hexpr.append ih

end Grammar

end LambdaCheck
