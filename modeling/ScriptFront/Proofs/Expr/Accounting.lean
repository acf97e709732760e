import Mathlib.Tactic.Choose
import ScriptFront.Proofs.Expr.Unambiguous
import ScriptFront.Proofs.Rule.Coupling
import ScriptFront.Proofs.Rule.Progress
import ScriptFront.Proofs.Token.Ahead

/-! # The accounting of the nesting is local

A rule for expressions looks at the limit and the nesting only through the levels left, and at the
peak not at all. Where it succeeds it leaves the nesting as it was, and has raised the peak to what
the tokens that it took need. -/

namespace ScriptFront

open Terminal ScriptFront.Language ScriptFront.Expr

/-- The same error of a reader with another limit. -/
def ParseError.withLimit (limit : Nat) : ParseError → ParseError
  | .grammatical (.nestingTooDeep _) location => .grammatical (.nestingTooDeep limit) location
  | e => e

theorem ParseError.withLimit_of_standsAt {fault : SyntaxFault} {x : Terminal}
    (h : fault.StandsAt x) (limit : Nat) (l : Location) :
    withLimit limit (.grammatical fault l) = .grammatical fault l := by
  cases fault with
  | nestingTooDeep => exact h.elim
  | _ => rfl

namespace State

variable {s s' r r' : State}

/-- Two readers stand before the same tokens, up to the first one that cannot be read. -/
structure SameAhead (s s' : State) : Prop where
  current_eq : s.current = s'.current
  nth_eq (n : Nat) : s.cursor.nth n = s'.cursor.nth n

/-- Two readers have taken the same tokens and stand before the same ones. -/
def Abreast (s s' r r' : State) : Prop :=
  ∃ w, Spans s w r ∧ Spans s' w r' ∧ r.SameAhead r'

/-- A reader fails where it stands, or behind a token that it cannot read. -/
inductive FailsFrom (s : State) : State → Prop where
  | here : FailsFrom s s
  | unreadable {e : LexError} {cursor : Cursor} (h : s.cursor.next = (.error e, cursor)) :
      FailsFrom s { s with cursor }

theorem SameAhead.next (h : s.SameAhead s') :
    (∃ t d d', s.cursor.next = (.ok t, d) ∧ s'.cursor.next = (.ok t, d') ∧
        ∀ n, d.nth n = d'.nth n) ∨
      ∃ e d d', s.cursor.next = (.error e, d) ∧ s'.cursor.next = (.error e, d') := by
  have hfirst : s.cursor.next.1 = s'.cursor.next.1 := h.nth_eq 0
  rcases hs : s.cursor.next with ⟨e | t, d⟩
  · rcases hs' : s'.cursor.next with ⟨e' | t', d'⟩ <;> rw [hs, hs'] at hfirst <;> cases hfirst
    exact .inr ⟨e, d, d', rfl, rfl⟩
  · rcases hs' : s'.cursor.next with ⟨e' | t', d'⟩ <;> rw [hs, hs'] at hfirst <;> cases hfirst
    refine .inl ⟨t, d, d', rfl, rfl, fun n => ?_⟩
    rw [← Cursor.nth_succ hs, ← Cursor.nth_succ hs']
    exact h.nth_eq (n + 1)

/-- Two states with the same limit and nesting differ in the place and the peak only. -/
theorem eq_of_accounts (hlimit : r.limit = s.limit) (hdepth : r.depth = s.depth) :
    r = { s with cursor := r.cursor, current := r.current, peak := r.peak } := by
  rw [← hlimit, ← hdepth]

theorem Abreast.refl (h : s.SameAhead s') : Abreast s s' s s' := ⟨[], .refl s, .refl s', h⟩

/-- The token that both hold is taken by both. -/
theorem Abreast.take (h : Abreast s s' r r') (hk : r.current.kind ≠ .eof) {t : Token}
    {d d' : Cursor} (hr : r.cursor.next = (.ok t, d)) (hr' : r'.cursor.next = (.ok t, d'))
    (hd : ∀ n, d.nth n = d'.nth n) :
    Abreast s s' { r with cursor := d, current := t } { r' with cursor := d', current := t } := by
  obtain ⟨w, hw, hw', hahead⟩ := h
  have hk' : r'.current.kind ≠ .eof := hahead.current_eq ▸ hk
  have htake := Takes.cons hk hr (.nil _)
  have htake' := Takes.cons hk' hr' (.nil _)
  rw [hahead.current_eq] at htake
  exact ⟨w ++ [r'.current.terminal], hw.trans htake.spans, hw'.trans htake'.spans, rfl, hd⟩

theorem Abreast.repeak (h : Abreast s s' r r') (peak peak' : Nat) :
    Abreast s s' { r with peak := peak } { r' with peak := peak' } := by
  obtain ⟨w, hw, hw', hahead⟩ := h
  exact ⟨w, hw.repeak s.peak peak, hw'.repeak s'.peak peak', hahead.current_eq, hahead.nth_eq⟩

theorem FailsFrom.repeak (h : FailsFrom s r) (peak : Nat) :
    FailsFrom { s with peak } { r with peak } := by
  cases h with
  | here => exact .here
  | unreadable h => exact .unreadable h

/-- Two rules that began at `s` and `s'` took the same tokens, and either made the same or failed
alike. -/
inductive Alongside {α : Type} (s s' : State) : EStateM.Result ParseError State α →
    EStateM.Result ParseError State α → Prop where
  | ok {a : α} {r r' : State} (h : Abreast s s' r r') : Alongside s s' (.ok a r) (.ok a r')
  | error {e : ParseError} {u u' r r' : State} (h : Abreast s s' u u') (hr : u.FailsFrom r)
    (hr' : u'.FailsFrom r') : Alongside s s' (.error e r) (.error (e.withLimit s'.limit) r')

end State

/-- Two readers that go on from `s` and from `s'` with as many levels left. -/
def Coupling.abreast (s s' : State) : Coupling where
  limit := s.limit
  limit' := s'.limit
  Place _ := Eq
  Stands c t c' t' :=
    s.Abreast s' { s with cursor := c, current := t } { s' with cursor := c', current := t' }
  Left c t c' t' := ∃ u u', s.Abreast s' u u' ∧ u.FailsFrom { s with cursor := c, current := t } ∧
    u'.FailsFrom { s' with cursor := c', current := t' }
  Levels m n := m = n
  Alike e e' := e' = e.withLimit s'.limit
  Stops _ := False
  terminal_eq h := by
    obtain ⟨w, -, -, hahead⟩ := h
    exact congrArg Token.terminal hahead.current_eq
  place h := by
    obtain ⟨w, -, -, hahead⟩ := h
    exact congrArg Token.location hahead.current_eq
  left h := ⟨_, _, h, .here, .here⟩
  next {c c' t t'} h ht := by
    obtain ⟨w, hw, hw', hahead⟩ := id h
    rcases hahead.next with ⟨x, d, d', hd, hd', hnth⟩ | ⟨e, d, d', hd, hd'⟩
    · dsimp only at hd hd'
      rw [hd, hd']
      exact .ok (h.take ht hd hd' hnth)
    · dsimp only at hd hd'
      rw [hd, hd']
      exact .error rfl ⟨_, _, h, .unreadable hd, .unreadable hd'⟩
  le h := Nat.le_of_eq h.symm
  descend h := Nat.succ.inj h
  fault h hfault := by
    cases h
    exact (ParseError.withLimit_of_standsAt hfault _ _).symm
  tooDeep h hl := by
    cases h
    cases hl
    exact .inr ⟨rfl, rfl⟩

namespace Rule

/-- A rule that an expression is read by, with what it is given. -/
inductive Production where
  | assignment | conditional
  /-- Operators of a tier of at least `least`; there are no more tiers to go through than ten. -/
  | binary (tiers least : Nat) (h : 11 ≤ tiers + least)
  | unary | trailing | primary

namespace Production

/-- The rule where `levels` levels are left. -/
def within (levels : Nat) : Production → Rule Expr
  | assignment => expressionWithin levels
  | conditional => conditionalWith (expressionWithin levels) (operandWithin levels)
  | binary tiers least _ => binaryWith (expressionWithin levels) (operandWithin levels) tiers least
  | unary => unaryWith (expressionWithin levels) (operandWithin levels)
  | trailing => trailingWith (expressionWithin levels)
  | primary => primaryWith (expressionWithin levels)

/-- The rule at the nesting of the state. -/
def rule (p : Production) : Rule Expr := fun s => p.within s.levels s

/-- What the rule reads. -/
def language : Production → Language Expr
  | assignment => nestedPhrases
  | conditional => phrases .conditional
  | binary _ least _ => phrases (.ofLevel (max 1 (min least 11)))
  | unary => phrases .unary
  | trailing => phrases .trailing
  | primary => primaries

end Production

/-- There is no tier below the first one and none behind the tenth. -/
theorem binaryWith_eq_clamp (expression operand : Rule Expr) (tiers least : Nat) :
    binaryWith expression operand tiers least =
      binaryWith expression operand tiers (max 1 (min least 11)) := by
  cases tiers with
  | zero => rfl
  | succ tiers =>
    have hiff (op : BinaryOp) : op.tier < max 1 (min least 11) ↔ op.tier < least := by
      have hpos : 1 ≤ op.tier := by cases op <;> decide
      have hle : op.tier ≤ 10 := by cases op <;> decide
      omega
    simp only [binaryWith, hiff]

theorem Production.reads_within (p : Production) (n : Nat) : Reads n (p.within n) p.language := by
  have hE := reads_expressionWithin n
  have hO := reads_operandWithin n
  cases p with
  | assignment => exact hE
  | conditional => exact reads_conditional hE hO
  | binary tiers least h =>
    rw [within, binaryWith_eq_clamp]
    exact reads_binary hE hO (by omega) (by omega) (by omega) rfl
  | unary => exact reads_unary hE hO
  | trailing => exact reads_trailing hE
  | primary => exact reads_primary hE

/-- What some terminals need does not depend on what follows them, nor on how they are read. -/
theorem Production.need_unique (p : Production) {w : List Terminal} {k k' : TokenKind} {e e' : Expr}
    {m m' : Nat} (h : p.language w k e m) (h' : p.language w k' e' m') : m = m' := by
  have hphrases {s : Symbol} {i j : Nat} {a b : Expr} (ha : phrases s w k a i)
      (hb : phrases s w k' b j) : i = j := by
    obtain ⟨d, rfl, -⟩ := ha
    obtain ⟨d', rfl, -⟩ := hb
    exact (unique_phrases w.length s (x := []) (y := []) (k := .eof) (by simp) rfl
      ⟨d, rfl, d.bound_pos⟩ ⟨d', rfl, d'.bound_pos⟩).2.2
  cases p with
  | assignment =>
    obtain ⟨i, rfl, hi⟩ := h
    obtain ⟨j, rfl, hj⟩ := h'
    rw [hphrases hi hj]
  | primary =>
    exact (unique_primaries (fun m _ => unique_phrases m _) (x := []) (y := []) (k := k)
      (Nat.le_refl _) rfl h h').2.2
  | conditional | binary | unary | trailing => exact hphrases h h'

section Leading

variable {s : State} {op : UnaryOp} {expression : Rule Expr}

theorem primaryWith_of_leading (h : UnaryOp.ofLeading? s.current.kind = some op) :
    primaryWith expression s = .error
      (.grammatical (.expectedExpression s.current.kind) s.current.location) s := by
  have hvalue : Literal.ofToken s.current = .error (.expectedExpression s.current.kind) := by
    unfold Literal.ofToken
    generalize s.current.kind = k at h
    cases k <;> first | rfl | cases h
  have hpeek : peek s = .ok s.current.kind s := rfl
  have hcurrent : current s = .ok s.current s := rfl
  rw [primaryWith, bind_of_ok hpeek]
  rw [(UnaryOp.ofLeading?_eq_some_iff.mp h).2] at hvalue ⊢
  cases op <;> exact (bind_of_ok hcurrent _).trans (by rw [hvalue]; rfl)

theorem trailingWith_of_leading (h : UnaryOp.ofLeading? s.current.kind = some op) :
    trailingWith expression s = .error (.grammatical (.expectedExpression s.current.kind)
      s.current.location) { s with peak := s.depth } := by
  rw [trailingWith, chain_eq]
  exact bind_of_error (primaryWith_of_leading (s := { s with peak := s.depth }) h) _

end Leading

namespace Production

variable {s s' : State}

theorem holds_within (R : Congruence) (p : Production) (m n : Nat) {x : Terminal}
    (hx : p = trailing ∨ p = primary → UnaryOp.ofLeading? x.kind = none) :
    R.Holds m n x 1 (fun _ => 1) (p.within m) (p.within n) := by
  have hE : R.Always m n 1 1 (expressionWithin m) (expressionWithin n) :=
    Congruence.expressionWithin m n
  have hO : R.Always m n 1 1 (operandWithin m) (operandWithin n) := Congruence.operandWithin m n
  have hroom {f g : Rule Expr} (h : R.Holds m n x 0 (fun _ => 1) f g) :
      R.Holds m n x 1 (fun _ => 1) f g :=
    Congruence.weaken h (Nat.zero_le _) fun _ => Nat.le_refl _
  cases p with
  | assignment => exact hE x
  | conditional => exact hroom (Congruence.conditional hE hO x)
  | binary tiers least => exact hroom (Congruence.binary hE hO tiers least x)
  | unary => exact hroom (Congruence.unary hE hO x)
  | trailing => exact hroom (Congruence.trailing hE (hx (.inl rfl)))
  | primary => exact hroom (Congruence.primary hE (hx (.inr rfl)))

/-- In front of an operator there is nothing to read for the two rules that no operator starts. -/
theorem alongside_of_leading (h : s.SameAhead s') {op : UnaryOp}
    (hop : UnaryOp.ofLeading? s.current.kind = some op) {p : Production}
    (hp : p = trailing ∨ p = primary) : s.Alongside s' (p.rule s) (p.rule s') := by
  have hop' : UnaryOp.ofLeading? s'.current.kind = some op := h.current_eq ▸ hop
  have hahead := State.Abreast.refl h
  have herror : ParseError.grammatical (.expectedExpression s'.current.kind) s'.current.location =
      .grammatical (.expectedExpression s.current.kind) s.current.location := by
    rw [h.current_eq]
  rcases hp with rfl | rfl
  · simp only [rule, within]
    rw [trailingWith_of_leading hop, trailingWith_of_leading hop', herror]
    exact .error (hahead.repeak _ _) .here .here
  · simp only [rule, within]
    rw [primaryWith_of_leading hop, primaryWith_of_leading hop', herror]
    exact .error hahead .here .here

theorem alongside (p : Production) (h : s.SameAhead s') (hs : s.depth ≤ s.limit)
    (hs' : s'.depth ≤ s'.limit) (hlevels : s.limit - s.depth = s'.limit - s'.depth) :
    s.Alongside s' (p.rule s) (p.rule s') := by
  by_cases hstart : p = trailing ∨ p = primary → UnaryOp.ofLeading? s.current.kind = none
  · have hcoupled : (Coupling.abreast s s').Coupled false s.levels s'.levels s s' :=
      { stands := .refl h
        levels := hlevels
        limit_eq := rfl
        limit_eq' := rfl
        depth_eq := by unfold State.levels; omega
        depth_eq' := by unfold State.levels; omega
        peak_eq := fun h => absurd h Bool.false_ne_true }
    have hmatches := p.holds_within (Coupling.abreast s s').congruence s.levels s'.levels
      (x := s.current.terminal) (by rwa [Token.kind_terminal])
    have houtcome := hmatches false s s' rfl hcoupled
    rw [rule, rule]
    generalize p.within s.levels s = y at houtcome
    generalize p.within s'.levels s' = z at houtcome
    -- both readers are where they began but for the place and the peak
    have hback {r r' : State} (hr : (Coupling.abreast s s').Accounted s.levels s'.levels r r') :
        r = { s with cursor := r.cursor, current := r.current, peak := r.peak } ∧
          r' = { s' with cursor := r'.cursor, current := r'.current, peak := r'.peak } := by
      obtain ⟨hd, hd'⟩ := hcoupled.toAccounted.depth_add hr
      constructor
      · exact State.eq_of_accounts hr.limit_eq (Nat.add_right_cancel hd).symm
      · exact State.eq_of_accounts hr.limit_eq' (Nat.add_right_cancel hd').symm
    cases houtcome with
    | @ok e r r' hr =>
      obtain ⟨hrs, hrs'⟩ := hback hr.toAccounted
      rw [hrs, hrs']
      exact .ok (State.Abreast.repeak hr.stands _ _)
    | @error e _ r r' he hr =>
      obtain ⟨hrs, hrs'⟩ := hback hr.toAccounted
      obtain ⟨u, u', hu, hur, hur'⟩ := hr.left
      cases he
      rw [hrs, hrs']
      exact .error (hu.repeak _ _) (hur.repeak _) (hur'.repeak _)
    | stopped he => exact he.elim
  · obtain ⟨hp, hleading⟩ := Classical.not_imp.mp hstart
    obtain ⟨op, hop⟩ := Option.ne_none_iff_exists'.mp hleading
    exact alongside_of_leading h hop hp

/-- What some terminals need, whatever rule reads them and wherever. -/
theorem exists_need (p : Production) : ∃ need : List Terminal → Nat,
    ∀ w k e m, p.language w k e m → m = need w := by
  have hneed (w : List Terminal) : ∃ need, ∀ k e m, p.language w k e m → m = need := by
    by_cases h : ∃ k e m, p.language w k e m
    · obtain ⟨k, e, m, hm⟩ := h
      exact ⟨m, fun _ _ _ hm' => p.need_unique hm' hm⟩
    · exact ⟨0, fun k e m hm => absurd ⟨k, e, m, hm⟩ h⟩
  choose need hneed using hneed
  exact ⟨need, hneed⟩

/-- Two readers with as many levels left go on alike from the same tokens, whatever their limits,
nestings and peaks are. Where the rule succeeds, the peak has been raised by what the tokens that
were taken need, and by nothing else. -/
theorem rule_is_local (p : Production) :
    (∀ s s' : State, s.SameAhead s' → s.depth ≤ s.limit → s'.depth ≤ s'.limit →
      s.limit - s.depth = s'.limit - s'.depth → s.Alongside s' (p.rule s) (p.rule s')) ∧
    ∃ need : List Terminal → Nat, ∀ s e r, s.depth ≤ s.limit → s.depth ≤ s.peak →
      p.rule s = .ok e r → ∃ w, Spans s w r ∧ r.depth = s.depth ∧
        r.peak = max s.peak (s.depth + need w) ∧ s.depth + need w ≤ s.limit := by
  refine ⟨fun s s' h hs hs' => p.alongside h hs hs', ?_⟩
  obtain ⟨need, hneed⟩ := p.exists_need
  refine ⟨need, fun s e r hs hp he => ?_⟩
  have hleaves : Leaves s.levels s := ⟨by unfold State.levels; omega, hp⟩
  obtain ⟨w, m, u, hm, hu, hle, rfl⟩ := ((p.reads_within s.levels).ok_iff hleaves).mp he
  obtain rfl := hneed w _ _ _ hm
  refine ⟨w, ?_, hu.depth_eq, ?_, ?_⟩
  · exact hu.spans.repeak s.peak _
  · rw [State.peak_raise, hu.peak_eq, hu.depth_eq]
  · unfold State.levels at hle
    omega

/-- A group with two links behind it needs four levels, wherever it stands. -/
theorem rule_is_local_at_chain : ∃ (s s' r r' : State) (e e' : Expr),
    s = ⟨⟨" + (b) - c;".toList, ⟨1, 2⟩⟩, ⟨.identifier, some "a", ⟨1, 1⟩⟩, 5, 1, 1⟩ ∧
    s' = { s with limit := 10, depth := 6, peak := 8 } ∧
    (s.SameAhead s' ∧ s.depth ≤ s.limit ∧ s'.depth ≤ s'.limit ∧
      s.limit - s.depth = s'.limit - s'.depth ∧
      s.Alongside s' (assignment.rule s) (assignment.rule s')) ∧
    (s.depth ≤ s.peak ∧ assignment.rule s = .ok e r ∧ r.peak = 5 ∧
      s'.depth ≤ s'.peak ∧ assignment.rule s' = .ok e' r' ∧ r'.peak = 10) ∧
    ∃ (need : List Terminal → Nat) (w w' : List Terminal), Spans s w r ∧ Spans s' w' r' ∧
      5 = max 1 (1 + need w) ∧ 10 = max 8 (6 + need w') := by
  have hread (s : State) (peak : Nat) (h : (match assignment.rule s with
      | .ok _ r => r.peak == peak
      | .error .. => false) = true) : ∃ e r, assignment.rule s = .ok e r ∧ r.peak = peak := by
    cases hs : assignment.rule s with
    | ok e r =>
      rw [hs] at h
      exact ⟨e, r, rfl, eq_of_beq h⟩
    | error e r =>
      rw [hs] at h
      cases h
  obtain ⟨e, r, he, hr⟩ := hread ⟨⟨" + (b) - c;".toList, ⟨1, 2⟩⟩,
    ⟨.identifier, some "a", ⟨1, 1⟩⟩, 5, 1, 1⟩ 5 (by decide +kernel)
  obtain ⟨e', r', he', hr'⟩ := hread ⟨⟨" + (b) - c;".toList, ⟨1, 2⟩⟩,
    ⟨.identifier, some "a", ⟨1, 1⟩⟩, 10, 6, 8⟩ 10 (by decide +kernel)
  obtain ⟨hlocal, need, hneed⟩ := rule_is_local .assignment
  obtain ⟨w, hw, -, hpeak, -⟩ := hneed _ e r (by decide) (by decide) he
  obtain ⟨w', hw', -, hpeak', -⟩ := hneed _ e' r' (by decide) (by decide) he'
  exact ⟨_, _, r, r', e, e', rfl, rfl,
    ⟨⟨rfl, fun _ => rfl⟩, by decide, by decide, by decide,
      hlocal _ _ ⟨rfl, fun _ => rfl⟩ (by decide) (by decide) (by decide)⟩,
    ⟨by decide, he, hr, by decide, he', hr'⟩, need, w, w', hw, hw', hr.symm.trans hpeak,
    hr'.symm.trans hpeak'⟩

end Production

end Rule

end ScriptFront
