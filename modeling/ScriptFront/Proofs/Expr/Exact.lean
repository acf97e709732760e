import ScriptFront.Proofs.Expr.Climbing

/-! # The rules for expressions read exactly the phrases -/

namespace ScriptFront

open Terminal ScriptFront.Language

theorem TokenKind.grip_eq_two {k : TokenKind} (h : k.grip = 2) : k = .question := by
  cases k <;> first | rfl | cases h

namespace Expr

theorem phrases_conditional_iff {w : List Terminal} {k : TokenKind} {e : Expr} {m : Nat} :
    phrases .conditional w k e m ↔ seq (phrases (.binary .logOr)) (fun c => option .question
      (seq nestedPhrases fun y => after (fixed .colon) (seq nestedPhrases fun no =>
        value (.conditional c y no))) (value c)) w k e m := by
  constructor
  · rintro ⟨d, rfl, hk⟩
    cases d with
    | simple d =>
      change k.grip < 2 at hk
      refine ⟨w, e, d.need, [], 0, (List.append_nil w).symm, ⟨d, rfl, ?_⟩, .inr ⟨?_, rfl, rfl, rfl⟩,
        (Nat.max_zero _).symm⟩
      · rw [d.bound_binary]
        exact Nat.lt_succ_of_lt hk
      · rintro rfl
        exact absurd hk (by decide)
    | @choice u v w c y no dc dy dn =>
      refine ⟨u, c, dc.need, _, _, rfl, ⟨dc, rfl, ?_⟩, .inl ⟨_, rfl, v, y, dy.need + 1, _, _, rfl,
        ⟨dy.need, rfl, dy, rfl, dy.bound_pos⟩, ⟨w, rfl, w, no, dn.need + 1, [], 0,
          (List.append_nil w).symm, ⟨dn.need, rfl, dn, rfl, hk⟩, ⟨rfl, rfl, rfl⟩, rfl⟩, rfl⟩, ?_⟩
      · rw [dc.bound_binary]
        exact (by decide : TokenKind.question.grip < Tier.logOr.level + 2)
      · rw [Nat.max_zero]
        rfl
  · rintro ⟨u, c, _, _, _, rfl, ⟨dc, rfl, hc⟩, ⟨_, rfl, v, y, _, _, _, rfl, ⟨_, rfl, dy, rfl, -⟩,
      ⟨_, rfl, w, no, _, _, _, rfl, ⟨_, rfl, dn, rfl, hn⟩, ⟨rfl, rfl, rfl⟩, rfl⟩, rfl⟩ |
      ⟨hk, rfl, rfl, rfl⟩, rfl⟩
    · rw [List.append_nil] at *
      exact ⟨.choice dc dy dn, by rw [Nat.max_zero]; rfl, hn⟩
    · rw [List.append_nil]
      refine ⟨.simple dc, Nat.max_zero _, ?_⟩
      rw [dc.bound_binary] at hc
      have : k.grip ≠ 2 := fun h => hk (TokenKind.grip_eq_two h)
      show k.grip < 2
      change k.grip < 3 at hc
      omega

/-- What may stand behind the left side of an assignment. -/
inductive Assignment (target : Expr) : Language Expr where
  | none {k : TokenKind} (h : k.grip ≠ 1) : Assignment target [] k target 0
  | some {k : TokenKind} (op : AssignOp) (h : target.isConditional = false) {w : List Terminal}
      {value : Expr} (d : Phrase .conditional w value) (hk : k.grip < d.bound) :
      Assignment target (fixed op.kind :: w) k (.assign op target value) d.need

theorem phrases_assignment_iff {w : List Terminal} {k : TokenKind} {e : Expr} {m : Nat} :
    phrases .assignment w k e m ↔ seq (phrases .conditional) Assignment w k e m := by
  constructor
  · rintro ⟨d, rfl, hk⟩
    cases d with
    | conditional d =>
      change k.grip < 1 at hk
      have := d.bound_pos
      exact ⟨w, e, d.need, [], 0, (List.append_nil w).symm, ⟨d, rfl, by rw [lead_nil]; omega⟩,
        .none (by omega), (Nat.max_zero _).symm⟩
    | @assign v w a b d op h r =>
      refine ⟨v, a, d.need, _, r.need, rfl, ⟨d, rfl, ?_⟩, .some op h r hk, rfl⟩
      rw [lead_cons, kind_fixed, op.grip_kind]
      cases d with
      | simple d => exact Nat.one_lt_two
      | choice => cases h
  · rintro ⟨v, a, _, u, j, rfl, ⟨d, rfl, hd⟩, hrest, rfl⟩
    cases hrest with
    | none h =>
      rw [List.append_nil, Nat.max_zero]
      refine ⟨.conditional d, rfl, ?_⟩
      have := d.bound_le
      show k.grip < 1
      change k.grip < _ at hd
      change _ ≤ 2 at this
      omega
    | some op h dv hk => exact ⟨.assign d op h dv, rfl, hk⟩

end Expr

namespace Rule

open ScriptFront.Expr

variable {n : Nat} {expression operand : Rule Expr}

theorem reads_conditional (hE : Reads n expression nestedPhrases)
    (hO : Reads n operand (deeper (phrases .unary))) :
    Reads n (conditionalWith expression operand) (phrases .conditional) :=
  Reads.congr (fun t => reads_bind (reads_binary hE hO (by decide) (by decide) (by decide)
    (Tier.ofLevel_level .logOr).symm t) fun c t => reads_accept (by decide)
      (fun t => reads_bind (hE t) fun y t => reads_expect (by decide) fun t =>
        reads_bind (hE t) fun no t => reads_pure _)
      (reads_pure c)) fun _ _ _ _ => phrases_conditional_iff.symm

theorem reads_assignment (hE : Reads n expression nestedPhrases)
    (hO : Reads n operand (deeper (phrases .unary))) :
    Reads n (assignmentWith expression operand) (phrases .assignment) := by
  refine Reads.congr (fun t => reads_bind (reads_conditional hE hO t) fun target t => ?_)
    fun _ _ _ _ => phrases_assignment_iff.symm
  refine reads_peek ?_
  split
  · rename_i hop
    refine (reads_pure target).congr fun w k e m hw _ => ?_
    constructor
    · rintro ⟨rfl, rfl, rfl⟩
      obtain rfl : k = t.kind := hw
      exact .none fun h => AssignOp.grip_eq_one.mp h hop
    · intro h
      cases h with
      | none => exact ⟨rfl, rfl, rfl⟩
      | some op =>
        rw [AssignOp.ofToken?_eq_some_iff.mpr hw.symm] at hop
        cases hop
  · rename_i op hop
    have hkind := AssignOp.ofToken?_eq_some_iff.mp hop
    have unique {p : AssignOp} (h : p.kind = t.kind) : p = op := by
      rw [AssignOp.ofToken?_eq_some_iff.mpr h.symm] at hop
      exact Option.some.inj hop
    split
    · rename_i hcond
      refine (reads_fail _).congr fun w k e m hw _ => ?_
      constructor
      · exact False.elim
      · intro h
        cases h with
        | none h =>
          obtain rfl : k = t.kind := hw
          rw [hkind] at h
          exact h op.grip_kind
        | some _ h =>
          rw [hcond] at h
          cases h
    · rename_i hcond
      refine (reads_discard_advance ?_ fun t => reads_bind (reads_conditional hE hO t)
        fun value t => reads_pure (Expr.assign op target value)).congr fun w k e m hw _ => ?_
      · rw [hkind]
        cases op <;> decide
      rw [Token.terminal_eq_fixed (by rw [hkind]; cases op <;> rfl), hkind]
      constructor
      · rintro ⟨_, rfl, w, value, _, _, _, rfl, ⟨d, rfl, hk⟩, ⟨rfl, rfl, rfl⟩, rfl⟩
        rw [List.append_nil, Nat.max_zero]
        exact .some op (by simpa using hcond) d hk
      · intro h
        cases h with
        | none h =>
          obtain rfl : k = t.kind := hw
          rw [hkind] at h
          exact absurd op.grip_kind h
        | @some _ p h w value d hk =>
          obtain rfl := unique hw
          exact ⟨w, rfl, w, value, d.need, [], 0, (List.append_nil w).symm, ⟨d, rfl, hk⟩,
            ⟨rfl, rfl, rfl⟩, (Nat.max_zero _).symm⟩

theorem deeper_ne_zero {α : Type} {G : Language α} {w : List Terminal} {k : TokenKind} {a : α}
    {m : Nat} (h : deeper G w k a m) : m ≠ 0 := by
  obtain ⟨i, rfl, -⟩ := h
  exact Nat.succ_ne_zero i

theorem reads_expressionWithin_and_operandWithin (n : Nat) :
    Reads n (expressionWithin n) nestedPhrases ∧
      Reads n (operandWithin n) (deeper (phrases .unary)) := by
  induction n with
  | zero =>
    exact ⟨reads_tooDeep fun _ _ _ _ => deeper_ne_zero, reads_tooDeep fun _ _ _ _ => deeper_ne_zero⟩
  | succ n ih =>
    exact ⟨reads_nested (reads_assignment ih.1 ih.2), reads_nested (reads_unary ih.1 ih.2)⟩

theorem reads_expressionWithin (n : Nat) : Reads n (expressionWithin n) nestedPhrases :=
  (reads_expressionWithin_and_operandWithin n).1

theorem reads_operandWithin (n : Nat) : Reads n (operandWithin n) (deeper (phrases .unary)) :=
  (reads_expressionWithin_and_operandWithin n).2

theorem reads_constantWithin (n : Nat) :
    Reads n (constantWithin n) (deeper (phrases .conditional)) := by
  cases n with
  | zero => exact reads_tooDeep fun _ _ _ _ => deeper_ne_zero
  | succ n =>
    exact reads_nested (reads_conditional (reads_expressionWithin n) (reads_operandWithin n))

end Rule

end ScriptFront
