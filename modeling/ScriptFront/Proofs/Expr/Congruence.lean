import ScriptFront.Expr.Rules
import ScriptFront.Proofs.Rule.Congruence

/-! # Relations that the rules for expressions keep

An expression takes a token, and stands one level deeper than the rule that asks for it. -/

namespace ScriptFront

namespace Literal

variable {t u : Token}

theorem ofToken_congr (h : t.terminal = u.terminal) : ofToken t = ofToken u := by
  have hkind : t.kind = u.kind := by rw [← t.kind_terminal, h, u.kind_terminal]
  unfold ofToken
  by_cases hl : t.kind.hasLexeme = true
  · rw [Token.terminal_eq_carrying hl] at h
    rw [(Token.of_terminal_eq_carrying h.symm).2, hkind]
  · rw [hkind] at hl ⊢
    generalize u.kind = k at hl
    cases k <;> first | exact absurd rfl hl | rfl

/-- A number that is out of range, or a token that no expression starts with. -/
theorem standsAt_of_ofToken {fault : SyntaxFault} (h : ofToken t = .error fault)
    (hparen : t.kind ≠ .openParen) (hbracket : t.kind ≠ .openBracket)
    (hleading : UnaryOp.ofLeading? t.kind = none) : fault.StandsAt t.terminal := by
  have hkind := t.kind_terminal
  have hlexeme (hl : t.kind.hasLexeme = true) : t.terminal.lexeme = some t.content := by
    rw [Token.terminal_eq_carrying hl]
    rfl
  unfold ofToken at h
  generalize t.terminal = x at hkind hlexeme
  generalize t.kind = k at h hparen hbracket hleading hkind hlexeme
  cases k
  case integer =>
    by_cases hlt : Decimal.natural t.content.toList < 2 ^ 31
    · exact nomatch (if_pos hlt).symm.trans h
    · obtain rfl := Except.error.inj ((if_neg hlt).symm.trans h)
      exact ⟨.inl hkind, hlexeme rfl⟩
  case float =>
    cases hx : Binary32.ofDecimal? (.read t.content.toList) with
    | some v =>
      rw [hx] at h
      cases h
    | none =>
      rw [hx] at h
      cases h
      exact ⟨.inr hkind, hlexeme rfl⟩
  case openParen => exact absurd rfl hparen
  case openBracket => exact absurd rfl hbracket
  case logNot | minus | bitNot | increment | decrement => cases hleading
  case string | identifier | kwTrue | kwFalse | kwNull => cases h
  all_goals
    cases h
    exact ⟨hkind.symm, rfl⟩

end Literal

namespace Rule.Congruence

variable {R : Congruence} {m n : Nat} {x : Terminal}
  {expression expression' operand operand' : Rule Expr}

section

variable (hE : R.Always m n 1 1 expression expression') (hO : R.Always m n 1 1 operand operand')

include hE

theorem items {close : TokenKind} (hclose : close ≠ .eof) :
    R.Always m n 1 0 (Rule.items expression close) (Rule.items expression' close) := by
  intro x
  refine accept hclose (fun y => R.pure rfl) ?_
  refine R.bind (separated (by decide) hE (Nat.le_refl _) x) (Nat.le_refl _) fun es y => ?_
  exact expect hclose fun y => R.pure rfl

/-- Behind a leading operator no primary is looked for. -/
theorem primary (hleading : UnaryOp.ofLeading? x.kind = none) :
    R.Holds m n x 0 (fun _ => 1) (primaryWith expression) (primaryWith expression') := by
  refine R.peek fun kind hx => ?_
  split
  · refine discard_advance hx nofun fun y => R.bind (hE y) (Nat.le_refl _) fun e y => ?_
    exact expect nofun fun y => R.pure rfl
  · refine discard_advance hx nofun fun y => ?_
    exact R.bind (items hE (by decide) y) (Nat.le_refl _) fun es y => R.pure rfl
  · rename_i hparen hbracket
    refine R.current fun t u ht hu => ?_
    have htk : t.kind = kind := by rw [← t.kind_terminal, ht, hx]
    rw [← Literal.ofToken_congr (ht.trans hu.symm)]
    split
    · rename_i hvalue
      refine discard_advance hx ?_ fun y => R.pure rfl
      rintro rfl
      rw [Literal.ofToken, htk] at hvalue
      cases hvalue
    · rename_i hfault
      have hstands := Literal.standsAt_of_ofToken hfault (htk ▸ hparen) (htk ▸ hbracket)
        (by rw [htk, ← hx, hleading])
      exact fail (ht ▸ hstands)

theorem trailingLink (e : Expr) (x : Terminal) :
    R.Holds m n x 0 (fun o => o.isSome.toNat) (Rule.trailingLink expression e)
      (Rule.trailingLink expression' e) := by
  refine R.peek fun kind hx => ?_
  split
  · exact discard_advance hx nofun fun y => R.pure rfl
  · exact discard_advance hx nofun fun y => R.pure rfl
  · refine discard_advance hx nofun fun y => ?_
    exact R.bind (items hE (by decide) y) (Nat.le_refl _) fun es y => R.pure rfl
  · refine discard_advance hx nofun fun y => R.bind (hE y) (Nat.le_refl _) fun index y => ?_
    exact expect nofun fun y => R.pure rfl
  · exact discard_advance hx nofun fun y => name fun text _ z => R.pure rfl
  · exact R.pure rfl

theorem trailing (hleading : UnaryOp.ofLeading? x.kind = none) :
    R.Holds m n x 0 (fun _ => 1) (trailingWith expression) (trailingWith expression') :=
  R.chain (primary hE hleading) (trailingLink hE)

include hO

theorem unary : R.Always m n 0 1 (unaryWith expression operand)
    (unaryWith expression' operand') := by
  intro x
  refine R.peek fun kind hx => ?_
  split
  · rename_i hop
    refine discard_advance hx ?_ fun y => R.bind (hO y) (Nat.le_refl _) fun e y => R.pure rfl
    rintro rfl
    cases hop
  · rename_i hop
    exact trailing hE (hx ▸ hop)

theorem binary (tiers least : Nat) : R.Always m n 0 1
    (binaryWith expression operand tiers least) (binaryWith expression' operand' tiers least) := by
  induction tiers generalizing least with
  | zero => exact fun x => R.chain (unary hE hO x) fun _ _ => R.pure rfl
  | succ tiers ih =>
    refine fun x => R.chain (unary hE hO x) fun left x => R.peek fun kind hx => ?_
    split
    · rename_i op hop
      split
      · exact R.pure rfl
      · refine discard_advance hx ?_ fun y =>
          R.bind (ih (op.tier + 1) y) (Nat.zero_le _) fun e y => R.pure rfl
        rintro rfl
        cases hop
    · exact R.pure rfl

theorem conditional : R.Always m n 0 1 (conditionalWith expression operand)
    (conditionalWith expression' operand') := by
  refine fun x => R.bind (binary hE hO 10 1 x) (Nat.zero_le _) fun condition x => ?_
  refine accept nofun (fun y => R.bind (hE y) (by decide) fun yes y => ?_) (R.pure rfl)
  exact expect nofun fun y => R.bind (hE y) (by decide) fun no y => R.pure rfl

theorem assignment : R.Always m n 0 1 (assignmentWith expression operand)
    (assignmentWith expression' operand') := by
  refine fun x => R.bind (conditional hE hO x) (Nat.zero_le _) fun target x =>
    R.peek fun kind hx => ?_
  split
  · exact R.pure rfl
  · rename_i op hop
    split
    · refine fail ?_
      show (AssignOp.ofToken? x.kind).isSome = true
      rw [hx, hop]
      rfl
    · refine discard_advance hx ?_ fun y =>
        R.bind (conditional hE hO y) (Nat.zero_le _) fun value y => R.pure rfl
      rintro rfl
      cases hop

end

theorem expressionWithin_and_operandWithin (m n : Nat) :
    R.Always m n 1 1 (Rule.expressionWithin m) (Rule.expressionWithin n) ∧
      R.Always m n 1 1 (Rule.operandWithin m) (Rule.operandWithin n) := by
  have expression_eq (n : Nat) : Rule.expressionWithin n = Rule.descend (fun n =>
      assignmentWith (Rule.expressionWithin n) (Rule.operandWithin n)) n := by
    cases n <;> rfl
  have operand_eq (n : Nat) : Rule.operandWithin n =
      Rule.descend (fun n => unaryWith (Rule.expressionWithin n) (Rule.operandWithin n)) n := by
    cases n <;> rfl
  induction m generalizing n with
  | zero =>
    rw [expression_eq, operand_eq, expression_eq, operand_eq]
    exact ⟨fun x => R.descend nofun, fun x => R.descend nofun⟩
  | succ m ih =>
    rw [expression_eq, operand_eq, expression_eq, operand_eq]
    constructor
    · refine fun x => R.descend fun i j hi hj => ?_
      cases hi
      exact assignment (ih j).1 (ih j).2 x
    · refine fun x => R.descend fun i j hi hj => ?_
      cases hi
      exact unary (ih j).1 (ih j).2 x

theorem expressionWithin (m n : Nat) :
    R.Always m n 1 1 (Rule.expressionWithin m) (Rule.expressionWithin n) :=
  (expressionWithin_and_operandWithin m n).1

theorem operandWithin (m n : Nat) :
    R.Always m n 1 1 (Rule.operandWithin m) (Rule.operandWithin n) :=
  (expressionWithin_and_operandWithin m n).2

theorem constantWithin (m n : Nat) :
    R.Always m n 1 1 (Rule.constantWithin m) (Rule.constantWithin n) := by
  have constant_eq (n : Nat) : Rule.constantWithin n = Rule.descend (fun n =>
      conditionalWith (Rule.expressionWithin n) (Rule.operandWithin n)) n := by
    cases n <;> rfl
  rw [constant_eq, constant_eq]
  exact fun x => R.descend fun i j _ _ =>
    conditional (expressionWithin i j) (operandWithin i j) x

end Rule.Congruence

end ScriptFront
