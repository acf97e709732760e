import ScriptFront.Proofs.Statement.FirstFault
import ScriptFront.Proofs.Statement.Size
import ScriptFront.Proofs.Statement.Threshold

/-! # Reading comes to an end

No repetition of the rules needs its bound: each pass that goes on takes a token. Nor does the
descent need the limit, since each level stands behind a token. -/

namespace ScriptFront

namespace Rule

/-- One more operator of a tier of at least `least`, with what stands right of it. -/
def binaryLink (expression operand : Rule Expr) : (tiers least : Nat) → Expr → Rule (Option Expr)
  | 0, _, _ => return none
  | tiers + 1, least, left => do
    match BinaryOp.ofToken? (← peek) with
    | some op =>
      if op.tier < least then return none
      discard advance
      return some (.binary op left (← binaryWith expression operand tiers (op.tier + 1)))
    | none => return none

theorem binaryWith_eq (expression operand : Rule Expr) (tiers least : Nat) :
    binaryWith expression operand tiers least =
      chain (unaryWith expression operand) (binaryLink expression operand tiers least) := by
  cases tiers <;> rfl

/-- All repetitions of the rules, where `m` levels are left: behind separators, along chains of
operators, and of parameters, segments, conditions, cases and statements. -/
structure Halting (m : Nat) : Prop where
  items : Halts m (behind .comma fun read => (· :: read) <$> expressionWithin m)
  values : Halts m (behind .colon fun read => (· :: read) <$> expressionWithin m)
  trailing : Halts m (chainPass (trailingLink (expressionWithin m)))
  binary (tiers least : Nat) :
    Halts m (chainPass (binaryLink (expressionWithin m) (operandWithin m) tiers least))
  parameters : Halts m (behind .comma (parameter (constantWithin m)))
  segments : Halts m segment
  elses : Halts m (elsePart (innerWithin m))
  parts : Halts m (switchPart (innerWithin m))
  statements (stop : TokenKind → Bool) : Halts m (itemPass stop (statementWith (innerWithin m)))
  program : Halts m (itemPass (· = .eof) statement)

namespace Congruence

variable {R : Congruence} {m n : Nat} {expression expression' operand operand' : Rule Expr}

theorem binaryLink (hE : R.Always m n 1 1 expression expression')
    (hO : R.Always m n 1 1 operand operand') (tiers least : Nat) (left : Expr) (x : Terminal) :
    R.Holds m n x 0 (fun o => o.isSome.toNat) (Rule.binaryLink expression operand tiers least left)
      (Rule.binaryLink expression' operand' tiers least left) := by
  cases tiers with
  | zero => exact R.pure rfl
  | succ tiers =>
    refine R.peek fun kind hx => ?_
    split
    · rename_i op hop
      split
      · exact R.pure rfl
      · refine discard_advance hx ?_ fun y =>
          R.bind (binary hE hO tiers (op.tier + 1) y) (Nat.zero_le _) fun e y => R.pure rfl
        rintro rfl
        cases hop
    · exact R.pure rfl

theorem itemPass {β : Type} {stop : TokenKind → Bool} {item item' : Rule (Option β)}
    (h : R.Always m n 1 1 item item') (read : List β) (x : Terminal) :
    R.Holds m n x 1 (fun o => o.isSome.toNat) (Rule.itemPass stop item read)
      (Rule.itemPass stop item' read) := by
  refine R.peek fun kind hx => ?_
  split
  · exact R.pure rfl
  · exact R.bind (h x) (Nat.le_refl _) fun o y => R.pure rfl

end Congruence

/-- Every pass of the rules takes a token where it goes on. -/
theorem halting (m : Nat) : Halting m := by
  have hE := Congruence.expressionWithin (R := consuming) m m
  have hO := Congruence.operandWithin (R := consuming) m m
  have hC := Congruence.constantWithin (R := consuming) m m
  have hI := Congruence.innerWithin (R := consuming) m m
  have hseparated {k : TokenKind} (hk : k ≠ .eof) :
      Halts m (behind k fun read => (· :: read) <$> expressionWithin m) :=
    halts_of_consumes fun a x =>
      Congruence.behind hk (fun read y => Congruence.map (hE y)) (Nat.le_refl 1) a x rfl
  constructor
  case items => exact hseparated (by decide)
  case values => exact hseparated (by decide)
  case trailing =>
    exact halts_of_consumes <| Consumes.chainPass fun a x => Congruence.trailingLink hE a x rfl
  case binary =>
    intro tiers least
    exact halts_of_consumes <| Consumes.chainPass fun a x =>
      Congruence.binaryLink hE hO tiers least a x rfl
  case parameters =>
    exact halts_of_consumes fun a x =>
      Congruence.behind (by decide) (Congruence.parameter hC) (Nat.le_refl 1) a x rfl
  case segments => exact halts_of_consumes fun a x => Congruence.segment (R := consuming) a x rfl
  case elses => exact halts_of_consumes fun a x => Congruence.elsePart hI a x rfl
  case parts => exact halts_of_consumes fun a x => Congruence.switchPart hI a x rfl
  case statements =>
    intro stop
    exact halts_of_consumes fun a x =>
      Congruence.itemPass (Congruence.statementWith hI) a x rfl
  case program =>
    exact halts_of_consumes fun a x =>
      Congruence.itemPass (Congruence.statement (R := consuming) m m) a x rfl

theorem exists_spans_of_statement {s r : State} {o : Option Statement}
    (h : statement s = .ok o r) : ∃ w, w ≠ [] ∧ Spans s w r := by
  obtain ⟨w, hw, hspans⟩ :=
    Congruence.statement (R := consuming) s.levels s.levels _ rfl s o r rfl rfl h
  exact ⟨w, List.ne_nil_of_length_pos hw, hspans⟩

end Rule

/-- All repetitions end by themselves, no limit beyond the length of a text makes a difference, a
statement takes tokens, and a tree has no more nodes than its text has tokens. -/
theorem parse_halts_and_size_le (text : String) :
    (∀ m, Rule.Halting m) ∧
    (∀ limit, text.length + 1 ≤ limit → parse text limit = parse text (text.length + 1)) ∧
    (∀ s o r, Rule.statement s = .ok o r → ∃ w, w ≠ [] ∧ Spans s w r) ∧
    ∀ limit p, parse text limit = .ok p →
      ∃ ts, tokenize text = .ok ts ∧ Block.size p ≤ ts.countP (·.kind ≠ .eof) := by
  have hshallow : ¬ NestsTooDeep text (text.length + 1) := by
    rintro ⟨l, hl⟩
    exact isShallow_of_parse (Nat.le_refl _) hl _ l rfl
  refine ⟨Rule.halting, ?_, ?_, ?_⟩
  · exact fun limit h => parse_eq_of_le h hshallow
  · exact fun s o r => Rule.exists_spans_of_statement
  · exact fun limit p => size_le_of_parse

/-- Both conditions of the chain count. -/
theorem parse_halts_and_size_le_at_else :
    "if (a) b; else if (c) d = [1, 2];".length + 1 ≤ 64 ∧
    parse "if (a) b; else if (c) d = [1, 2];" 64 = parse "if (a) b; else if (c) d = [1, 2];" 34 ∧
    (∃ s r w, State.start? "break;" 0 = .ok s ∧ Rule.statement s = .ok (some .breakLoop) r ∧
      w ≠ [] ∧ Spans s w r) ∧
    ∃ p ts, parse "if (a) b; else if (c) d = [1, 2];" 64 = .ok p ∧
      tokenize "if (a) b; else if (c) d = [1, 2];" = .ok ts ∧ Block.size p = 12 ∧
      12 ≤ ts.countP (·.kind ≠ .eof) := by
  obtain ⟨-, hlimit, hstatement, hsize⟩ :=
    parse_halts_and_size_le "if (a) b; else if (c) d = [1, 2];"
  have hlength : "if (a) b; else if (c) d = [1, 2];".length + 1 ≤ 64 := by decide
  obtain ⟨s, r, hs, hr⟩ : ∃ s r, State.start? "break;" 0 = .ok s ∧
      Rule.statement s = .ok (some .breakLoop) r := ⟨_, _, rfl, rfl⟩
  obtain ⟨w, hw, hspans⟩ := hstatement s _ r hr
  obtain ⟨p, hp, hnodes⟩ : ∃ p, parse "if (a) b; else if (c) d = [1, 2];" 64 = .ok p ∧
      Block.size p = 12 := by decide +kernel
  obtain ⟨ts, hts, hle⟩ := hsize 64 p hp
  rw [hnodes] at hle
  exact ⟨hlength, hlimit 64 hlength, ⟨s, r, w, hs, hr, hw, hspans⟩, p, ts, hp, hts, hnodes, hle⟩

end ScriptFront
