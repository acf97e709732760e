import ScriptFront.Proofs.Expr.Unambiguous

/-! # The rule for expressions follows the grammar

In front of a token that can end an expression, the rule succeeds behind exactly the terminals that
derive a tree, with that tree. So does the loop over binary operators, for each of the ten tiers. -/

namespace ScriptFront

open Terminal ScriptFront.Language ScriptFront.Expr

/-- The kinds that stand behind an expression. -/
def TokenKind.expressionEnds : List TokenKind :=
  [semicolon, comma, closeParen, closeBracket, colon, eof]

theorem TokenKind.grip_of_mem_expressionEnds {k : TokenKind} (h : k ∈ expressionEnds) :
    k.grip = 0 := by
  revert k
  decide

namespace Rule

variable {α : Type} {n : Nat}

/-- The rule succeeds where another state stands. -/
def Reaches (rule : Rule α) (s : State) (a : α) (u : State) : Prop :=
  ∃ r, rule s = .ok a r ∧ r.cursor = u.cursor ∧ r.current = u.current

theorem Reads.reaches_iff {rule : Rule α} {G : Language α} (h : Reads n rule G) {s u : State}
    (hs : Leaves n s) {w : List Terminal} (hw : Takes s w u) {a : α} :
    Reaches rule s a u ↔ ∃ m ≤ n, G w u.current.kind a m := by
  constructor
  · rintro ⟨_, ha, hcursor, hcurrent⟩
    obtain ⟨v, m, q, hv, hq, hm, rfl⟩ := (h.ok_iff hs).mp ha
    obtain ⟨rfl, rfl⟩ := hq.eq_of_same_place hw hcursor hcurrent
    exact ⟨m, hm, hv⟩
  · rintro ⟨m, hm, ha⟩
    exact ⟨u.raise m, (h.ok_iff hs).mpr ⟨w, m, u, ha, hw, hm, rfl⟩, rfl, rfl⟩

/-- A rule one level deeper does not depend on the peak. -/
theorem nested_reaches_iff {rule : Rule α} {s u : State} {a : α} :
    Reaches (nested rule) { s with peak := max s.peak s.depth } a u ↔
      Reaches (nested rule) s a u := by
  have hpeak : max (max s.peak s.depth) (s.depth + 1) = max s.peak (s.depth + 1) := by omega
  by_cases h : s.limit ≤ s.depth
  · simp [Reaches, nested, h, tooDeep, fail, failAt]
  · simp only [Reaches, nested, h, if_false, hpeak]

theorem chain_reaches_iff {first : Rule α} {link : α → Rule (Option α)} {s u : State} {a : α} :
    Reaches (chain first link) { s with peak := max s.peak s.depth } a u ↔
      Reaches (chain first link) s a u := by
  simp only [Reaches, chain_ok_iff]
  constructor <;> rintro ⟨_, ⟨b, q, l, q', hb, hd, rfl⟩, h⟩ <;>
    exact ⟨_, ⟨b, q, l, q', hb, hd, rfl⟩, h⟩

theorem expression_reaches_iff {s u : State} {w : List Terminal} (hw : Takes s w u)
    (hk : u.current.kind.grip = 0) (hl : s.depth + w.length + 1 ≤ s.limit) {e : Expr} :
    Reaches expression s e u ↔ Derives w e := by
  obtain ⟨n, hn⟩ : ∃ n, s.limit = s.depth + (n + 1) := ⟨s.limit - s.depth - 1, by omega⟩
  have hlevels : s.levels = n + 1 := by rw [State.levels, hn, Nat.add_sub_cancel_left]
  have hs : Leaves (n + 1) { s with peak := max s.peak s.depth } := ⟨hn, Nat.le_max_right _ _⟩
  have hrule : Reaches expression s e u ↔ Reaches (expressionWithin (n + 1)) s e u := by
    simp only [Reaches, expression, hlevels]
  rw [hrule]
  refine nested_reaches_iff.symm.trans (((reads_expressionWithin (n + 1)).reaches_iff hs
    (hw.repeak (max s.peak s.depth))).trans ?_)
  constructor
  · rintro ⟨_, -, i, rfl, d, rfl, -⟩
    exact ⟨d⟩
  · rintro ⟨d⟩
    have := d.need_lt
    exact ⟨d.need + 1, by omega, d.need, rfl, d, rfl, by rw [hk]; exact d.bound_pos⟩

theorem binaryWith_reaches_iff {s u : State} {w : List Terminal} (hw : Takes s w u) {t : Tier}
    (hk : u.current.kind.grip < t.level + 2) (hl : s.depth + w.length ≤ s.limit) {tiers : Nat}
    (ht : 11 ≤ tiers + t.level) {e : Expr} :
    Reaches (binaryWith (expressionWithin s.levels) (operandWithin s.levels) tiers t.level) s e u ↔
      Nonempty (Phrase (.binary t) w e) := by
  have hs : Leaves s.levels { s with peak := max s.peak s.depth } :=
    ⟨by simp only [State.levels]; omega, Nat.le_max_right _ _⟩
  have hle := t.level_le
  have hreads := reads_binary (reads_expressionWithin s.levels) (reads_operandWithin s.levels)
    t.level_pos (by omega) ht t.ofLevel_level.symm
  have hpeak : Reaches (binaryWith (expressionWithin s.levels) (operandWithin s.levels) tiers
      t.level) { s with peak := max s.peak s.depth } e u ↔ Reaches (binaryWith (expressionWithin
        s.levels) (operandWithin s.levels) tiers t.level) s e u := by
    cases tiers <;> exact chain_reaches_iff
  refine hpeak.symm.trans ((hreads.reaches_iff hs (hw.repeak (max s.peak s.depth))).trans ?_)
  constructor
  · rintro ⟨_, -, d, rfl, -⟩
    exact ⟨d⟩
  · rintro ⟨d⟩
    have := d.need_lt
    exact ⟨d.need, by simp only [State.levels]; omega, d, rfl, by rw [d.bound_binary]; exact hk⟩

/-- Every expression of the grammar is read, nothing else is, and there is one tree to read. The
loop started at a tier reads what the rule of that tier derives. -/
theorem expression_follows_grammar :
    (∀ (s u : State) (p : List Terminal), Takes s p u →
      u.current.kind ∈ TokenKind.expressionEnds → s.depth + p.length + 1 ≤ s.limit →
      ∀ e, Reaches expression s e u ↔ Derives p e) ∧
    (∀ (s u : State) (p : List Terminal) (t : Tier) (tiers : Nat), Takes s p u →
      u.current.kind.grip < t.level + 2 → s.depth + p.length ≤ s.limit →
      11 ≤ tiers + t.level → ∀ e,
      Reaches (binaryWith (expressionWithin s.levels) (operandWithin s.levels) tiers t.level) s e u
        ↔ Nonempty (Phrase (.binary t) p e)) ∧
    ∀ (p : List Terminal) (e f : Expr), Derives p e → Derives p f → e = f := by
  refine ⟨?_, ?_, ?_⟩
  · intro s u p hp hk hl e
    exact expression_reaches_iff hp (TokenKind.grip_of_mem_expressionEnds hk) hl
  · intro s u p t tiers hp hk hl ht e
    exact binaryWith_reaches_iff hp hk hl ht
  · intro p e f he hf
    exact he.unique hf

/-- Operators of one tier group to the left, and a tighter one binds first. -/
theorem expression_follows_grammar_at_operators : ∃ s u : State, ∃ p : List Terminal,
    State.start? "a - b - c * d;" 8 = .ok s ∧ Takes s p u ∧
    u.current.kind ∈ TokenKind.expressionEnds ∧ s.depth + p.length + 1 ≤ s.limit ∧
    Reaches expression s (.binary .minus (.binary .minus (.literal (.identifier "a"))
      (.literal (.identifier "b"))) (.binary .multiply (.literal (.identifier "c"))
      (.literal (.identifier "d")))) u := by
  have hp : Takes ⟨⟨" - b - c * d;".toList, ⟨1, 2⟩⟩, ⟨.identifier, some "a", ⟨1, 1⟩⟩, 8, 0, 0⟩
      [carrying .identifier "a", fixed .minus, carrying .identifier "b", fixed .minus,
        carrying .identifier "c", fixed .multiply, carrying .identifier "d"]
      ⟨⟨[], ⟨1, 15⟩⟩, ⟨.semicolon, none, ⟨1, 14⟩⟩, 8, 0, 0⟩ :=
    .cons (by decide) rfl <| .cons (by decide) rfl <| .cons (by decide) rfl <|
      .cons (by decide) rfl <| .cons (by decide) rfl <| .cons (by decide) rfl <|
      .cons (by decide) rfl <| .nil _
  have factor (x : String) : Phrase (.binary .multiplicative) [carrying .identifier x]
      (.literal (.identifier x)) :=
    .operand (t := .multiplicative) (.trailing (.primary (.literal (.identifier x))))
  have product := (factor "c").binary .multiply (by decide)
    (.trailing (.primary (.literal (.identifier "d"))))
  have difference := ((Phrase.operand (t := .additive) (factor "a")).binary .minus (by decide)
    (factor "b")).binary .minus (by decide) product
  obtain ⟨sum, -⟩ := difference.lift (l := 1) (by decide) (by decide) (by decide)
    (Tier.ofLevel_level .additive).symm rfl
  exact ⟨_, _, _, rfl, hp, by decide, by decide,
    (expression_follows_grammar.1 _ _ _ hp (by decide) (by decide) _).mpr
      ⟨.conditional (.simple sum)⟩⟩

end Rule

end ScriptFront
