import ScriptFront.Proofs.Statement.PrintedDepth
import ScriptFront.Proofs.Statement.Threshold

/-! # Programs that are written as deep as any

The bound on how deep a written program nests is the least one: at each limit a program is read that
is written with as many levels as the spread of the limit, which is quadratic from three on. An
assignment and a conditional take no level of their own until they are written. A call adds two
levels and may stand behind a chain between parentheses, as long as its argument is deep; written
without the parentheses, the links of the chain come on top of the argument. -/

namespace ScriptFront

open Terminal

/-- The text of a phrase is read where there are levels enough. -/
theorem exists_parse_of_sequence {w : List Terminal} {p : Program} (hw : Spellable w)
    (ds : Statement.Sequence w p) {limit : Nat} (h : ds.need ≤ limit) :
    ∃ text, parse text limit = .ok p := by
  obtain ⟨cs, hcs⟩ := hw.exists_spells
  rw [← String.toList_ofList (l := cs)] at hcs
  exact ⟨_, (parse_ok_iff_of_spells hcs).mpr ⟨ds, h⟩⟩

/-- A written program is read again or nests too deep. -/
theorem nestsTooDeep_display {p : Program} {limit : Nat} (h : Block.isWellFormed p = true)
    (hlimit : limit < Statement.printedBlockNeed p) : NestsTooDeep (Program.display p) limit := by
  by_contra hdeep
  have hsame := parse_eq_of_le (Nat.le_of_lt hlimit) hdeep
  rw [(parse_display_iff h).mpr (Nat.le_refl _)] at hsame
  exact absurd ((parse_display_iff h).mp hsame.symm) (Nat.not_le_of_lt hlimit)

namespace Expr

variable {s : String} {w : List Terminal} {e : Expr} {n : Nat}

def word (s : String) : Expr := literal (.identifier s)

/-- The expression `x = c ? e : d`. -/
def chosen (e : Expr) : Expr :=
  assign .assign (word "x") (conditional (word "c") e (word "d"))

/-- The expression `a.b.b` with `n` links. -/
def members : Nat → Expr
  | 0 => word "a"
  | n + 1 => member (members n) "b"

/-- The expression `x = a.b.b(e) ? c : d`. -/
def called (n : Nat) (e : Expr) : Expr :=
  assign .assign (word "x") (conditional (call (members n) [e]) (word "c") (word "d"))

/-- An expression of `n` levels that is written with as many as any. -/
def deepest : Nat → Expr
  | 0 => assign .assign (word "x") (word "y")
  | 1 => chosen (deepest 0)
  | 2 => chosen (deepest 1)
  | 3 => chosen (deepest 2)
  | n + 4 => called (n + 2) (deepest (n + 2))

theorem printedNeed_chosen (e : Expr) : (chosen e).printedNeed = e.printedNeed + 3 := by
  show max 0 (max 0 (max (e.printedNeed + 1) 1) + 1) + 1 = _
  omega

theorem printed_members (n : Nat) :
    (members n).printedBase = 0 ∧ (members n).printedLinks = n := by
  induction n with
  | zero => exact ⟨rfl, rfl⟩
  | succ n ih =>
    have hnumeral : (members n).isNumeral = false := by cases n <;> rfl
    obtain ⟨hbase, hlinks⟩ := ih
    constructor
    · rw [members, printedBase, hnumeral, if_neg Bool.false_ne_true, hbase]
    · rw [members, printedLinks, hlinks]

theorem printedNeed_called (n : Nat) (e : Expr) :
    (called n e).printedNeed = e.printedNeed + n + 4 := by
  obtain ⟨hbase, hlinks⟩ := printed_members n
  show max 0 (max (max (members n).printedBase (max (e.printedNeed + 1) 0) +
    ((members n).printedLinks + 1)) (max 1 1) + 1) + 1 = _
  omega

/-- Two levels more are used up by a chain of as many links as there are levels below. -/
theorem spread_add_four (n : Nat) : spread (n + 4) = spread (n + 2) + (n + 2) + 4 := by
  have hsquare : (n + 4 + 3) * (n + 4 + 3) = (n + 2 + 3) * (n + 2 + 3) + 4 * (n + 6) := by grind
  simp only [spread, hsquare]
  omega

theorem printedNeed_deepest (n : Nat) : (deepest n).printedNeed = spread n + 1 := by
  induction n using deepest.induct with
  | case1 => rfl
  | case2 ih | case3 ih | case4 ih =>
    rw [deepest, printedNeed_chosen, ih]
    rfl
  | case5 n ih =>
    rw [deepest, printedNeed_called, ih, spread_add_four]
    omega

/-- Some terminals with spellings are the expression and take `n` levels. -/
def Readable (n : Nat) (e : Expr) : Prop := ∃ w, Spellable w ∧ Needs .assignment w e n

theorem chained_word (s : String) : Chained [carrying .identifier s] (word s) 0 0 :=
  ⟨.primary (.literal (.identifier s)), rfl, rfl⟩

theorem spelling_kind {k : TokenKind} (h : k.spelling.isSome = true) : ∃ a, Spelling (fixed k) a :=
  ⟨_, .ofKind h⟩

theorem spelling_word (h : isName s = true) : ∃ a, Spelling (carrying .identifier s) a :=
  ⟨_, .name h⟩

theorem readable_assign (hs : isName s = true) (hw : Spellable w) (h : Needs .conditional w e n) :
    Readable n (assign .assign (word s) e) := by
  have hneeds := (chained_word s).conditional.assign .assign rfl h
  rw [Nat.zero_max] at hneeds
  refine ⟨_, ?_, hneeds⟩
  rw [Spellable.append_iff, Spellable.cons_iff, Spellable.cons_iff]
  exact ⟨⟨spelling_word hs, .nil⟩, spelling_kind rfl, hw⟩

theorem Readable.chosen (h : Readable n e) : Readable (n + 1) (chosen e) := by
  obtain ⟨w, hw, h⟩ := h
  have hchoice := (chained_word "c").choice h (chained_word "d").needs.toAssignment
  rw [show max (0 + 0) (max (n + 1) (0 + 0 + 1)) = n + 1 by omega] at hchoice
  refine readable_assign (by decide) ?_ hchoice
  simp only [Spellable.append_iff, Spellable.cons_iff]
  exact ⟨⟨spelling_word (by decide), .nil⟩, spelling_kind rfl, hw, spelling_kind rfl,
    spelling_word (by decide), .nil⟩

theorem chained_members (n : Nat) : ∃ w, Spellable w ∧ Chained w (members n) 0 n := by
  induction n with
  | zero => exact ⟨_, Spellable.cons_iff.mpr ⟨spelling_word (by decide), .nil⟩, chained_word "a"⟩
  | succ n ih =>
    obtain ⟨w, hw, h⟩ := ih
    refine ⟨_, ?_, h.member "b"⟩
    simp only [Spellable.append_iff, Spellable.cons_iff]
    exact ⟨hw, spelling_kind rfl, spelling_word (by decide), .nil⟩

/-- The chain between parentheses is one level deeper, as the argument is. -/
theorem Readable.called (h : Readable n e) : Readable (n + 2) (called n e) := by
  obtain ⟨w, hw, d, hd⟩ := h
  obtain ⟨v, hv, hmembers⟩ := chained_members n
  have hcall := hmembers.needs.group.call ⟨.single d, congrArg (· + 1) hd⟩
  have hchoice := hcall.choice (chained_word "c").needs.toAssignment
    (chained_word "d").needs.toAssignment
  rw [show max (max (0 + n + 1) (n + 1) + (0 + 1)) (max (0 + 0 + 1) (0 + 0 + 1)) = n + 2 by omega]
    at hchoice
  refine readable_assign (by decide) ?_ hchoice
  simp only [grouped, Spellable.append_iff, Spellable.cons_iff]
  exact ⟨⟨⟨spelling_kind rfl, hv, spelling_kind rfl, .nil⟩, spelling_kind rfl, hw,
    spelling_kind rfl, .nil⟩, spelling_kind rfl, ⟨spelling_word (by decide), .nil⟩,
    spelling_kind rfl, spelling_word (by decide), .nil⟩

theorem readable_deepest (n : Nat) : Readable n (deepest n) := by
  induction n using deepest.induct with
  | case1 =>
    refine readable_assign (by decide) ?_ (chained_word "y").conditional
    exact Spellable.cons_iff.mpr ⟨spelling_word (by decide), .nil⟩
  | case2 ih | case3 ih | case4 ih => exact ih.chosen
  | case5 n ih => exact ih.called

end Expr

/-- A program that is read at the limit and is written with as many levels as any. -/
def Program.deepest : Nat → Program
  | 0 => []
  | n + 1 => [.expression (Expr.deepest n)]

theorem Program.printedBlockNeed_deepest (limit : Nat) :
    Statement.printedBlockNeed (deepest limit) = Block.spread limit := by
  cases limit with
  | zero => rfl
  | succ n =>
    show max ((Expr.deepest n).printedNeed + 1) 0 = Expr.spread n + 2
    rw [Expr.printedNeed_deepest, Nat.max_zero]

theorem Program.exists_parse_deepest (limit : Nat) :
    ∃ text, parse text limit = .ok (deepest limit) := by
  cases limit with
  | zero => exact exists_parse_of_sequence .nil .nil (Nat.le_refl 0)
  | succ n =>
    obtain ⟨w, hw, d, hd⟩ := Expr.readable_deepest n
    have hneed : (Statement.Sequence.cons (.expression d) .nil).need ≤ n + 1 := by
      show max (d.need + 1) 0 ≤ n + 1
      omega
    refine exists_parse_of_sequence ?_ (.cons (.expression d) .nil) hneed
    simp only [Spellable.append_iff, Spellable.cons_iff]
    exact ⟨⟨hw, Expr.spelling_kind rfl, .nil⟩, .nil⟩

theorem Block.spread_eq {limit : Nat} (h : 3 ≤ limit) :
    spread limit = (limit + 2) * (limit + 2) / 4 + 2 := by
  obtain ⟨n, rfl⟩ := Nat.exists_eq_add_of_le' h
  have hroom : 2 - (n + 2) = 0 := by omega
  show (n + 5) * (n + 5) / 4 - (2 - (n + 2)) + 2 = (n + 5) * (n + 5) / 4 + 2
  rw [hroom, Nat.sub_zero]

/-- The quadratic bound cannot be lowered: at each limit from three on a program is read whose
display nests too deep for every limit below the bound. -/
theorem exists_nestsTooDeep {limit : Nat} (h : 3 ≤ limit) : ∃ text p, parse text limit = .ok p ∧
    ∀ further, further < (limit + 2) * (limit + 2) / 4 + 2 →
      NestsTooDeep (Program.display p) further := by
  obtain ⟨text, hparse⟩ := Program.exists_parse_deepest limit
  obtain ⟨w, hw, ds, -⟩ := exists_sequence_of_parse hparse
  refine ⟨text, _, hparse, ?_⟩
  intro further hfurther
  apply nestsTooDeep_display (ds.isWellFormed hw)
  rwa [Program.printedBlockNeed_deepest, Block.spread_eq h]

end ScriptFront
