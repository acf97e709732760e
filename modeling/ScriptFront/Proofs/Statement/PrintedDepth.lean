import ScriptFront.Proofs.Expr.PrintedDepth
import ScriptFront.Proofs.Statement.Legible
import ScriptFront.Proofs.Statement.RoundTrip

/-! # How deep a written program nests

What a program is written as may nest deeper than what it was read from. Up to a limit of six,
three times the limit is enough to read it again; from seven on it takes about the square of half
the limit. -/

namespace ScriptFront

/-- The nesting levels of what a block of `n` levels is written as. -/
def Block.spread : Nat → Nat
  | 0 => 0
  | n + 1 => Expr.spread n + 2

namespace Block

theorem spread_succ (n : Nat) : spread n + 1 ≤ spread (n + 1) := by
  cases n with
  | zero => decide
  | succ n =>
    have := Expr.spread_succ n
    simp only [spread]
    omega

theorem spread_mono {m n : Nat} (h : m ≤ n) : spread m ≤ spread n := by
  induction h with
  | refl => exact Nat.le_refl _
  | step _ ih => exact Nat.le_trans ih (Nat.le_of_succ_le (spread_succ _))

/-- What takes one level more than something that takes `k` levels. -/
theorem lt_spread {a k n : Nat} (h : k + 1 ≤ n) (ha : ∀ m, k ≤ m → a ≤ spread m) :
    a + 1 ≤ spread n :=
  Nat.le_trans (Nat.succ_le_succ (ha k (Nat.le_refl k)))
    (Nat.le_trans (spread_succ k) (spread_mono h))

theorem spread_le (limit : Nat) :
    spread limit ≤ if limit ≤ 6 then 3 * limit else (limit + 2) * (limit + 2) / 4 + 2 := by
  split
  · rename_i h
    have table : ∀ n ≤ 6, spread n ≤ 3 * n := by decide
    exact table limit h
  · rename_i h
    obtain ⟨n, rfl⟩ := Nat.exists_eq_add_of_le' (Nat.le_of_not_le h)
    exact Nat.add_le_add_right (Nat.sub_le _ _) 2

end Block

/-- An expression one level deeper. -/
theorem Expr.Phrase.printedNeed_lt_spread {s : Symbol} {w : List Terminal} {e : Expr} {n : Nat}
    (d : Expr.Phrase s w e) (h : d.need + 1 ≤ n) : e.printedNeed + 1 ≤ Block.spread n := by
  refine Nat.le_trans ?_ (Block.spread_mono h)
  have hd := d.printedNeed_le
  show _ ≤ Expr.spread d.need + 2
  cases s <;> simp only [slack] at hd <;> omega

theorem Expr.Values.printedItemsNeed_le {w : List Terminal} {es : List Expr} {n : Nat}
    (ds : Expr.Values w es) (h : ds.need ≤ n) : Expr.printedItemsNeed es ≤ Block.spread n := by
  induction ds with
  | single d => exact Nat.max_le.mpr ⟨d.printedNeed_lt_spread h, Nat.zero_le _⟩
  | cons d ds ih =>
    obtain ⟨hd, hds⟩ := Nat.max_le.mp h
    exact Nat.max_le.mpr ⟨d.printedNeed_lt_spread hd, ih hds⟩

theorem Parameter.Phrase.printedNeed_le {w : List Terminal} {p : Parameter} {n : Nat}
    (d : Parameter.Phrase w p) (h : d.need ≤ n) : p.printedNeed ≤ Block.spread n := by
  cases d with
  | variadic | required => exact Nat.zero_le _
  | defaulted name d => exact d.printedNeed_lt_spread h

theorem Parameter.Listed.printedListNeed_le {w : List Terminal} {ps : List Parameter} {n : Nat}
    (ds : Parameter.Listed w ps) (h : ds.need ≤ n) :
    Parameter.printedListNeed ps ≤ Block.spread n := by
  induction ds with
  | nil => exact Nat.zero_le _
  | single d => exact Nat.max_le.mpr ⟨d.printedNeed_le h, Nat.zero_le _⟩
  | cons d ds ih =>
    obtain ⟨hd, hds⟩ := Nat.max_le.mp h
    exact Nat.max_le.mpr ⟨d.printedNeed_le hd, ih hds⟩

theorem Declaration.Phrase.printedNeed_lt_spread {w : List Terminal} {x : Declaration} {n : Nat}
    (d : Declaration.Phrase w x) (h : d.need ≤ n) :
    x.value.printedNeed + 1 ≤ Block.spread n := by
  cases d with
  | mk _ _ d => exact d.printedNeed_lt_spread h

theorem ForInit.Phrase.printedNeed_le {w : List Terminal} {init : Option ForInit} {n : Nat}
    (d : ForInit.Phrase w init) (h : d.need ≤ n) : ForInit.printedNeed init ≤ Block.spread n := by
  cases d with
  | none => exact Nat.zero_le _
  | declaration d => exact d.printedNeed_lt_spread h
  | expression d => exact d.printedNeed_lt_spread h

theorem Expr.Clause.printedClauseNeed_le {close : TokenKind} {w : List Terminal}
    {c : Option Expr} {n : Nat} (d : Expr.Clause close w c) (h : d.need ≤ n) :
    Expr.printedClauseNeed c ≤ Block.spread n := by
  cases d with
  | none => exact Nat.zero_le _
  | some d => exact d.printedNeed_lt_spread h

namespace Statement

theorem printedBlockNeed_append (b c : List Statement) :
    printedBlockNeed (b ++ c) = max (printedBlockNeed b) (printedBlockNeed c) := by
  induction b with
  | nil => exact (Nat.zero_max _).symm
  | cons s b ih =>
    show max _ (printedBlockNeed (b ++ c)) = _
    rw [ih, ← Nat.max_assoc]
    rfl

mutual

/-- A statement or nothing, written as a block. -/
theorem Phrase.printedBlockNeed_le {o : Bool} {w : List Terminal} {s : Option Statement} {n : Nat} :
    (d : Phrase o w s) → d.need ≤ n → printedBlockNeed s.toList ≤ Block.spread n
  | .empty, _ | .breakLoop, _ | .continueLoop, _ | .importPath _ _, _ => Nat.zero_le _
  | .expression d, h => Nat.max_le.mpr ⟨d.printedNeed_lt_spread h, Nat.zero_le _⟩
  | .declaration d, h => Nat.max_le.mpr ⟨d.printedNeed_lt_spread h, Nat.zero_le _⟩
  | .returnValues ds, h => Nat.max_le.mpr ⟨ds.printedItemsNeed_le h, Nat.zero_le _⟩
  | .forward _ ds _, h =>
    Nat.max_le.mpr ⟨Nat.max_le.mpr ⟨ds.printedListNeed_le h, Nat.zero_le _⟩, Nat.zero_le _⟩
  | .function _ ds _ body _, h => by
    obtain ⟨hds, hbody⟩ := Nat.max_le.mp h
    exact Nat.max_le.mpr ⟨Nat.max_le.mpr ⟨ds.printedListNeed_le hds,
      body.printedBlockNeed_lt hbody⟩, Nat.zero_le _⟩
  | .ifElse d body rest _, h => by
    simp only [Phrase.need, Nat.max_le] at h
    obtain ⟨harms, ho⟩ := rest.printedNeed_le h.2.2
    simp only [Option.toList_some, printedBlockNeed, printedNeed, printedArmNeed, Nat.max_le]
    exact ⟨⟨⟨d.printedNeed_lt_spread h.1, body.printedBlockNeed_lt h.2.1⟩, harms, ho⟩,
      Nat.zero_le _⟩
  | .switch d parts, h => by
    simp only [Phrase.need, Nat.max_le] at h
    obtain ⟨harms, ho⟩ := parts.printedNeed_le h.2
    simp only [Option.toList_some, printedBlockNeed, printedNeed, Nat.max_le]
    exact ⟨⟨d.printedNeed_lt_spread h.1, harms, ho⟩, Nat.zero_le _⟩
  | .forEach _ d body, h | .whileLoop d body, h => by
    obtain ⟨hd, hbody⟩ := Nat.max_le.mp h
    exact Nat.max_le.mpr ⟨Nat.max_le.mpr ⟨d.printedNeed_lt_spread hd,
      body.printedBlockNeed_lt hbody⟩, Nat.zero_le _⟩
  | .forLoop di dc dn body, h => by
    simp only [Phrase.need, Nat.max_le] at h
    simp only [Option.toList_some, printedBlockNeed, printedNeed, Nat.max_le]
    exact ⟨⟨di.printedNeed_le h.1, dc.printedClauseNeed_le h.2.1, dn.printedClauseNeed_le h.2.2.1,
      body.printedBlockNeed_lt h.2.2.2⟩, Nat.zero_le _⟩
  | .doWhile body d, h => by
    obtain ⟨hbody, hd⟩ := Nat.max_le.mp h
    exact Nat.max_le.mpr ⟨Nat.max_le.mpr ⟨body.printedBlockNeed_lt hbody,
      d.printedNeed_lt_spread hd⟩, Nat.zero_le _⟩

/-- A body one level deeper. -/
theorem Body.printedBlockNeed_lt {o : Bool} {w : List Terminal} {b : List Statement} {n : Nat} :
    (d : Body o w b) → d.need + 1 ≤ n → printedBlockNeed b + 1 ≤ Block.spread n
  | .braces ds, h => Block.lt_spread h fun _ hm => ds.printedBlockNeed_le hm
  | .single d, h => Block.lt_spread h fun _ hm => d.printedBlockNeed_le hm

theorem Sequence.printedBlockNeed_le {w : List Terminal} {b : List Statement} {n : Nat} :
    (ds : Sequence w b) → ds.need ≤ n → printedBlockNeed b ≤ Block.spread n
  | .nil, _ => Nat.zero_le _
  | .cons d ds, h => by
    obtain ⟨hd, hds⟩ := Nat.max_le.mp h
    rw [printedBlockNeed_append]
    exact Nat.max_le.mpr ⟨d.printedBlockNeed_le hd, ds.printedBlockNeed_le hds⟩

theorem Elses.printedNeed_le {o : Bool} {w : List Terminal} {arms : List Arm}
    {otherwise : Option (List Statement)} {n : Nat} : (d : Elses o w arms otherwise) →
      d.need ≤ n → printedArmsNeed arms ≤ Block.spread n ∧
        printedOptionNeed otherwise ≤ Block.spread n
  | .none, _ => ⟨Nat.zero_le _, Nat.zero_le _⟩
  | .otherwise body _, h => ⟨Nat.zero_le _, body.printedBlockNeed_lt h⟩
  | .elseIf d body rest _, h => by
    simp only [Elses.need, Nat.max_le] at h
    obtain ⟨harms, ho⟩ := rest.printedNeed_le h.2.2
    simp only [printedArmsNeed, printedArmNeed, Nat.max_le]
    exact ⟨⟨⟨d.printedNeed_lt_spread h.1, body.printedBlockNeed_lt h.2.1⟩, harms⟩, ho⟩

theorem Parts.printedNeed_le {w : List Terminal} {cases : List Arm}
    {default : Option (List Statement)} {n : Nat} : (d : Parts w cases default) → d.need ≤ n →
      printedArmsNeed cases ≤ Block.spread n ∧ printedOptionNeed default ≤ Block.spread n
  | .nil, _ => ⟨Nat.zero_le _, Nat.zero_le _⟩
  | .case d ds rest, h => by
    simp only [Parts.need, Nat.max_le] at h
    obtain ⟨harms, ho⟩ := rest.printedNeed_le h.2.2
    have hbody := Block.lt_spread h.2.1 fun _ hm => ds.printedBlockNeed_le hm
    simp only [printedArmsNeed, printedArmNeed, Nat.max_le]
    exact ⟨⟨⟨d.printedNeed_lt_spread h.1, hbody⟩, harms⟩, ho⟩
  | .default ds rest, h => by
    obtain ⟨hds, hrest⟩ := Nat.max_le.mp h
    exact ⟨(rest.printedNeed_le hrest).1, Block.lt_spread hds fun _ hm => ds.printedBlockNeed_le hm⟩

end

end Statement

/-- A program that is read at a limit is read again from what is written of it: up to six at three
times the limit, and beyond at a limit quadratic in it. -/
theorem parse_display_of_parse {text : String} {limit : Nat} {p : Program}
    (h : parse text limit = .ok p) {further : Nat}
    (hfurther : (if limit ≤ 6 then 3 * limit else (limit + 2) * (limit + 2) / 4 + 2) ≤ further) :
    parse (Program.display p) further = .ok p ∧ Block.same p p = true := by
  obtain ⟨w, hw, ds, hds⟩ := exists_sequence_of_parse h
  have hp := ds.isWellFormed hw
  have hneed := Nat.le_trans (ds.printedBlockNeed_le hds) (Block.spread_le limit)
  exact ⟨(parse_display_iff hp).mpr (Nat.le_trans hneed hfurther), Block.same_self p hp⟩

/-- The links in front of the call join its own, on top of what nests in its argument. -/
theorem parse_display_of_parse_at_call : ∃ p : Program, parse
      "x = (a.b.b.b.b)(x = c ? x = c ? x = c ? x = c ? x = y : d : d : d : d) ? d : d;" 7 = .ok p ∧
    (if 7 ≤ 6 then 3 * 7 else (7 + 2) * (7 + 2) / 4 + 2) ≤ 22 ∧
    parse (Program.display p) 22 = .ok p ∧ Block.same p p = true := by
  have hread : ∃ p, parse
      "x = (a.b.b.b.b)(x = c ? x = c ? x = c ? x = c ? x = y : d : d : d : d) ? d : d;" 7 = .ok p ∧
        True := by
    decide +kernel
  obtain ⟨p, hp, -⟩ := hread
  exact ⟨p, hp, by decide, parse_display_of_parse hp (by decide)⟩

/-- Three times the limit is too little there. -/
theorem not_parse_display_at_three_times : ∃ p : Program, parse
      "x = (a.b.b.b.b)(x = c ? x = c ? x = c ? x = c ? x = y : d : d : d : d) ? d : d;" 7 = .ok p ∧
    parse (Program.display p) (3 * 7) =
      .error (.grammatical (.nestingTooDeep (3 * 7)) ⟨1, 16⟩) := by
  decide +kernel

end ScriptFront
