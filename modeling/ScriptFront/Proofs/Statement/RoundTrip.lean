import ScriptFront.Proofs.Statement.Correct
import ScriptFront.Proofs.Statement.Same
import ScriptFront.Proofs.Statement.Spelled
import ScriptFront.Proofs.Statement.Writing

/-! # Written programs are read back -/

namespace ScriptFront

variable {p : Program} {limit : Nat}

/-- A text of spelled terminals is a program where they are one that nests no deeper than
allowed. -/
theorem parse_ok_iff_of_spells {text : String} {w : List Terminal} (h : Spells text.toList w []) :
    parse text limit = .ok p ↔ ∃ ds : Statement.Sequence w p, ds.need ≤ limit := by
  obtain ⟨s, u, hs, hw, heof, hl, hdepth, hpeak, -⟩ := start_of_spells h limit
  exact parse_ok_iff_of_takes hs hw heof hl hdepth hpeak

theorem spells_display (h : Block.isWellFormed p = true) :
    Spells (Program.display p).toList (Statement.printedBlock p) [] := by
  have := (Statement.block_lines p h).unlines []
  rw [List.append_nil] at this
  rwa [Program.display_eq_text]

/-- A written program is read again exactly where the limit leaves the levels that it takes. -/
theorem parse_display_iff (h : Block.isWellFormed p = true) :
    parse (Program.display p) limit = .ok p ↔ Statement.printedBlockNeed p ≤ limit := by
  obtain ⟨ds, hds⟩ := Statement.block_printed p h
  rw [parse_ok_iff_of_spells (spells_display h), ← hds]
  constructor
  · rintro ⟨es, hes⟩
    obtain ⟨s, u, -, hw, heof, -⟩ := start_of_spells (spells_display h) limit
    rwa [ds.need_unique es hw heof]
  · intro hneed
    exact ⟨ds, hneed⟩

/-- A written program nests no deeper than it has characters. -/
theorem printedBlockNeed_le (h : Block.isWellFormed p = true) :
    Statement.printedBlockNeed p ≤ (Program.display p).length := by
  obtain ⟨s, u, -, hw, -, -, -, -, hremaining⟩ := start_of_spells (spells_display h) 0
  obtain ⟨ds, hds⟩ := Statement.block_printed p h
  have := ds.need_le
  have := hw.length_add_remaining_le
  omega

/-- Every well-formed program is read back from what is written of it, as a tree that is the
same. -/
theorem parse_display (p : Program) (h : Block.isWellFormed p = true) (limit : Nat)
    (hl : (Program.display p).length + 1 ≤ limit) :
    parse (Program.display p) limit = .ok p ∧ Block.same p p = true := by
  have hneed := printedBlockNeed_le h
  exact ⟨(parse_display_iff h).mpr (by omega), Block.same_self p h⟩

/-- A numeral in front of a point, minus in front of minus, a quote in a string and a condition
behind `else`. -/
theorem parse_display_at_seams : ∃ p : Program, p = [.ifElse (.mk (.binary .less
      (.member (.literal (.float ⟨1069547520⟩)) "x") (.literal (.integer 7)))
      [.returnValues [.unary .negate (.unary .preDecrement (.literal (.identifier "y"))),
        .literal (.string "\"")]]) [.mk (.literal (.boolean true)) []] none] ∧
    Program.display p =
      "if (((1.5).x < 7)) \x7b\n    return (-(--y)) : \"\\\"\";\n\x7d else if (true) \x7b\n\x7d\n" ∧
    Block.isWellFormed p = true ∧ (Program.display p).length + 1 ≤ 100 ∧
    parse (Program.display p) 100 = .ok p ∧ Block.same p p = true :=
  ⟨_, rfl, by decide, by decide, by decide, parse_display _ (by decide) 100 (by decide)⟩

end ScriptFront
