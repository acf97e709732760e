import ScriptFront.Proofs.Statement.OneLine
import ScriptFront.Proofs.Statement.Writing

/-! # Displays are made of displays

A program is displayed as its statements one behind the other, and a block as its statements one
level further in. A statement looks the same at every level but for the indentation. -/

namespace ScriptFront

namespace Writer

variable {w : Writer} {s : String} {body : Writer → Writer}

@[simp] theorem level_indent : w.indent.level = w.level + 1 := rfl

@[simp] theorem level_dedent : w.dedent.level = w.level - 1 := rfl

@[simp] theorem level_write : (w.write s).level = w.level := by
  unfold write
  split
  · rfl
  · split <;> rfl

@[simp] theorem level_newline : w.newline.level = w.level := rfl

@[simp] theorem level_writeln : (w.writeln s).level = w.level := level_write

theorem level_inside (h : ∀ v : Writer, (body v).level = v.level) :
    (w.inside body).level = w.level := by
  simp [inside, h]

theorem level_braces (h : ∀ v : Writer, (body v).level = v.level) :
    (w.braces body).level = w.level := by
  simp [braces, level_inside h]

mutual

theorem level_statement : (s : Statement) → ∀ w : Writer, (w.statement s).level = w.level
  | .ifElse first elseIfs otherwise, w => by
    simp [statement, level_link first, level_links elseIfs, level_otherwise otherwise]
  | .switch _ cases default, w => by
    have hinner (v : Writer) : ((v.cases cases).default default).level = v.level := by
      rw [level_default default, level_cases cases]
    simp [statement, level_inside hinner]
  | .forEach _ _ body, w | .forLoop _ _ _ body, w | .whileLoop _ body, w | .doWhile body _, w
  | .function _ _ (some body), w => by
    simp [statement, level_braces (level_statements body)]
  | .expression _, w | .declaration _, w | .breakLoop, w | .continueLoop, w | .returnValues _, w
  | .function _ _ none, w | .importPath _, w => by
    simp [statement]

theorem level_link : (arm : Arm) → ∀ w : Writer, (w.link arm).level = w.level
  | .mk _ body, w => by simp [link, level_braces (level_statements body)]

theorem level_links : (arms : List Arm) → ∀ w : Writer, (w.links arms).level = w.level
  | [], w => by rw [links]
  | arm :: arms, w => by simp [links, level_links arms, level_link arm]

theorem level_otherwise : (o : Option (List Statement)) →
    ∀ w : Writer, (w.otherwise o).level = w.level
  | none, w => by rw [otherwise]
  | some body, w => by simp [otherwise, level_braces (level_statements body)]

theorem level_cases : (arms : List Arm) → ∀ w : Writer, (w.cases arms).level = w.level
  | [], w => by rw [cases]
  | .mk _ body :: arms, w => by
    simp [cases, level_cases arms, level_inside (level_statements body)]

theorem level_default : (o : Option (List Statement)) →
    ∀ w : Writer, (w.default o).level = w.level
  | none, w => by rw [default]
  | some body, w => by simp [default, level_inside (level_statements body)]

theorem level_statements : (b : List Statement) → ∀ w : Writer, (w.statements b).level = w.level
  | [], w => by rw [statements]
  | s :: b, w => by rw [statements, level_statements b, level_statement s]

end

end Writer

namespace Statement

theorem exists_braced_eq (before : String) (ls : List String) :
    ∃ ms, braced before ls "" = ms ++ ["\x7d"] :=
  ⟨(before ++ "\x7b") :: ls.map indent, rfl⟩

theorem exists_elseLines_eq (o : Option (List Statement)) : ∃ ms, elseLines o = ms ++ ["\x7d"] := by
  cases o with
  | none => exact ⟨[], by rw [elseLines, List.nil_append]⟩
  | some body =>
    rw [elseLines]
    exact exists_braced_eq _ _

/-- A statement ends with a semicolon or a closing brace. -/
theorem exists_lines_eq (s : Statement) :
    ∃ ls l e, s.lines = ls ++ [l ++ e] ∧ (e = ";" ∨ e = "\x7d") := by
  have hbrace {ls : List String} (h : ∃ ms, ls = ms ++ ["\x7d"]) :
      ∃ ms l e, ls = ms ++ [l ++ e] ∧ (e = ";" ∨ e = "\x7d") := by
    obtain ⟨ms, rfl⟩ := h
    exact ⟨ms, "", "\x7d", by rw [String.empty_append], .inr rfl⟩
  match s with
  | .ifElse (.mk condition body) elseIfs otherwise =>
    obtain ⟨ms, hms⟩ := exists_elseLines_eq otherwise
    rw [lines, hms, ← List.append_assoc, ← List.cons_append]
    exact hbrace ⟨_, rfl⟩
  | .switch .. | .forEach .. | .forLoop .. | .whileLoop .. | .function _ _ (some _) =>
    rw [lines]
    exact hbrace (exists_braced_eq _ _)
  | .doWhile body condition =>
    have hend : "\x7d" ++ (" while (" ++ condition.text ++ ");") =
        "\x7d" ++ (" while (" ++ condition.text ++ ")") ++ ";" := by
      have hclose : ");" = ")" ++ ";" := rfl
      rw [hclose]
      simp only [String.append_assoc]
    rw [lines, braced, ← List.cons_append, hend]
    exact ⟨_, _, ";", rfl, .inl rfl⟩
  | .breakLoop => exact ⟨[], "break", ";", by rw [lines]; rfl, .inl rfl⟩
  | .continueLoop => exact ⟨[], "continue", ";", by rw [lines]; rfl, .inl rfl⟩
  | .expression _ | .declaration _ | .returnValues _ | .function _ _ none | .importPath _ =>
    exact ⟨[], _, ";", by rw [lines]; rfl, .inl rfl⟩

theorem text_append_lineFeed (s : Statement) : s.text ++ "\n" = unlines s.lines := by
  obtain ⟨ls, l, e, hlines, -⟩ := s.exists_lines_eq
  rw [text, intercalate_append_lineFeed]
  rw [hlines]
  exact List.append_ne_nil_of_right_ne_nil ls (List.cons_ne_nil _ _)

theorem display_eq_text (s : Statement) : s.display = s.text := by
  obtain ⟨ls, l, e, hlines, he⟩ := s.exists_lines_eq
  have hsplit : unlines s.lines = unlines ls ++ l ++ e ++ "\n" := by
    rw [hlines, unlines_append, unlines_cons]
    simp [unlines, String.append_assoc]
  have htext : s.text = unlines ls ++ l ++ e :=
    (String.append_left_inj "\n").mp (s.text_append_lineFeed.trans hsplit)
  rw [display, Writer.statement_put s _ rfl, output_put_empty, hsplit, htext]
  rcases he with rfl | rfl
  · exact Text.trimEnd_line (c := ';') rfl (by decide) _
  · exact Text.trimEnd_line (c := '\x7d') rfl (by decide) _

end Statement

theorem Block.display_append_lineFeed (b : Block) :
    Block.display b ++ "\n" = unlines (braced "" (Statement.blockLines b) "") := by
  have hbraces : (Writer.empty.braces fun w => w.statements b) =
      Writer.empty.hold (["\x7b"] ++ (Statement.blockLines b).map indent) "\x7d" := by
    rw [Writer.braces, Writer.writeln_of_start rfl rfl, Writer.inside_put (Writer.statements_put b),
      Writer.write_put rfl]
  rw [display, hbraces, ← output_put_empty]
  exact congrArg Writer.output Writer.newline_hold

theorem Block.display_eq_text (b : Block) : Block.display b = Block.text b := by
  apply (String.append_left_inj "\n").mp
  rw [display_append_lineFeed, text]
  exact (intercalate_append_lineFeed (List.cons_ne_nil _ _)).symm

/-- A program is displayed by the displays of its statements, each ended by a line feed. Where no
string and no name holds a line feed, a block is displayed by its program, four spaces further in,
between braces, and a statement is written at any level as it is displayed, behind the indentation.
The level is always left as it was. -/
theorem display_is_compositional :
    (∀ p : Program, Program.display p = String.join (p.map fun s => s.display ++ "\n")) ∧
    (∀ b : Block, (∀ v ∈ Block.atoms b, v.IsOneLine) →
      Block.display b = "\x7b\n" ++ Text.indented 4 (Program.display b) ++ "\x7d") ∧
    (∀ (s : Statement) (w : Writer), (∀ v ∈ s.atoms, v.IsOneLine) → w.atLineStart = true →
      w.statement s =
        ⟨w.output ++ Text.indented (w.level * indentWidth) (s.display ++ "\n"), w.level, true⟩) ∧
    ∀ (s : Statement) (w : Writer), (w.statement s).level = w.level := by
  refine ⟨fun p => ?_, fun b h => ?_, fun s w h hw => ?_, Writer.level_statement⟩
  · rw [Program.display_eq_text, Program.text]
    induction p with
    | nil => rfl
    | cons s p ih =>
      rw [Statement.blockLines, unlines_append, ih, List.map_cons, String.join_cons,
        s.display_eq_text, s.text_append_lineFeed]
  · have hlast : unlines ["\x7d" ++ ""] = "\x7d" ++ "\n" := rfl
    have hindent : (spaces 4 ++ ·) = indent := rfl
    apply (String.append_left_inj "\n").mp
    rw [Block.display_append_lineFeed, Program.display_eq_text, Program.text,
      Text.indented_unlines (Statement.oneLine_blockLines b h), hindent, braced, unlines_cons,
      unlines_append, hlast, ← String.append_assoc, ← String.append_assoc]
    rfl
  · rw [Writer.statement_put s w hw, s.display_eq_text, s.text_append_lineFeed,
      Text.indented_unlines (Statement.oneLine_lines s h)]
    rfl

/-- A loop inside a chain of conditions, displayed in a block and written two levels in. -/
theorem display_is_compositional_at_loop :
    let a : Expr := .literal (.identifier "a")
    let s : Statement := .ifElse (.mk a [.doWhile [.breakLoop] a]) []
      (some [.returnValues [.literal (.string "b c")]])
    let w : Writer := ⟨"x;\n", 2, true⟩
    (∀ v ∈ Block.atoms [s], v.IsOneLine) ∧
      Block.display [s] = "\x7b\n" ++ Text.indented 4 (Program.display [s]) ++ "\x7d" ∧
      Program.display [s] = "if (a) \x7b\n    do \x7b\n        break;\n    \x7d while (a);\n" ++
        "\x7d else \x7b\n    return \"b c\";\n\x7d\n" ∧
      w.atLineStart = true ∧
      w.statement s = ⟨"x;\n" ++ Text.indented 8 (s.display ++ "\n"), 2, true⟩ := by
  intro a s w
  obtain ⟨-, hblock, hstatement, -⟩ := display_is_compositional
  have hatoms : ∀ v ∈ Block.atoms [s], v.IsOneLine := by
    simp +decide [s, a, Block.atoms, Block.atomsOptional, Statement.atoms, Arm.atoms, Arm.atomsAll,
      Expr.atoms, Expr.atomsAll, Literal.IsOneLine]
  have hatoms' : ∀ v ∈ s.atoms, v.IsOneLine := by
    rwa [Block.atoms, Block.atoms, List.append_nil] at hatoms
  exact ⟨hatoms, hblock [s] hatoms, by decide +kernel, rfl, hstatement s w hatoms' rfl⟩

end ScriptFront
