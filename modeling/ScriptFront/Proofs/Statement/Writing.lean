import ScriptFront.Proofs.Text.OneLine

/-! # What a writer writes

At the start of a line a writer puts the lines of a statement behind its indentation, and stands at
the start of a line again, at the same level. In between it holds the beginning of a line. So what
is written inside a block are its lines one level further in. -/

namespace ScriptFront

namespace Writer

variable {w : Writer} {ls ms : List String} {s t : String} {body : Writer → Writer}

/-- The indentation of a line. -/
def margin (w : Writer) : String := spaces (w.level * indentWidth)

/-- Writes whole lines. -/
def put (w : Writer) (ls : List String) : Writer :=
  ⟨w.output ++ unlines (ls.map (w.margin ++ ·)), w.level, true⟩

/-- Writes whole lines and the beginning of one more. -/
def hold (w : Writer) (ls : List String) (s : String) : Writer :=
  ⟨(w.put ls).output ++ w.margin ++ s, w.level, false⟩

/-- A part of the printer writes these lines where a line starts. -/
def Writes (body : Writer → Writer) (ls : List String) : Prop :=
  ∀ w : Writer, w.atLineStart = true → body w = w.put ls

theorem put_nil (h : w.atLineStart = true) : w.put [] = w := by
  obtain ⟨output, level, start⟩ := w
  cases h
  simp [put, unlines]

@[simp] theorem put_put : (w.put ls).put ms = w.put (ls ++ ms) := by
  simp [put, margin, unlines_append, String.append_assoc]

theorem write_put (h : s.isEmpty = false) : (w.put ls).write s = w.hold ls s := by
  simp [write, put, hold, margin, h]

theorem write_of_start (hw : w.atLineStart = true) (h : s.isEmpty = false) :
    w.write s = w.hold [] s := by
  have hput : (w.put []).write s = w.hold [] s := write_put h
  rwa [put_nil hw] at hput

@[simp] theorem write_hold : (w.hold ls t).write s = w.hold ls (t ++ s) := by
  by_cases h : s.isEmpty = true
  · obtain rfl := String.isEmpty_iff.mp h
    simp [write]
  · simp [write, hold, h, String.append_assoc]

@[simp] theorem newline_hold : (w.hold ls t).newline = w.put (ls ++ [t]) := by
  simp [newline, hold, put, unlines_append, unlines_cons, String.append_assoc]
  simp [unlines]

theorem writeln_put (h : s.isEmpty = false) : (w.put ls).writeln s = w.put (ls ++ [s]) := by
  rw [writeln, write_put h, newline_hold]

theorem writeln_of_start (hw : w.atLineStart = true) (h : s.isEmpty = false) :
    w.writeln s = w.put [s] := by
  have hput : (w.put []).writeln s = w.put [s] := writeln_put h
  rwa [put_nil hw] at hput

/-- One level further in, the indentation is one more part of each line. -/
theorem dedent_put_indent (w : Writer) (ls : List String) :
    (w.indent.put ls).dedent = w.put (ls.map ScriptFront.indent) := by
  have hmargin : (w.indent.margin ++ ·) = (w.margin ++ ·) ∘ ScriptFront.indent := by
    have hwidth : spaces indentWidth = "    " := rfl
    funext l
    rw [Function.comp_apply, ScriptFront.indent, ← hwidth, ← String.append_assoc, margin, margin,
      ← spaces_add, ← Nat.succ_mul]
    rfl
  rw [put, put, List.map_map, ← hmargin]
  rfl

theorem inside_put (h : Writes body ms) :
    (w.put ls).inside body = w.put (ls ++ ms.map ScriptFront.indent) := by
  rw [inside, h _ rfl, dedent_put_indent, put_put]

theorem braces_hold (h : Writes body ms) : (w.hold ls t).braces body =
    w.hold (ls ++ (t ++ "\x7b") :: ms.map ScriptFront.indent) "\x7d" := by
  rw [braces, writeln, write_hold, newline_hold, inside_put h, write_put rfl, List.append_assoc]
  rfl

/-- A block behind what opens it, with what follows its closing brace. -/
theorem Writes.braced (hs : s.isEmpty = false) (h : Writes body ms) (behind : String) :
    Writes (fun w => ((w.write s).braces body).writeln behind) (braced s ms behind) := by
  intro w hw
  dsimp only
  rw [write_of_start hw hs, braces_hold h, writeln, write_hold, newline_hold]
  rfl

theorem Writes.block (hs : s.isEmpty = false) (h : Writes body ms) :
    Writes (fun w => ((w.write s).braces body).newline) (ScriptFront.braced s ms "") := by
  intro w hw
  have := h.braced hs "" w hw
  simpa [writeln, write] using this

/-- What opens a block ends with its brace. -/
theorem header_append (s : String) : s ++ ") " ++ "\x7b" = s ++ ") \x7b" := by
  rw [String.append_assoc]
  rfl

mutual

theorem statement_put : (s : Statement) → ∀ w : Writer, w.atLineStart = true →
    w.statement s = w.put s.lines
  | .ifElse (.mk condition body) elseIfs otherwise, w, hw => by
    rw [statement, link, write_of_start hw (by simp), braces_hold (statements_put body),
      links_hold elseIfs, otherwise_hold otherwise, Statement.lines, header_append]
    rfl
  | .switch subject cases default, w, hw => by
    have hinner : Writes (fun w => (w.cases cases).default default)
        (Statement.caseLines cases ++ Statement.defaultLines default) := by
      intro v hv
      dsimp only
      rw [cases_put cases v hv, default_put default _ rfl, put_put]
    rw [statement, writeln_of_start hw (by simp), inside_put hinner, writeln_put rfl,
      Statement.lines, braced, header_append]
    rfl
  | .forEach _ _ body, w, hw => by
    rw [statement, Statement.lines]
    exact Writes.block (by simp) (statements_put body) w hw
  | .forLoop _ _ _ body, w, hw => by
    rw [statement, Statement.lines]
    exact Writes.block (by simp [Statement.forHeader]) (statements_put body) w hw
  | .whileLoop _ body, w, hw => by
    rw [statement, Statement.lines]
    exact Writes.block (by simp) (statements_put body) w hw
  | .doWhile body _, w, hw => by
    rw [statement, Statement.lines]
    exact Writes.braced rfl (statements_put body) _ w hw
  | .function name parameters (some body), w, hw => by
    have hheader : (Statement.functionHeader name parameters).isEmpty = false := by
      simp [Statement.functionHeader]
    rw [statement, Statement.lines, write_of_start hw hheader, write_hold,
      ← write_of_start hw (by simp)]
    exact Writes.block (by simp) (statements_put body) w hw
  | .expression _, w, hw | .declaration _, w, hw | .breakLoop, w, hw | .continueLoop, w, hw
  | .returnValues _, w, hw | .function _ _ none, w, hw | .importPath _, w, hw => by
    rw [statement, Statement.lines]
    exact writeln_of_start hw (by simp)

theorem links_hold : (arms : List Arm) → ∀ (w : Writer) (ls : List String),
    (w.hold ls "\x7d").links arms = w.hold (ls ++ Statement.elseIfLines arms) "\x7d"
  | [], w, ls => by rw [links, Statement.elseIfLines, List.append_nil]
  | .mk condition body :: arms, w, ls => by
    have hheader : "\x7d" ++ " else " ++ ("if (" ++ condition.text ++ ") ") =
        "\x7d else if (" ++ condition.text ++ ") " := by
      rw [← String.append_assoc, ← String.append_assoc]
      rfl
    rw [links, link, write_hold, write_hold, braces_hold (statements_put body), links_hold arms,
      Statement.elseIfLines, hheader, header_append, List.append_assoc]
    rfl

theorem otherwise_hold : (o : Option (List Statement)) → ∀ (w : Writer) (ls : List String),
    ((w.hold ls "\x7d").otherwise o).newline = w.put (ls ++ Statement.elseLines o)
  | none, w, ls => by rw [otherwise, newline_hold, Statement.elseLines]
  | some body, w, ls => by
    rw [otherwise, write_hold, braces_hold (statements_put body), newline_hold,
      Statement.elseLines, List.append_assoc]
    rfl

theorem cases_put : (arms : List Arm) → ∀ w : Writer, w.atLineStart = true →
    w.cases arms = w.put (Statement.caseLines arms)
  | [], w, hw => by rw [cases, Statement.caseLines, put_nil hw]
  | .mk label body :: arms, w, hw => by
    rw [cases, writeln_of_start hw (by simp), inside_put (statements_put body),
      cases_put arms _ rfl, put_put, Statement.caseLines]
    rfl

theorem default_put : (o : Option (List Statement)) → ∀ w : Writer, w.atLineStart = true →
    w.default o = w.put (Statement.defaultLines o)
  | none, w, hw => by rw [default, Statement.defaultLines, put_nil hw]
  | some body, w, hw => by
    rw [default, writeln_of_start hw rfl, inside_put (statements_put body), Statement.defaultLines]
    rfl

theorem statements_put : (b : List Statement) → ∀ w : Writer, w.atLineStart = true →
    w.statements b = w.put (Statement.blockLines b)
  | [], w, hw => by rw [statements, Statement.blockLines, put_nil hw]
  | s :: b, w, hw => by
    rw [statements, statement_put s w hw, statements_put b _ rfl, put_put, Statement.blockLines]

end

end Writer

/-- A new writer stands at the margin. -/
theorem output_put_empty (ls : List String) : (Writer.empty.put ls).output = unlines ls := by
  have hmargin (l : String) : Writer.empty.margin ++ l = l := String.empty_append
  have hlines : ls.map (Writer.empty.margin ++ ·) = ls := by
    simp only [hmargin, List.map_id']
  rw [Writer.put, hlines]
  exact String.empty_append

theorem Program.display_eq_text (p : Program) : Program.display p = Program.text p := by
  rw [display, Writer.statements_put p _ rfl, output_put_empty, text]

end ScriptFront
