import ScriptFront.Proofs.Expr.Spelled
import ScriptFront.Proofs.Statement.Printed
import ScriptFront.Statement.Printer

/-! # The text of a program spells its terminals -/

namespace ScriptFront

open Terminal

/-- Lines spell terminals one behind the other. -/
inductive Lines : List String → List Terminal → Prop where
  | nil : Lines [] []
  | cons {s : String} {ls : List String} {v w : List Terminal} (hs : Spelt s v) (h : Lines ls w) :
      Lines (s :: ls) (v ++ w)

namespace Lines

variable {s before behind : String} {ls ms : List String} {u v w : List Terminal}

theorem single (h : Spelt s w) : Lines [s] w := by
  have := Lines.cons h .nil
  rwa [List.append_nil] at this

theorem append (hv : Lines ls v) (hw : Lines ms w) : Lines (ls ++ ms) (v ++ w) := by
  induction hv with
  | nil => exact hw
  | cons hs _ ih =>
    rw [List.cons_append, List.append_assoc]
    exact .cons hs ih

theorem indent (h : Lines ls w) : Lines (ls.map indent) w := by
  induction h with
  | nil => exact .nil
  | cons hs _ ih => exact .cons ((Spelt.fixed _ [] rfl).append hs) ih

theorem braced (hu : Spelt before u) (hv : Lines ls v) (hw : Spelt ("\x7d" ++ behind) w) :
    Lines (braced before ls behind) (u ++ fixed .openBrace :: (v ++ w)) := by
  have := Lines.cons (hu.append (.fixed "\x7b" [.openBrace] rfl)) (hv.indent.append (.single hw))
  rwa [List.append_assoc] at this

theorem block (hu : Spelt before u) (hv : Lines ls v) :
    Lines (ScriptFront.braced before ls "") (u ++ enclosed v) :=
  braced hu hv (.fixed _ [.closeBrace] rfl)

theorem unlines (h : Lines ls w) : Spelt (unlines ls) w := by
  induction h with
  | nil => exact fun cs => .nil cs
  | cons hs _ ih =>
    have := (hs.append (.fixed "\n" [] rfl)).append ih
    rw [List.map_nil, List.append_nil] at this
    intro cs
    simpa [ScriptFront.unlines, String.join_cons] using this cs

end Lines

theorem Declaration.spelt {d : Declaration} (h : d.isWellFormed = true) {s : String}
    (hs : Spelt s [fixed .semicolon]) (hc : closes s = true) : Spelt (d.text ++ s) d.printed := by
  rw [isWellFormed, Bool.and_eq_true, Bool.not_eq_true', Bool.eq_false_iff, ne_eq,
    List.contains_iff_mem] at h
  have hkind : Spelt (if d.isConst then "const " else "var ")
      [fixed (if d.isConst then .kwConst else .kwVar)] := by
    cases d.isConst with
    | true => exact .fixed _ [.kwConst] rfl
    | false => exact .fixed _ [.kwVar] rfl
  exact (((hkind.append (spelt_string h.1)).append (.fixed _ [.assign] rfl)).leads
    (Expr.written h.2)).followed hs hc

theorem ForInit.spelt {o : Option ForInit} (h : o.all ForInit.isWellFormed = true) :
    Spelt (ForInit.optionText o ++ "; ") (ForInit.printed o) := by
  match o, h with
  | none, _ => exact .fixed _ [.semicolon] rfl
  | some (.declaration d), h => exact Declaration.spelt h (.fixed _ [.semicolon] rfl) (by decide)
  | some (.expression e), h => exact (Expr.written h).ended _ [.semicolon] rfl

theorem Expr.clause_spelt {k : TokenKind} {s : String} (hs : Spelt s [fixed k])
    (hc : closes s = true) {o : Option Expr} (h : o.all Expr.isWellFormed = true) :
    Spelt (Expr.optionText o ++ s) (Expr.printedClause k o) := by
  match o, h with
  | none, _ =>
    have : "" ++ s = s := String.empty_append
    rw [Expr.optionText, this]
    exact hs
  | some e, h => exact (Expr.written h).followed hs hc

theorem Parameter.written {p : Parameter} (h : p.isWellFormed = true) :
    Written p.text p.printed := by
  match p, h with
  | .variadic, _ => exact (Spelt.fixed _ [.ellipsis] rfl).written
  | .named name none, h =>
    rw [isWellFormed, Bool.and_eq_true] at h
    exact written_name h.1
  | .named name (some e), h =>
    rw [isWellFormed, Bool.and_eq_true, Option.all_some] at h
    exact ((written_name h.1).ended _ [.assign] rfl).leads (Expr.written h.2)

namespace Segment

theorem head_path {s : String} {ss : List Segment} (hs : isName s = true) :
    (".".intercalate ((name s :: ss).map text)).toList.head?.any isWordStart = true := by
  cases ss with
  | nil =>
    rw [List.map_singleton, String.intercalate_singleton]
    exact any_isWordStart_of_isName hs
  | cons r ss =>
    rw [List.map_cons, List.map_cons, String.intercalate_cons_cons, String.append_assoc,
      String.toList_append]
    exact any_head_append (any_isWordStart_of_isName hs) _

/-- A path and the semicolon behind it. -/
theorem spelt_path {path : List Segment} (h : isPath path = true) :
    Spelt (".".intercalate (path.map text) ++ ";") (printedPath path ++ [fixed .semicolon]) := by
  match path, h with
  | .name s :: ss, h =>
    rw [isPath, Bool.and_eq_true] at h
    obtain ⟨hs, hss⟩ := h
    induction ss generalizing s with
    | nil => exact (written_name hs).ended _ [.semicolon] rfl
    | cons r ss ih =>
      intro cs
      match r, ss, hss with
      | .wildcard, [], _ =>
        have htail : Spells (".*;".toList ++ cs) _ cs :=
          .text [.period, .multiply, .semicolon] rfl (.nil cs)
        have := (spells_name hs (by simp [isWordRest])).append htail
        simpa [text, printedPath, printedTail] using this
      | .wildcard, _ :: _, h => cases h
      | .name r, ss, h =>
        rw [isTail, Bool.and_eq_true] at h
        have hhead : ((".".intercalate ((name r :: ss).map text) ++ ";").toList ++
            cs).head?.any isWordStart = true := by
          rw [String.toList_append, List.append_assoc]
          exact any_head_append (head_path h.1) _
        have hperiod := spells_period hhead (ih r h.1 h.2 cs)
        have := (spells_name hs fun c hc => by cases hc; decide).append hperiod
        simpa [text, printedPath, printedTail, String.intercalate_cons_cons] using this

end Segment

namespace Statement

/-- The head of a function in front of the parenthesis that closes its parameters. -/
theorem written_header {name : String} {ps : List Parameter} (hname : isName name = true)
    (hps : Parameter.allWellFormed ps = true) :
    Written ("function " ++ name ++ "(" ++ ", ".intercalate (ps.map Parameter.text))
      (fixed .kwFunction :: carrying .identifier name :: fixed .openParen ::
        separatedBy .comma (ps.map Parameter.printed)) := by
  rw [Parameter.allWellFormed, Bool.and_eq_true, List.all_eq_true] at hps
  have hopen := ((Spelt.fixed "function " [.kwFunction] rfl).leads (written_name hname)).ended "("
    [.openParen] rfl
  exact hopen.leads (.intercalate rfl fun p hp => Parameter.written (hps.1 p hp))

mutual

/-- The lines of a well-formed statement spell its terminals. -/
theorem lines_printed : (s : Statement) → s.isWellFormed = true → Lines s.lines s.printed
  | expression e, h => .single ((Expr.written (e := e) h).ended _ [.semicolon] rfl)
  | declaration d, h =>
    .single (Declaration.spelt (d := d) h (.fixed _ [.semicolon] rfl) (by decide))
  | ifElse (.mk e b) arms otherwise, h => by
    rw [isWellFormed, Arm.isWellFormed, Bool.and_eq_true, Bool.and_eq_true, Bool.and_eq_true] at h
    have hhead := ((Spelt.fixed "if (" [.kwIf, .openParen] rfl).leads
      (Expr.written h.1.1.1)).ended ") \x7b" [.closeParen, .openBrace] rfl
    have := Lines.cons hhead
      ((block_lines b h.1.1.2).indent.append
        (elses_lines arms h.1.2 (otherwise_lines otherwise h.2)))
    simpa [lines, printed, enclosed] using this
  | switch e cases default, h => by
    rw [isWellFormed, Bool.and_eq_true, Bool.and_eq_true] at h
    have hhead := ((Spelt.fixed "switch (" [.kwSwitch, .openParen] rfl).leads
      (Expr.written h.1.1)).ended ") " [.closeParen] rfl
    have := Lines.block hhead (cases_lines cases h.1.2 (default_lines default h.2))
    simpa [lines, printed, enclosed] using this
  | forEach x e b, h => by
    rw [isWellFormed, Bool.and_eq_true, Bool.and_eq_true] at h
    have hhead := ((((Spelt.fixed "for (" [.kwFor, .openParen] rfl).leads
      (written_name h.1.1)).ended " in " [.kwIn] rfl).leads
        (Expr.written h.1.2)).ended ") " [.closeParen] rfl
    have := Lines.block hhead (block_lines b h.2)
    simpa [lines, printed, enclosed] using this
  | forLoop init condition increment b, h => by
    rw [isWellFormed, Bool.and_eq_true, Bool.and_eq_true, Bool.and_eq_true] at h
    have hhead := ((Spelt.fixed "for (" [.kwFor, .openParen] rfl).append
      (ForInit.spelt h.1.1.1)).append ((Expr.clause_spelt (s := "; ") (k := .semicolon)
        (.fixed _ [.semicolon] rfl) (by decide) h.1.1.2).append (Expr.clause_spelt (s := ") ")
          (k := .closeParen) (.fixed _ [.closeParen] rfl) (by decide) h.1.2))
    have := Lines.block hhead (block_lines b h.2)
    simpa [lines, printed, enclosed, forHeader, String.append_assoc] using this
  | whileLoop e b, h => by
    rw [isWellFormed, Bool.and_eq_true] at h
    have hhead := ((Spelt.fixed "while (" [.kwWhile, .openParen] rfl).leads
      (Expr.written h.1)).ended ") " [.closeParen] rfl
    have := Lines.block hhead (block_lines b h.2)
    simpa [lines, printed, enclosed] using this
  | doWhile b e, h => by
    rw [isWellFormed, Bool.and_eq_true] at h
    have htail := (Spelt.fixed "\x7d" [.closeBrace] rfl).append
      (((Spelt.fixed " while (" [.kwWhile, .openParen] rfl).leads
        (Expr.written h.2)).ended ");" [.closeParen, .semicolon] rfl)
    have := Lines.braced (.fixed "do " [.kwDo] rfl) (block_lines b h.1) htail
    simpa [lines, printed, enclosed] using this
  | breakLoop, _ => .single (.fixed _ [.kwBreak, .semicolon] rfl)
  | continueLoop, _ => .single (.fixed _ [.kwContinue, .semicolon] rfl)
  | returnValues es, h => by
    rw [isWellFormed, Bool.and_eq_true] at h
    have hvalues : Written (" : ".intercalate (Expr.texts es))
        (separatedBy .colon (Expr.printedAll es)) := by
      rw [Expr.texts_eq_map, Expr.printedAll_eq_map]
      exact .intercalate rfl (Expr.written_text es h.2)
    exact .single (((Spelt.fixed "return " [.kwReturn] rfl).leads hvalues).ended _ [.semicolon] rfl)
  | function name ps none, h => by
    rw [isWellFormed, Bool.and_eq_true, Bool.and_eq_true] at h
    have := Lines.single ((written_header h.1.1 h.1.2).ended ");" [.closeParen, .semicolon] rfl)
    simpa [lines, printed, functionHeader, String.append_assoc] using this
  | function name ps (some b), h => by
    rw [isWellFormed, Bool.and_eq_true, Bool.and_eq_true] at h
    have := Lines.block ((written_header h.1.1 h.1.2).ended ") " [.closeParen] rfl)
      (block_lines b h.2)
    simpa [lines, printed, functionHeader, String.append_assoc] using this
  | importPath path, h => by
    have := Lines.single ((Spelt.fixed "import " [.kwImport] rfl).append (Segment.spelt_path h))
    rwa [← String.append_assoc] at this

/-- From the brace that closes the block before it. -/
theorem elses_lines : (arms : List Arm) → Arm.allWellFormed arms = true →
    {ls : List String} → {w : List Terminal} → Lines ls (fixed .closeBrace :: w) →
    Lines (elseIfLines arms ++ ls) (fixed .closeBrace :: printedElses arms w)
  | [], _, _, _, hw => hw
  | .mk e b :: arms, h, _, _, hw => by
    rw [Arm.allWellFormed, Arm.isWellFormed, Bool.and_eq_true, Bool.and_eq_true] at h
    have hopen := Spelt.fixed "\x7d else if (" [.closeBrace, .kwElse, .kwIf, .openParen] rfl
    have hhead := (hopen.leads (Expr.written h.1.1)).ended ") \x7b" [.closeParen, .openBrace] rfl
    have := Lines.cons hhead ((block_lines b h.1.2).indent.append (elses_lines arms h.2 hw))
    simpa [elseIfLines, printedElses, enclosed] using this

theorem otherwise_lines : (o : Option (List Statement)) → Block.optionWellFormed o = true →
    Lines (elseLines o) (fixed .closeBrace :: printedOtherwise o)
  | none, _ => .single (.fixed _ [.closeBrace] rfl)
  | some b, h =>
    Lines.block (.fixed "\x7d else " [.closeBrace, .kwElse] rfl) (block_lines b h)

theorem cases_lines : (arms : List Arm) → Arm.allWellFormed arms = true →
    {ls : List String} → {w : List Terminal} → Lines ls w →
    Lines (caseLines arms ++ ls) (printedCases arms w)
  | [], _, _, _, hw => hw
  | .mk e b :: arms, h, _, _, hw => by
    rw [Arm.allWellFormed, Arm.isWellFormed, Bool.and_eq_true, Bool.and_eq_true] at h
    have hhead := ((Spelt.fixed "case " [.kwCase] rfl).leads (Expr.written h.1.1)).ended ":"
      [.colon] rfl
    have := Lines.cons hhead ((block_lines b h.1.2).indent.append (cases_lines arms h.2 hw))
    simpa [caseLines, printedCases] using this

theorem default_lines : (o : Option (List Statement)) → Block.optionWellFormed o = true →
    Lines (defaultLines o) (printedDefault o)
  | none, _ => .nil
  | some b, h => .cons (.fixed _ [.kwDefault, .colon] rfl) (block_lines b h).indent

theorem block_lines : (b : List Statement) → Block.isWellFormed b = true →
    Lines (blockLines b) (printedBlock b)
  | [], _ => .nil
  | s :: ss, h => by
    rw [Block.isWellFormed, Bool.and_eq_true] at h
    exact (lines_printed s h.1).append (block_lines ss h.2)

end

end Statement

end ScriptFront
