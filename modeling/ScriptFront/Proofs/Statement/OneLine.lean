import ScriptFront.Proofs.Number.Decimal
import ScriptFront.Proofs.Statement.Atoms
import ScriptFront.Proofs.Text.OneLine
import ScriptFront.Proofs.Text.Quoted

/-! # Lines without line feeds

The printer puts no line feed inside a line. One that stands there comes from a string or a name. -/

namespace ScriptFront

theorem oneLine_of_isDigit {cs : List Char} (h : ∀ c ∈ cs, c.isDigit = true) : '\n' ∉ cs :=
  fun hc => absurd (h _ hc) (by decide)

theorem oneLine_toString_nat (n : Nat) : OneLine (toString n) := by
  rw [OneLine, Nat.toString_eq_repr, Nat.toList_repr]
  apply oneLine_of_isDigit
  intro c hc
  exact Nat.isDigit_of_mem_toDigits (by decide) (by decide) hc

theorem oneLine_toString_int (i : Int) : OneLine (toString i) := by
  cases i with
  | ofNat n => exact oneLine_toString_nat n
  | negSucc n => exact OneLine.append_iff.mpr ⟨by decide, oneLine_toString_nat (n + 1)⟩

theorem Decimal.oneLine_text (d : Decimal) : OneLine d.text := by
  have hdigits := oneLine_of_isDigit d.isDigit_of_mem_text
  rw [OneLine, toList_text]
  simpa using hdigits

theorem Binary32.oneLine_text (x : Binary32) : OneLine x.text := by
  unfold text
  split
  · decide
  · rw [OneLine.append_iff]
    constructor
    · split <;> decide
    · split
      · exact Decimal.oneLine_text _
      · decide

theorem Quoted.oneLine_encode {s : String} (h : OneLine s) : OneLine (encode s) := by
  have hchar (c : Char) (hc : '\n' ∈ encodeChar c) : c = '\n' := by
    unfold encodeChar at hc
    split at hc <;> simpa [eq_comm] using hc
  have hchars : '\n' ∉ s.toList.flatMap encodeChar := by
    intro hmem
    obtain ⟨c, hc, hfeed⟩ := List.mem_flatMap.mp hmem
    obtain rfl := hchar c hfeed
    exact h hc
  rw [OneLine, toList_encode]
  simpa using hchars

/-- No line feed stands in the text of a string or a name. -/
def Literal.IsOneLine : Literal → Prop
  | string s | identifier s => OneLine s
  | _ => True

theorem Literal.oneLine_text {v : Literal} (h : v.IsOneLine) : OneLine v.text := by
  cases v with
  | integer value => exact oneLine_toString_int _
  | float value => exact value.oneLine_text
  | string s => exact Quoted.oneLine_encode h
  | identifier s => exact h
  | boolean value => cases value <;> decide
  | null => decide

theorem BinaryOp.oneLine_symbol (op : BinaryOp) : OneLine op.symbol := by
  cases op <;> decide

theorem UnaryOp.oneLine_symbol (op : UnaryOp) : OneLine op.symbol := by
  cases op <;> decide

theorem AssignOp.oneLine_symbol (op : AssignOp) : OneLine op.symbol := by
  cases op <;> decide

namespace Expr

@[simp] theorem oneLine_parenthesize {s : String} : OneLine (parenthesize s) ↔ OneLine s := by
  simp +decide [parenthesize]

mutual

theorem oneLine_text : (e : Expr) → (∀ v ∈ e.atoms, v.IsOneLine) → OneLine e.text
  | literal v, h => Literal.oneLine_text (h v (List.mem_singleton_self v))
  | unary op e, h => by
    have he := oneLine_text e h
    rw [text, oneLine_parenthesize]
    split <;> simp [he, op.oneLine_symbol]
  | binary op a b, h => by
    rw [atoms, List.forall_mem_append] at h
    simp +decide [text, op.oneLine_symbol, oneLine_text a h.1, oneLine_text b h.2]
  | assign op a b, h => by
    rw [atoms, List.forall_mem_append] at h
    simp +decide [text, op.oneLine_symbol, oneLine_text a h.1, oneLine_text b h.2]
  | conditional c y n, h => by
    rw [atoms, List.forall_mem_append, List.forall_mem_append] at h
    simp +decide [text, oneLine_text c h.1.1, oneLine_text y h.1.2, oneLine_text n h.2]
  | call e es, h => by
    rw [atoms, List.forall_mem_append] at h
    have hes := OneLine.intercalate ", " (by decide) (oneLine_texts es h.2)
    simp [text, oneLine_text e h.1, hes]
  | element a b, h => by
    rw [atoms, List.forall_mem_append] at h
    simp +decide [text, oneLine_text a h.1, oneLine_text b h.2]
  | member e name, h => by
    rw [atoms, List.forall_mem_append] at h
    have he := oneLine_text e h.1
    have hname : OneLine name := h.2 (.identifier name) (List.mem_singleton_self _)
    rw [text]
    split <;> simp +decide [he, hname]
  | array es, h => by
    have hes := OneLine.intercalate ", " (by decide) (oneLine_texts es h)
    simp +decide [text, hes]

theorem oneLine_texts : (es : List Expr) → (∀ v ∈ atomsAll es, v.IsOneLine) →
    ∀ s ∈ texts es, OneLine s
  | [], _ => nofun
  | e :: es, h => by
    rw [atomsAll, List.forall_mem_append] at h
    rw [texts, List.forall_mem_cons]
    exact ⟨oneLine_text e h.1, oneLine_texts es h.2⟩

end

theorem oneLine_optionText {o : Option Expr} (h : ∀ v ∈ o.elim [] atoms, v.IsOneLine) :
    OneLine (optionText o) := by
  cases o with
  | none => decide
  | some e => exact oneLine_text e h

end Expr

theorem Declaration.oneLine_text {d : Declaration} (h : ∀ v ∈ d.atoms, v.IsOneLine) :
    OneLine d.text := by
  rw [atoms, List.forall_mem_cons] at h
  have hname := Quoted.oneLine_encode (s := d.name) h.1
  rw [text]
  split <;> simp +decide [hname, d.value.oneLine_text h.2]

theorem ForInit.oneLine_optionText {o : Option ForInit}
    (h : ∀ v ∈ o.elim [] atoms, v.IsOneLine) : OneLine (optionText o) := by
  match o with
  | none => decide
  | some (.declaration d) => exact Declaration.oneLine_text h
  | some (.expression e) => exact e.oneLine_text h

theorem Parameter.oneLine_text {p : Parameter} (h : ∀ v ∈ p.atoms, v.IsOneLine) :
    OneLine p.text := by
  match p with
  | .variadic => decide
  | .named name none => exact h _ List.mem_cons_self
  | .named name (some default) =>
    rw [atoms, List.forall_mem_cons] at h
    have hname : OneLine name := h.1
    simp +decide [text, hname, default.oneLine_text h.2]

theorem Segment.oneLine_text {s : Segment} (h : ∀ v ∈ s.atoms, v.IsOneLine) : OneLine s.text := by
  cases s with
  | name part => exact h _ List.mem_cons_self
  | wildcard => decide

namespace Statement

theorem oneLine_functionHeader {name : String} {parameters : List Parameter} (hname : OneLine name)
    (h : ∀ v ∈ parameters.flatMap Parameter.atoms, v.IsOneLine) :
    OneLine (functionHeader name parameters) := by
  have hparameters : OneLine (", ".intercalate (parameters.map Parameter.text)) := by
    refine OneLine.intercalate ", " (by decide) fun s hs => ?_
    obtain ⟨p, hp, rfl⟩ := List.mem_map.mp hs
    exact Parameter.oneLine_text fun v hv => h v (List.mem_flatMap.mpr ⟨p, hp, hv⟩)
  simp +decide [functionHeader, hname, hparameters]

theorem oneLine_path {path : List Segment}
    (h : ∀ v ∈ path.flatMap Segment.atoms, v.IsOneLine) :
    OneLine (".".intercalate (path.map Segment.text)) := by
  refine OneLine.intercalate "." (by decide) fun s hs => ?_
  obtain ⟨p, hp, rfl⟩ := List.mem_map.mp hs
  exact Segment.oneLine_text fun v hv => h v (List.mem_flatMap.mpr ⟨p, hp, hv⟩)

theorem oneLine_indent {ls : List String} (h : ∀ l ∈ ls, OneLine l) :
    ∀ l ∈ ls.map indent, OneLine l := by
  intro l hl
  obtain ⟨k, hk, rfl⟩ := List.mem_map.mp hl
  exact OneLine.append_iff.mpr ⟨by decide, h k hk⟩

theorem oneLine_braced {before behind : String} {ls : List String} (hbefore : OneLine before)
    (h : ∀ l ∈ ls, OneLine l) (hbehind : OneLine behind) :
    ∀ l ∈ braced before ls behind, OneLine l := by
  rw [braced, List.forall_mem_cons, List.forall_mem_append, List.forall_mem_singleton]
  exact ⟨OneLine.append_iff.mpr ⟨hbefore, by decide⟩, oneLine_indent h,
    OneLine.append_iff.mpr ⟨by decide, hbehind⟩⟩

mutual

theorem oneLine_lines : (s : Statement) → (∀ v ∈ s.atoms, v.IsOneLine) →
    ∀ l ∈ s.lines, OneLine l
  | expression e, h => by
    rw [atoms] at h
    simp +decide [lines, e.oneLine_text h]
  | declaration d, h => by
    rw [atoms] at h
    simp +decide [lines, Declaration.oneLine_text h]
  | ifElse (.mk condition body) elseIfs otherwise, h => by
    rw [atoms, Arm.atoms, List.forall_mem_append, List.forall_mem_append,
      List.forall_mem_append] at h
    rw [lines, List.forall_mem_cons, List.forall_mem_append, List.forall_mem_append]
    refine ⟨?_, ⟨oneLine_indent (oneLine_blockLines body h.1.1.2),
      oneLine_elseIfLines elseIfs h.1.2⟩, oneLine_elseLines otherwise h.2⟩
    simp +decide [condition.oneLine_text h.1.1.1]
  | switch subject cases default, h => by
    rw [atoms, List.forall_mem_append, List.forall_mem_append] at h
    rw [lines]
    refine oneLine_braced (by simp +decide [subject.oneLine_text h.1.1])
      (List.forall_mem_append.mpr ⟨?_, ?_⟩) (by decide)
    · exact oneLine_caseLines cases h.1.2
    · exact oneLine_defaultLines default h.2
  | forEach binding source body, h => by
    rw [atoms, List.forall_mem_cons, List.forall_mem_append] at h
    have hbinding : OneLine binding := h.1
    rw [lines]
    exact oneLine_braced (by simp +decide [hbinding, source.oneLine_text h.2.1])
      (oneLine_blockLines body h.2.2) (by decide)
  | forLoop init condition increment body, h => by
    rw [atoms, List.forall_mem_append, List.forall_mem_append, List.forall_mem_append] at h
    have hheader : OneLine (forHeader init condition increment) := by
      simp +decide [forHeader, ForInit.oneLine_optionText h.1.1.1,
        Expr.oneLine_optionText h.1.1.2, Expr.oneLine_optionText h.1.2]
    rw [lines]
    exact oneLine_braced hheader (oneLine_blockLines body h.2) (by decide)
  | whileLoop condition body, h => by
    rw [atoms, List.forall_mem_append] at h
    rw [lines]
    exact oneLine_braced (by simp +decide [condition.oneLine_text h.1])
      (oneLine_blockLines body h.2) (by decide)
  | doWhile body condition, h => by
    rw [atoms, List.forall_mem_append] at h
    rw [lines]
    exact oneLine_braced (by decide) (oneLine_blockLines body h.1)
      (by simp +decide [condition.oneLine_text h.2])
  | breakLoop, _ | continueLoop, _ => by decide
  | returnValues values, h => by
    rw [atoms] at h
    have hvalues := OneLine.intercalate " : " (by decide)
      (Expr.oneLine_texts values h)
    simp +decide [lines, hvalues]
  | function name parameters none, h => by
    rw [atoms, List.forall_mem_cons, List.forall_mem_append] at h
    simp +decide [lines, oneLine_functionHeader h.1 h.2.1]
  | function name parameters (some body), h => by
    rw [atoms, List.forall_mem_cons, List.forall_mem_append] at h
    rw [lines]
    exact oneLine_braced (by simp +decide [oneLine_functionHeader h.1 h.2.1])
      (oneLine_blockLines body h.2.2) (by decide)
  | importPath path, h => by
    rw [atoms] at h
    simp +decide [lines, oneLine_path h]

theorem oneLine_elseIfLines : (arms : List Arm) → (∀ v ∈ Arm.atomsAll arms, v.IsOneLine) →
    ∀ l ∈ elseIfLines arms, OneLine l
  | [], _ => by simp [elseIfLines]
  | .mk condition body :: arms, h => by
    rw [Arm.atomsAll, Arm.atoms, List.forall_mem_append, List.forall_mem_append] at h
    rw [elseIfLines, List.forall_mem_cons, List.forall_mem_append]
    refine ⟨?_, oneLine_indent (oneLine_blockLines body h.1.2), oneLine_elseIfLines arms h.2⟩
    simp +decide [condition.oneLine_text h.1.1]

theorem oneLine_elseLines : (o : Option (List Statement)) →
    (∀ v ∈ Block.atomsOptional o, v.IsOneLine) → ∀ l ∈ elseLines o, OneLine l
  | none, _ => by decide
  | some body, h => by
    rw [elseLines]
    exact oneLine_braced (by decide) (oneLine_blockLines body h) (by decide)

theorem oneLine_caseLines : (arms : List Arm) → (∀ v ∈ Arm.atomsAll arms, v.IsOneLine) →
    ∀ l ∈ caseLines arms, OneLine l
  | [], _ => by simp [caseLines]
  | .mk label body :: arms, h => by
    rw [Arm.atomsAll, Arm.atoms, List.forall_mem_append, List.forall_mem_append] at h
    rw [caseLines, List.forall_mem_cons, List.forall_mem_append]
    refine ⟨?_, oneLine_indent (oneLine_blockLines body h.1.2), oneLine_caseLines arms h.2⟩
    simp +decide [label.oneLine_text h.1.1]

theorem oneLine_defaultLines : (o : Option (List Statement)) →
    (∀ v ∈ Block.atomsOptional o, v.IsOneLine) → ∀ l ∈ defaultLines o, OneLine l
  | none, _ => by simp [defaultLines]
  | some body, h => by
    rw [defaultLines, List.forall_mem_cons]
    exact ⟨by decide, oneLine_indent (oneLine_blockLines body h)⟩

theorem oneLine_blockLines : (b : List Statement) → (∀ v ∈ Block.atoms b, v.IsOneLine) →
    ∀ l ∈ blockLines b, OneLine l
  | [], _ => by simp [blockLines]
  | s :: b, h => by
    rw [Block.atoms, List.forall_mem_append] at h
    rw [blockLines, List.forall_mem_append]
    exact ⟨oneLine_lines s h.1, oneLine_blockLines b h.2⟩

end

end Statement

end ScriptFront
