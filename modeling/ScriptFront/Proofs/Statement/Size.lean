import ScriptFront.Proofs.Expr.Size
import ScriptFront.Proofs.Rule.Tokens
import ScriptFront.Proofs.Statement.Correct

/-! # The size of programs

Each statement and each expression has a token of its own, so a tree is no larger than its text is
long in tokens. -/

namespace ScriptFront

open Terminal

/-- A declaration counts as one node, also in the head of a loop. -/
def Declaration.size (d : Declaration) : Nat := d.value.size + 1

def ForInit.size : ForInit → Nat
  | declaration d => d.size
  | expression e => e.size

namespace Parameter

def size (p : Parameter) : Nat := p.default?.elim 0 Expr.size

def sizes : List Parameter → Nat
  | [] => 0
  | p :: ps => p.size + sizes ps

end Parameter

mutual

/-- The number of nodes: statements and expressions on all levels. Each further condition of an
`if` is a node as well. -/
def Statement.size : Statement → Nat
  | .expression e => e.size + 1
  | .declaration d => d.size
  | .ifElse first elseIfs otherwise =>
    first.size + Arm.sizes elseIfs + elseIfs.length + Block.optionSize otherwise + 1
  | .switch subject cases default =>
    subject.size + Arm.sizes cases + Block.optionSize default + 1
  | .forEach _ source body => source.size + Block.size body + 1
  | .forLoop init condition increment body =>
    init.elim 0 ForInit.size + condition.elim 0 Expr.size + increment.elim 0 Expr.size +
      Block.size body + 1
  | .whileLoop condition body => condition.size + Block.size body + 1
  | .doWhile body condition => Block.size body + condition.size + 1
  | .breakLoop | .continueLoop | .importPath _ => 1
  | .returnValues values => Expr.sizes values + 1
  | .function _ parameters body => Parameter.sizes parameters + Block.optionSize body + 1

def Arm.size : Arm → Nat
  | .mk guard body => guard.size + Block.size body

def Arm.sizes : List Arm → Nat
  | [] => 0
  | a :: as => a.size + Arm.sizes as

def Block.size : List Statement → Nat
  | [] => 0
  | s :: ss => s.size + Block.size ss

def Block.optionSize : Option (List Statement) → Nat
  | none => 0
  | some b => Block.size b

end

theorem Block.size_append (a b : Block) : Block.size (a ++ b) = Block.size a + Block.size b := by
  induction a with
  | nil => exact (Nat.zero_add _).symm
  | cons s a ih => rw [List.cons_append, Block.size, Block.size, ih, Nat.add_assoc]

theorem Block.size_single (s : Statement) : Block.size [s] = s.size := rfl

theorem Parameter.Phrase.size_lt {w : List Terminal} {p : Parameter} (d : Parameter.Phrase w p) :
    p.size < w.length := by
  cases d with
  | variadic | required => exact Nat.zero_lt_succ _
  | defaulted name d =>
    have := d.size_le
    show Expr.size _ < _
    simp only [List.length_cons]
    omega

theorem Parameter.Listed.sizes_le {w : List Terminal} {ps : List Parameter}
    (ds : Parameter.Listed w ps) : Parameter.sizes ps ≤ w.length := by
  induction ds with
  | nil => exact Nat.le_refl _
  | single d => exact Nat.le_of_lt d.size_lt
  | cons d ds ih =>
    have := d.size_lt
    rw [Parameter.sizes, List.length_append, List.length_cons]
    omega

theorem Declaration.Phrase.size_lt {w : List Terminal} {x : Declaration}
    (d : Declaration.Phrase w x) : x.size < w.length := by
  cases d with
  | mk isConst name d =>
    have := d.size_le
    simp only [size, List.length_append, List.length_cons]
    omega

theorem Expr.Clause.size_lt {close : TokenKind} {w : List Terminal} {o : Option Expr}
    (d : Expr.Clause close w o) : o.elim 0 Expr.size < w.length := by
  cases d with
  | none => exact Nat.zero_lt_succ _
  | some d =>
    have := d.size_le
    simp only [Option.elim_some, List.length_append, List.length_cons, List.length_nil]
    omega

theorem ForInit.Phrase.size_lt {w : List Terminal} {o : Option ForInit} (d : ForInit.Phrase w o) :
    o.elim 0 ForInit.size < w.length := by
  cases d with
  | none => exact Nat.zero_lt_succ _
  | declaration d => exact d.size_lt
  | expression d =>
    have := d.size_le
    simp only [Option.elim_some, ForInit.size, List.length_append, List.length_cons,
      List.length_nil]
    omega

theorem Expr.Values.sizes_le {w : List Terminal} {es : List Expr} (ds : Expr.Values w es) :
    Expr.sizes es ≤ w.length := by
  induction ds with
  | single d => exact d.size_le
  | cons d ds ih =>
    have := d.size_le
    simp only [Expr.sizes, List.length_append, List.length_cons]
    omega

namespace Statement

mutual

theorem Phrase.size_le {o : Bool} {w : List Terminal} {s : Option Statement} :
    Phrase o w s → Block.size s.toList ≤ w.length
  | .empty => Nat.zero_le _
  | .breakLoop | .continueLoop | .importPath .. => by
    simp only [Option.toList_some, Block.size_single, size, List.length_cons]
    omega
  | .expression d => by
    have := d.size_le
    simp only [Option.toList_some, Block.size_single, size, List.length_append, List.length_cons]
    omega
  | .declaration d => Nat.le_of_lt d.size_lt
  | .returnValues ds => by
    have := ds.sizes_le
    simp only [Option.toList_some, Block.size_single, size, List.length_append, List.length_cons]
    omega
  | .forward _ ds _ => by
    have := ds.sizes_le
    simp only [Option.toList_some, Block.size_single, size, Block.optionSize, List.length_append,
      List.length_cons]
    omega
  | .function _ ds _ body _ => by
    have := ds.sizes_le
    have := body.size_le
    simp only [Option.toList_some, Block.size_single, size, Block.optionSize, List.length_append,
      List.length_cons]
    omega
  | .ifElse d body rest _ => by
    have := d.size_le
    have := body.size_le
    have := rest.size_le
    simp only [Option.toList_some, Block.size_single, size, Arm.size, List.length_append,
      List.length_cons]
    omega
  | .switch d parts => by
    have := d.size_le
    have := parts.size_le
    simp only [Option.toList_some, Block.size_single, size, List.length_append, List.length_cons]
    omega
  | .forEach _ d body | .whileLoop d body | .doWhile body d => by
    have := d.size_le
    have := body.size_le
    simp only [Option.toList_some, Block.size_single, size, List.length_append, List.length_cons]
    omega
  | .forLoop di dc dn body => by
    have := di.size_lt
    have := dc.size_lt
    have := dn.size_lt
    have := body.size_le
    simp only [Option.toList_some, Block.size_single, size, List.length_append, List.length_cons]
    omega

theorem Body.size_le {o : Bool} {w : List Terminal} {b : List Statement} :
    Body o w b → Block.size b ≤ w.length
  | .braces ds => by
    have := ds.size_le
    simp only [List.length_append, List.length_cons]
    omega
  | .single d => d.size_le

theorem Sequence.size_le {w : List Terminal} {b : List Statement} :
    Sequence w b → Block.size b ≤ w.length
  | .nil => Nat.le_refl _
  | .cons d ds => by
    have := d.size_le
    have := ds.size_le
    rw [Block.size_append, List.length_append]
    omega

theorem Elses.size_le {o : Bool} {w : List Terminal} {arms : List Arm}
    {otherwise : Option (List Statement)} : Elses o w arms otherwise →
      Arm.sizes arms + arms.length + Block.optionSize otherwise ≤ w.length
  | .none => Nat.le_refl _
  | .otherwise body _ => by
    have := body.size_le
    simp only [Arm.sizes, Block.optionSize, List.length_cons, List.length_nil]
    omega
  | .elseIf d body rest _ => by
    have := d.size_le
    have := body.size_le
    have := rest.size_le
    simp only [Arm.sizes, Arm.size, List.length_append, List.length_cons]
    omega

theorem Parts.size_le {w : List Terminal} {cases : List Arm} {default : Option (List Statement)} :
    Parts w cases default → Arm.sizes cases + Block.optionSize default ≤ w.length
  | .nil => Nat.le_refl _
  | .case d ds rest => by
    have := d.size_le
    have := ds.size_le
    have := rest.size_le
    simp only [Arm.sizes, Arm.size, List.length_append, List.length_cons]
    omega
  | .default ds rest => by
    have := ds.size_le
    have := rest.size_le
    simp only [Block.optionSize, List.length_append, List.length_cons] at *
    omega

end

end Statement

theorem Takes.kind_ne_eof {s u : State} {w : List Terminal} (h : Takes s w u) {x : Terminal}
    (hx : x ∈ w) : x.kind ≠ .eof := by
  induction h with
  | nil => cases hx
  | cons hk _ _ ih =>
    rcases List.mem_cons.mp hx with rfl | hx
    · rwa [Token.kind_terminal]
    · exact ih hx

/-- A tree that is read has no more nodes than its text has tokens in front of the end. -/
theorem size_le_of_parse {text : String} {limit : Nat} {p : Program}
    (h : parse text limit = .ok p) :
    ∃ ts, tokenize text = .ok ts ∧ Block.size p ≤ ts.countP (·.kind ≠ .eof) := by
  obtain ⟨t, d, w, u, hnext, hw, heof, ds, -⟩ := exists_takes_of_parse h
  obtain ⟨ts, hts⟩ : ∃ ts, tokenize text = .ok ts := Cursor.tokensFrom_of_takes hw heof hnext
  obtain ⟨t', d', vs, r, hnext', hr, heof', rfl⟩ := Cursor.takes_of_tokensFrom hts limit
  rw [hnext] at hnext'
  cases hnext'
  obtain rfl := hw.eq_of_eof hr heof heof'
  have hcount : vs.countP (·.kind ≠ .eof) = vs.length := by
    rw [List.countP_eq_length]
    intro v hv
    have hkind := hr.kind_ne_eof (List.mem_map_of_mem hv)
    rw [Token.kind_terminal] at hkind
    exact decide_eq_true hkind
  refine ⟨_, hts, ?_⟩
  rw [List.reverse_nil, List.nil_append, List.countP_append, hcount]
  have hsize := ds.size_le
  rw [List.length_map] at hsize
  exact Nat.le_add_right_of_le hsize

end ScriptFront
