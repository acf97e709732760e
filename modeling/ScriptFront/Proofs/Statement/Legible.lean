import ScriptFront.Proofs.Expr.Legible
import ScriptFront.Proofs.Statement.Correct
import ScriptFront.Proofs.Statement.WellFormed

/-! # Programs that are read can be written -/

namespace ScriptFront

open Terminal

theorem Declaration.Phrase.isWellFormed {w : List Terminal} {x : Declaration}
    (d : Declaration.Phrase w x) (hw : Legible w) : x.isWellFormed = true := by
  cases d with
  | mk isConst name d =>
    simp only [legible_cons, legible_append] at hw
    have hname : (!name.toList.contains '\n') = true := hw.2.1
    rw [Declaration.isWellFormed, hname, d.isWellFormed hw.2.2.2.1]
    rfl

theorem ForInit.Phrase.isWellFormed {w : List Terminal} {o : Option ForInit}
    (d : ForInit.Phrase w o) (hw : Legible w) : o.all ForInit.isWellFormed = true := by
  cases d with
  | none => rfl
  | declaration d => exact d.isWellFormed hw
  | expression d => exact d.isWellFormed (legible_append.mp hw).1

theorem Expr.Clause.isWellFormed {close : TokenKind} {w : List Terminal} {o : Option Expr}
    (d : Expr.Clause close w o) (hw : Legible w) : o.all Expr.isWellFormed = true := by
  cases d with
  | none => rfl
  | some d => exact d.isWellFormed (legible_append.mp hw).1

theorem Expr.Values.allWellFormed {w : List Terminal} {es : List Expr} (ds : Expr.Values w es)
    (hw : Legible w) : (!es.isEmpty && Expr.allWellFormed es) = true := by
  induction ds with
  | single d =>
    rw [Expr.allWellFormed, d.isWellFormed hw]
    rfl
  | cons d ds ih =>
    simp only [legible_cons, legible_append] at hw
    have := ih hw.2.2
    rw [Bool.and_eq_true] at this
    rw [Expr.allWellFormed, d.isWellFormed hw.1, this.2]
    rfl

theorem Parameter.Phrase.isWellFormed {w : List Terminal} {p : Parameter}
    (d : Parameter.Phrase w p) (hw : Legible w) : p.isWellFormed = true := by
  cases d with
  | variadic => rfl
  | required name =>
    have hname : isName name = true := hw _ List.mem_cons_self
    rw [Parameter.isWellFormed, hname]
    rfl
  | defaulted name d =>
    simp only [legible_cons] at hw
    have hname : isName name = true := hw.1
    rw [Parameter.isWellFormed, hname, Option.all_some, d.isWellFormed hw.2.2]
    rfl

theorem Parameter.Listed.allWellFormed {w : List Terminal} {ps : List Parameter}
    (ds : Parameter.Listed w ps) (hw : Legible w) : ps.all Parameter.isWellFormed = true := by
  induction ds with
  | nil => rfl
  | single d => rw [List.all_cons, d.isWellFormed hw, List.all_nil, Bool.and_true]
  | cons d ds ih =>
    simp only [legible_cons, legible_append] at hw
    rw [List.all_cons, d.isWellFormed hw.1, ih hw.2.2, Bool.and_true]

theorem Segment.Tail.isTail {w : List Terminal} {ss : List Segment} (h : Segment.Tail w ss)
    (hw : Legible w) : Segment.isTail ss = true := by
  induction h with
  | nil | wildcard => rfl
  | name name h ih =>
    simp only [legible_cons] at hw
    have hname : isName name = true := hw.2.1
    rw [Segment.isTail, hname, ih hw.2.2]
    rfl

namespace Statement

mutual

/-- What legible terminals derive is well-formed. -/
theorem Phrase.isWellFormed {o : Bool} {w : List Terminal} {s : Option Statement} :
    Phrase o w s → Legible w → s.all Statement.isWellFormed = true
  | .empty, _ | .breakLoop, _ | .continueLoop, _ => rfl
  | .expression d, hw => d.isWellFormed (legible_append.mp hw).1
  | .declaration d, hw => d.isWellFormed hw
  | .returnValues ds, hw => by
    simp only [legible_cons, legible_append] at hw
    exact ds.allWellFormed hw.2.1
  | .importPath first h, hw => by
    simp only [legible_cons, legible_append] at hw
    have hname : isName first = true := hw.2.1
    rw [Option.all_some, Statement.isWellFormed, Segment.isPath, hname, h.isTail hw.2.2.1]
    rfl
  | .forward name ds h, hw => by
    simp only [legible_cons, legible_append] at hw
    have hname : isName name = true := hw.2.1
    rw [Option.all_some, Statement.isWellFormed, Parameter.allWellFormed, hname,
      ds.allWellFormed hw.2.2.2.1, decide_eq_true h]
    rfl
  | .function name ds h body _, hw => by
    simp only [legible_cons, legible_append] at hw
    have hname : isName name = true := hw.2.1
    rw [Option.all_some, Statement.isWellFormed, Parameter.allWellFormed, hname,
      ds.allWellFormed hw.2.2.2.1, decide_eq_true h, Block.optionWellFormed,
      body.isWellFormed hw.2.2.2.2.2]
    rfl
  | .ifElse d body rest _, hw => by
    simp only [legible_cons, legible_append] at hw
    obtain ⟨harms, ho⟩ := rest.isWellFormed hw.2.2.2.2.2
    rw [Option.all_some, Statement.isWellFormed, Arm.isWellFormed, d.isWellFormed hw.2.2.1,
      body.isWellFormed hw.2.2.2.2.1, harms, ho]
    rfl
  | .switch d parts, hw => by
    simp only [legible_cons, legible_append] at hw
    obtain ⟨harms, ho⟩ := parts.isWellFormed hw.2.2.2.2.2.1
    rw [Option.all_some, Statement.isWellFormed, d.isWellFormed hw.2.2.1, harms, ho]
    rfl
  | .forEach x d body, hw => by
    simp only [legible_cons, legible_append] at hw
    have hname : isName x = true := hw.2.2.1
    rw [Option.all_some, Statement.isWellFormed, hname, d.isWellFormed hw.2.2.2.2.1,
      body.isWellFormed hw.2.2.2.2.2.2]
    rfl
  | .forLoop di dc dn body, hw => by
    simp only [legible_cons, legible_append] at hw
    rw [Option.all_some, Statement.isWellFormed, di.isWellFormed hw.2.2.1,
      dc.isWellFormed hw.2.2.2.1, dn.isWellFormed hw.2.2.2.2.1, body.isWellFormed hw.2.2.2.2.2]
    rfl
  | .whileLoop d body, hw => by
    simp only [legible_cons, legible_append] at hw
    rw [Option.all_some, Statement.isWellFormed, d.isWellFormed hw.2.2.1,
      body.isWellFormed hw.2.2.2.2]
    rfl
  | .doWhile body d, hw => by
    simp only [legible_cons, legible_append] at hw
    rw [Option.all_some, Statement.isWellFormed, body.isWellFormed hw.2.1,
      d.isWellFormed hw.2.2.2.2.1]
    rfl

theorem Body.isWellFormed {o : Bool} {w : List Terminal} {b : List Statement} :
    Body o w b → Legible w → Block.isWellFormed b = true
  | .braces ds, hw => by
    simp only [legible_cons, legible_append] at hw
    exact ds.isWellFormed hw.2.1
  | .single (s := s) d, hw => by
    have hs := d.isWellFormed hw
    cases s with
    | none => rfl
    | some s =>
      rw [Option.all_some] at hs
      rw [Option.toList_some, Block.isWellFormed, hs]
      rfl

theorem Sequence.isWellFormed {w : List Terminal} {b : List Statement} :
    Sequence w b → Legible w → Block.isWellFormed b = true
  | .nil, _ => rfl
  | .cons (s := s) d ds, hw => by
    rw [legible_append] at hw
    have hs := d.isWellFormed hw.1
    have hrest := ds.isWellFormed hw.2
    cases s with
    | none => exact hrest
    | some s =>
      rw [Option.all_some] at hs
      rw [Option.toList_some, List.singleton_append, Block.isWellFormed, hs, hrest]
      rfl

theorem Elses.isWellFormed {o : Bool} {w : List Terminal} {arms : List Arm}
    {otherwise : Option (List Statement)} : Elses o w arms otherwise → Legible w →
      Arm.allWellFormed arms = true ∧ Block.optionWellFormed otherwise = true
  | .none, _ => ⟨rfl, rfl⟩
  | .otherwise body _, hw => ⟨rfl, body.isWellFormed (legible_cons.mp hw).2⟩
  | .elseIf d body rest _, hw => by
    simp only [legible_cons, legible_append] at hw
    obtain ⟨harms, ho⟩ := rest.isWellFormed hw.2.2.2.2.2.2
    rw [Arm.allWellFormed, Arm.isWellFormed, d.isWellFormed hw.2.2.2.1,
      body.isWellFormed hw.2.2.2.2.2.1, harms]
    exact ⟨rfl, ho⟩

theorem Parts.isWellFormed {w : List Terminal} {cases : List Arm}
    {default : Option (List Statement)} : Parts w cases default → Legible w →
      Arm.allWellFormed cases = true ∧ Block.optionWellFormed default = true
  | .nil, _ => ⟨rfl, rfl⟩
  | .case d ds rest, hw => by
    simp only [legible_cons, legible_append] at hw
    obtain ⟨harms, ho⟩ := rest.isWellFormed hw.2.2.2.2
    rw [Arm.allWellFormed, Arm.isWellFormed, d.isWellFormed hw.2.1,
      ds.isWellFormed hw.2.2.2.1, harms]
    exact ⟨rfl, ho⟩
  | .default ds rest, hw => by
    simp only [legible_cons, legible_append] at hw
    exact ⟨(rest.isWellFormed hw.2.2.2).1, ds.isWellFormed hw.2.2.1⟩

end

end Statement

/-- The terminals of a text that is read derive its tree. -/
theorem exists_sequence_of_parse {text : String} {limit : Nat} {p : Program}
    (h : parse text limit = .ok p) :
    ∃ w, Legible w ∧ ∃ ds : Statement.Sequence w p, ds.need ≤ limit := by
  obtain ⟨t, d, w, u, hnext, hw, -, ds, hds⟩ := exists_takes_of_parse h
  exact ⟨w, hw.legible (Cursor.legible_of_next hnext), ds, hds⟩

/-- Every program that is read can be written. -/
theorem isWellFormed_of_parse {text : String} {limit : Nat} {p : Program}
    (h : parse text limit = .ok p) : Block.isWellFormed p = true := by
  obtain ⟨w, hw, ds, -⟩ := exists_sequence_of_parse h
  exact ds.isWellFormed hw

/-- A path, parameters of each kind, and a body that returns a string. -/
theorem isWellFormed_of_parse_at_function : ∃ p : Program,
    parse "import a.*; function f(x, y = 1.5, ...) \x7b return 'a' : x[0]; \x7d" 4 = .ok p ∧
      Block.isWellFormed p = true := by
  have read : ∃ p, parse
      "import a.*; function f(x, y = 1.5, ...) \x7b return 'a' : x[0]; \x7d" 4 = .ok p ∧
        p.length = 2 := by
    decide +kernel
  obtain ⟨p, hp, -⟩ := read
  exact ⟨p, hp, isWellFormed_of_parse hp⟩

end ScriptFront
