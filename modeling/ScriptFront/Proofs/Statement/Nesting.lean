import ScriptFront.Proofs.Expr.Nesting
import ScriptFront.Proofs.Statement.Grammar

/-! # The nesting levels that statements take

The expressions, the bodies and the blocks of cases of a statement stand one level deeper than the
statement. A phrase of terminals takes fewer levels than it has terminals. -/

namespace ScriptFront

open Terminal

def Parameter.Phrase.need {w : List Terminal} {p : Parameter} : Parameter.Phrase w p → Nat
  | .variadic | .required _ => 0
  | .defaulted _ d => d.need + 1

def Parameter.Listed.need {w : List Terminal} {ps : List Parameter} : Parameter.Listed w ps → Nat
  | .nil => 0
  | .single d => d.need
  | .cons d ds => max d.need ds.need

def Declaration.Phrase.need {w : List Terminal} {x : Declaration} : Declaration.Phrase w x → Nat
  | .mk _ _ d => d.need + 1

def Expr.Clause.need {close : TokenKind} {w : List Terminal} {o : Option Expr} :
    Expr.Clause close w o → Nat
  | .none => 0
  | .some d => d.need + 1

def ForInit.Phrase.need {w : List Terminal} {o : Option ForInit} : ForInit.Phrase w o → Nat
  | .none => 0
  | .declaration d => d.need
  | .expression d => d.need + 1

def Expr.Values.need {w : List Terminal} {es : List Expr} : Expr.Values w es → Nat
  | .single d => d.need + 1
  | .cons d ds => max (d.need + 1) ds.need

theorem Parameter.Phrase.need_lt {w : List Terminal} {p : Parameter} (d : Parameter.Phrase w p) :
    d.need < w.length := by
  cases d with
  | variadic | required => exact Nat.zero_lt_succ _
  | defaulted name d =>
    have := d.need_lt
    simp only [need, List.length_cons]
    omega

theorem Parameter.Listed.need_le {w : List Terminal} {ps : List Parameter}
    (ds : Parameter.Listed w ps) : ds.need ≤ w.length := by
  induction ds with
  | nil => exact Nat.zero_le _
  | single d => exact Nat.le_of_lt d.need_lt
  | cons d ds ih =>
    have := d.need_lt
    simp only [need, List.length_append, List.length_cons]
    omega

theorem Declaration.Phrase.need_lt {w : List Terminal} {x : Declaration}
    (d : Declaration.Phrase w x) : d.need < w.length := by
  cases d with
  | mk isConst name d =>
    have := d.need_lt
    simp only [need, List.length_append, List.length_cons]
    omega

theorem Expr.Clause.need_lt {close : TokenKind} {w : List Terminal} {o : Option Expr}
    (d : Expr.Clause close w o) : d.need < w.length := by
  cases d with
  | none => exact Nat.zero_lt_succ _
  | some d =>
    have := d.need_lt
    simp only [need, List.length_append, List.length_cons, List.length_nil]
    omega

theorem ForInit.Phrase.need_lt {w : List Terminal} {o : Option ForInit} (d : ForInit.Phrase w o) :
    d.need < w.length := by
  cases d with
  | none => exact Nat.zero_lt_succ _
  | declaration d => exact d.need_lt
  | expression d =>
    have := d.need_lt
    simp only [need, List.length_append, List.length_cons, List.length_nil]
    omega

theorem Expr.Values.need_le {w : List Terminal} {es : List Expr} (ds : Expr.Values w es) :
    ds.need ≤ w.length := by
  induction ds with
  | single d => exact d.need_lt
  | cons d ds ih =>
    have := d.need_lt
    simp only [need, List.length_append, List.length_cons]
    omega

namespace Statement

mutual

def Phrase.need {o : Bool} {w : List Terminal} {s : Option Statement} : Phrase o w s → Nat
  | .empty | .breakLoop | .continueLoop | .importPath .. => 0
  | .expression d => d.need + 1
  | .declaration d => d.need
  | .returnValues ds => ds.need
  | .forward _ ds _ => ds.need
  | .function _ ds _ body _ => max ds.need (body.need + 1)
  | .ifElse d body rest _ => max (d.need + 1) (max (body.need + 1) rest.need)
  | .switch d parts => max (d.need + 1) parts.need
  | .forEach _ d body | .whileLoop d body => max (d.need + 1) (body.need + 1)
  | .forLoop di dc dn body => max di.need (max dc.need (max dn.need (body.need + 1)))
  | .doWhile body d => max (body.need + 1) (d.need + 1)

def Body.need {o : Bool} {w : List Terminal} {b : List Statement} : Body o w b → Nat
  | .braces ds => ds.need
  | .single d => d.need

def Sequence.need {w : List Terminal} {b : List Statement} : Sequence w b → Nat
  | .nil => 0
  | .cons d ds => max d.need ds.need

def Elses.need {o : Bool} {w : List Terminal} {arms : List Arm}
    {otherwise : Option (List Statement)} : Elses o w arms otherwise → Nat
  | .none => 0
  | .otherwise body _ => body.need + 1
  | .elseIf d body rest _ => max (d.need + 1) (max (body.need + 1) rest.need)

def Parts.need {w : List Terminal} {cases : List Arm} {default : Option (List Statement)} :
    Parts w cases default → Nat
  | .nil => 0
  | .case d ds rest => max (d.need + 1) (max (ds.need + 1) rest.need)
  | .default ds rest => max (ds.need + 1) rest.need

end

mutual

theorem Phrase.need_lt {o : Bool} {w : List Terminal} {s : Option Statement} :
    (d : Phrase o w s) → d.need < w.length
  | .empty | .breakLoop | .continueLoop | .importPath .. => Nat.zero_lt_succ _
  | .expression d => by
    have := d.need_lt
    simp only [Phrase.need, List.length_append, List.length_cons, List.length_nil]
    omega
  | .declaration d => d.need_lt
  | .returnValues ds => by
    have := ds.need_le
    simp only [Phrase.need, List.length_append, List.length_cons, List.length_nil]
    omega
  | .forward _ ds _ => by
    have := ds.need_le
    simp only [Phrase.need, List.length_append, List.length_cons, List.length_nil]
    omega
  | .function _ ds _ body _ => by
    have := ds.need_le
    have := body.need_le
    simp only [Phrase.need, List.length_append, List.length_cons]
    omega
  | .ifElse d body rest _ => by
    have := d.need_lt
    have := body.need_le
    have := rest.need_le
    simp only [Phrase.need, List.length_append, List.length_cons]
    omega
  | .switch d parts => by
    have := d.need_lt
    have := parts.need_le
    simp only [Phrase.need, List.length_append, List.length_cons]
    omega
  | .forEach _ d body | .whileLoop d body => by
    have := d.need_lt
    have := body.need_le
    simp only [Phrase.need, List.length_append, List.length_cons]
    omega
  | .forLoop di dc dn body => by
    have := di.need_lt
    have := dc.need_lt
    have := dn.need_lt
    have := body.need_le
    simp only [Phrase.need, List.length_append, List.length_cons]
    omega
  | .doWhile body d => by
    have := d.need_lt
    have := body.need_le
    simp only [Phrase.need, List.length_append, List.length_cons]
    omega

theorem Body.need_le {o : Bool} {w : List Terminal} {b : List Statement} :
    (d : Body o w b) → d.need ≤ w.length
  | .braces ds => by
    have := ds.need_le
    simp only [Body.need, List.length_append, List.length_cons]
    omega
  | .single d => Nat.le_of_lt d.need_lt

theorem Sequence.need_le {w : List Terminal} {b : List Statement} :
    (ds : Sequence w b) → ds.need ≤ w.length
  | .nil => Nat.zero_le _
  | .cons d ds => by
    have := d.need_lt
    have := ds.need_le
    simp only [Sequence.need, List.length_append]
    omega

theorem Elses.need_le {o : Bool} {w : List Terminal} {arms : List Arm}
    {otherwise : Option (List Statement)} : (d : Elses o w arms otherwise) → d.need ≤ w.length
  | .none => Nat.zero_le _
  | .otherwise body _ => by
    have := body.need_le
    simp only [Elses.need, List.length_cons]
    omega
  | .elseIf d body rest _ => by
    have := d.need_lt
    have := body.need_le
    have := rest.need_le
    simp only [Elses.need, List.length_append, List.length_cons]
    omega

theorem Parts.need_le {w : List Terminal} {cases : List Arm} {default : Option (List Statement)} :
    (d : Parts w cases default) → d.need ≤ w.length
  | .nil => Nat.zero_le _
  | .case d ds rest => by
    have := d.need_lt
    have := ds.need_le
    have := rest.need_le
    simp only [Parts.need, List.length_append, List.length_cons]
    omega
  | .default ds rest => by
    have := ds.need_le
    have := rest.need_le
    simp only [Parts.need, List.length_append, List.length_cons]
    omega

end

end Statement

end ScriptFront
