import ScriptFront.Proofs.Statement.WellFormed
import ScriptFront.Statement.Equality

/-! # What can be written equals itself

Only a float that is no number makes a tree differ from itself, and none can be written. -/

namespace ScriptFront

theorem Literal.same_self {v : Literal} (h : v.isWellFormed = true) : v.same v = true := by
  cases v with
  | float x =>
    rw [isWellFormed, Bool.and_eq_true, Binary32.isFinite, decide_eq_true_eq] at h
    have hnan : x.isNaN = false := by
      rw [Binary32.isNaN, decide_eq_false_iff_not]
      omega
    simp [same, Binary32.same, hnan]
  | _ => simp [same]

namespace Expr

mutual

theorem same_self : (e : Expr) → e.isWellFormed = true → e.same e = true
  | literal v, h => Literal.same_self h
  | unary op e, h => by
    simp [same, same_self e h]
  | binary op a b, h => by
    rw [isWellFormed, Bool.and_eq_true] at h
    simp [same, same_self a h.1, same_self b h.2]
  | assign op a b, h => by
    rw [isWellFormed, Bool.and_eq_true, Bool.and_eq_true] at h
    simp [same, same_self a h.1.2, same_self b h.2]
  | conditional c y n, h => by
    rw [isWellFormed, Bool.and_eq_true, Bool.and_eq_true] at h
    simp [same, same_self c h.1.1, same_self y h.1.2, same_self n h.2]
  | call e es, h => by
    rw [isWellFormed, Bool.and_eq_true] at h
    simp [same, same_self e h.1, sameAll_self es h.2]
  | element e i, h => by
    rw [isWellFormed, Bool.and_eq_true] at h
    simp [same, same_self e h.1, same_self i h.2]
  | member e name, h => by
    rw [isWellFormed, Bool.and_eq_true] at h
    simp [same, same_self e h.1]
  | array es, h => sameAll_self es h

theorem sameAll_self : (es : List Expr) → allWellFormed es = true → sameAll es es = true
  | [], _ => rfl
  | e :: es, h => by
    rw [allWellFormed, Bool.and_eq_true] at h
    simp [sameAll, same_self e h.1, sameAll_self es h.2]

end

end Expr

theorem sameOptional_self {α : Type} {same : α → α → Bool} {p : α → Bool}
    (hsame : ∀ a, p a = true → same a a = true) {o : Option α} (h : o.all p = true) :
    sameOptional same o o = true := by
  cases o with
  | none => rfl
  | some a => exact hsame a h

theorem Declaration.same_self {d : Declaration} (h : d.isWellFormed = true) : d.same d = true := by
  rw [isWellFormed, Bool.and_eq_true] at h
  simp [same, Expr.same_self d.value h.2]

theorem ForInit.same_self (init : ForInit) (h : init.isWellFormed = true) :
    init.same init = true := by
  cases init with
  | declaration d => exact Declaration.same_self (d := d) h
  | expression e => exact Expr.same_self e h

theorem Parameter.sameAll_self {ps : List Parameter} (h : ps.all isWellFormed = true) :
    sameAll ps ps = true := by
  induction ps with
  | nil => rfl
  | cons p ps ih =>
    rw [List.all_cons, Bool.and_eq_true] at h
    have hp : p.same p = true := by
      cases p with
      | variadic => rfl
      | named name default =>
        have := h.1
        rw [isWellFormed, Bool.and_eq_true] at this
        simp [same, sameOptional_self Expr.same_self this.2]
    simp [sameAll, hp, ih h.2]

mutual

theorem Statement.same_self : (s : Statement) → s.isWellFormed = true → s.same s = true
  | .expression e, h => by
    rw [Statement.isWellFormed] at h
    simp [Statement.same, Expr.same_self e h]
  | .declaration d, h => by
    rw [Statement.isWellFormed] at h
    simp [Statement.same, Declaration.same_self h]
  | .ifElse a as o, h => by
    rw [Statement.isWellFormed, Bool.and_eq_true, Bool.and_eq_true] at h
    simp [Statement.same, Arm.same_self a h.1.1, Arm.sameAll_self as h.1.2,
      Block.sameOptional_self o h.2]
  | .switch e as o, h => by
    rw [Statement.isWellFormed, Bool.and_eq_true, Bool.and_eq_true] at h
    simp [Statement.same, Expr.same_self e h.1.1, Arm.sameAll_self as h.1.2,
      Block.sameOptional_self o h.2]
  | .forEach x e b, h => by
    rw [Statement.isWellFormed, Bool.and_eq_true, Bool.and_eq_true] at h
    simp [Statement.same, Expr.same_self e h.1.2, Block.same_self b h.2]
  | .forLoop init condition increment b, h => by
    rw [Statement.isWellFormed, Bool.and_eq_true, Bool.and_eq_true, Bool.and_eq_true] at h
    simp [Statement.same, sameOptional_self ForInit.same_self h.1.1.1,
      sameOptional_self Expr.same_self h.1.1.2, sameOptional_self Expr.same_self h.1.2,
      Block.same_self b h.2]
  | .whileLoop e b, h => by
    rw [Statement.isWellFormed, Bool.and_eq_true] at h
    simp [Statement.same, Expr.same_self e h.1, Block.same_self b h.2]
  | .doWhile b e, h => by
    rw [Statement.isWellFormed, Bool.and_eq_true] at h
    simp [Statement.same, Block.same_self b h.1, Expr.same_self e h.2]
  | .breakLoop, _ | .continueLoop, _ => by simp [Statement.same]
  | .returnValues es, h => by
    rw [Statement.isWellFormed, Bool.and_eq_true] at h
    simp [Statement.same, Expr.sameAll_self es h.2]
  | .function name ps o, h => by
    rw [Statement.isWellFormed, Parameter.allWellFormed, Bool.and_eq_true, Bool.and_eq_true,
      Bool.and_eq_true] at h
    simp [Statement.same, Parameter.sameAll_self h.1.2.1, Block.sameOptional_self o h.2]
  | .importPath path, _ => by simp [Statement.same]

theorem Arm.same_self : (a : Arm) → a.isWellFormed = true → a.same a = true
  | .mk e b, h => by
    rw [Arm.isWellFormed, Bool.and_eq_true] at h
    simp [Arm.same, Expr.same_self e h.1, Block.same_self b h.2]

theorem Arm.sameAll_self : (as : List Arm) → Arm.allWellFormed as = true →
    Arm.sameAll as as = true
  | [], _ => by simp [Arm.sameAll]
  | a :: as, h => by
    rw [Arm.allWellFormed, Bool.and_eq_true] at h
    simp [Arm.sameAll, Arm.same_self a h.1, Arm.sameAll_self as h.2]

theorem Block.same_self : (b : List Statement) → Block.isWellFormed b = true →
    Block.same b b = true
  | [], _ => by simp [Block.same]
  | s :: ss, h => by
    rw [Block.isWellFormed, Bool.and_eq_true] at h
    simp [Block.same, Statement.same_self s h.1, Block.same_self ss h.2]

theorem Block.sameOptional_self : (o : Option (List Statement)) →
    Block.optionWellFormed o = true → Block.sameOptional o o = true
  | none, _ => by simp [Block.sameOptional]
  | some b, h => by
    rw [Block.optionWellFormed] at h
    simp [Block.sameOptional, Block.same_self b h]

end

end ScriptFront
