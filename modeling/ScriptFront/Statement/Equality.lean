import ScriptFront.Expr.Equality
import ScriptFront.Statement.Basic

/-! # Equality of statements

Part by part, down to the equality of expressions. -/

namespace ScriptFront

/-- Two optional parts agree: both are there and the same, or neither is. -/
def sameOptional {α : Type} (same : α → α → Bool) : Option α → Option α → Bool
  | some a, some b => same a b
  | none, none => true
  | _, _ => false

def Declaration.same (a b : Declaration) : Bool :=
  a.isConst = b.isConst && a.name = b.name && a.value.same b.value

def ForInit.same : ForInit → ForInit → Bool
  | declaration a, declaration b => a.same b
  | expression a, expression b => a.same b
  | _, _ => false

def Parameter.same : Parameter → Parameter → Bool
  | named m a, named n b => m = n && sameOptional Expr.same a b
  | variadic, variadic => true
  | _, _ => false

def Parameter.sameAll : List Parameter → List Parameter → Bool
  | [], [] => true
  | a :: as, b :: bs => a.same b && sameAll as bs
  | _, _ => false

mutual

def Statement.same : Statement → Statement → Bool
  | .expression a, .expression b => a.same b
  | .declaration a, .declaration b => a.same b
  | .ifElse a as x, .ifElse b bs y => a.same b && Arm.sameAll as bs && Block.sameOptional x y
  | .switch a as x, .switch b bs y => a.same b && Arm.sameAll as bs && Block.sameOptional x y
  | .forEach m a x, .forEach n b y => m = n && a.same b && Block.same x y
  | .forLoop i a b x, .forLoop j c d y =>
    sameOptional ForInit.same i j && sameOptional Expr.same a c &&
      sameOptional Expr.same b d && Block.same x y
  | .whileLoop a x, .whileLoop b y => a.same b && Block.same x y
  | .doWhile x a, .doWhile y b => Block.same x y && a.same b
  | .breakLoop, .breakLoop => true
  | .continueLoop, .continueLoop => true
  | .returnValues as, .returnValues bs => Expr.sameAll as bs
  | .function m ps x, .function n qs y => m = n && Parameter.sameAll ps qs && Block.sameOptional x y
  | .importPath p, .importPath q => p = q
  | _, _ => false

def Arm.same : Arm → Arm → Bool
  | .mk a x, .mk b y => a.same b && Block.same x y

def Arm.sameAll : List Arm → List Arm → Bool
  | [], [] => true
  | a :: as, b :: bs => a.same b && Arm.sameAll as bs
  | _, _ => false

def Block.same : List Statement → List Statement → Bool
  | [], [] => true
  | a :: as, b :: bs => a.same b && Block.same as bs
  | _, _ => false

def Block.sameOptional : Option (List Statement) → Option (List Statement) → Bool
  | some x, some y => Block.same x y
  | none, none => true
  | _, _ => false

end

end ScriptFront
