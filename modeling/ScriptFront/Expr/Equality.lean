import ScriptFront.Expr.Basic

/-! # Equality of expressions

Part by part, with floats compared as numbers: one that is not a number makes its tree differ from
itself, and the two zeros are equal. -/

namespace ScriptFront

def Literal.same : Literal → Literal → Bool
  | float x, float y => x.same y
  | a, b => a = b

namespace Expr

mutual

def same : Expr → Expr → Bool
  | literal a, literal b => a.same b
  | unary o a, unary p b => o = p && a.same b
  | binary o a b, binary p c d => o = p && a.same c && b.same d
  | assign o a b, assign p c d => o = p && a.same c && b.same d
  | conditional a b c, conditional d e f => a.same d && b.same e && c.same f
  | call a as, call b bs => a.same b && sameAll as bs
  | element a b, element c d => a.same c && b.same d
  | member a n, member b m => a.same b && n = m
  | array as, array bs => sameAll as bs
  | _, _ => false

def sameAll : List Expr → List Expr → Bool
  | [], [] => true
  | a :: as, b :: bs => a.same b && sameAll as bs
  | _, _ => false

end

end Expr

end ScriptFront
