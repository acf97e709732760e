import ScriptFront.Proofs.Token.Spelling
import ScriptFront.Expr.Basic

/-! # Expressions that can be written -/

namespace ScriptFront

/-- A literal that some token stands for. -/
def Literal.isWellFormed : Literal → Bool
  | integer value => 0 ≤ value
  | float value => value.isFinite && !value.isNegative
  | string content => !content.toList.contains '\n'
  | identifier name => isName name
  | boolean _ | null => true

namespace Expr

mutual

def isWellFormed : Expr → Bool
  | literal value => value.isWellFormed
  | unary _ operand => operand.isWellFormed
  | binary _ left right => left.isWellFormed && right.isWellFormed
  | assign _ target value =>
    !target.isConditional && target.isWellFormed && value.isWellFormed
  | conditional condition yes no =>
    condition.isWellFormed && yes.isWellFormed && no.isWellFormed
  | call callee arguments => callee.isWellFormed && allWellFormed arguments
  | element collection index => collection.isWellFormed && index.isWellFormed
  | member object name => object.isWellFormed && isName name
  | array items => allWellFormed items

def allWellFormed : List Expr → Bool
  | [] => true
  | e :: es => e.isWellFormed && allWellFormed es

end

end Expr

end ScriptFront
