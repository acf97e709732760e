import ScriptFront.Expr.Basic
import ScriptFront.Number.Shortest
import ScriptFront.Text.Quoted

/-! # Writing expressions

Every operator application stands in parentheses, so no precedence is needed to read it back. -/

namespace ScriptFront

def Literal.text : Literal → String
  | integer value => toString value.toInt
  | float value => value.text
  | string content => Quoted.encode content
  | identifier name => name
  | boolean value => if value then "true" else "false"
  | null => "null"

namespace Expr

/-- Whether a point behind the expression would be read as part of a number. -/
def isNumeral : Expr → Bool
  | literal (.integer _) | literal (.float _) => true
  | _ => false

def parenthesize (s : String) : String := "(" ++ s ++ ")"

mutual

def text : Expr → String
  | literal value => value.text
  | unary op operand =>
    parenthesize (if op.isTrailing then operand.text ++ op.symbol else op.symbol ++ operand.text)
  | binary op left right => parenthesize (left.text ++ " " ++ op.symbol ++ " " ++ right.text)
  | assign op target value => parenthesize (target.text ++ " " ++ op.symbol ++ " " ++ value.text)
  | conditional condition yes no =>
    parenthesize (condition.text ++ " ? " ++ yes.text ++ " : " ++ no.text)
  | call callee arguments => callee.text ++ parenthesize (", ".intercalate (texts arguments))
  | element collection index => collection.text ++ "[" ++ index.text ++ "]"
  | member object name =>
    (if object.isNumeral then parenthesize object.text else object.text) ++ "." ++ name
  | array items => "[" ++ ", ".intercalate (texts items) ++ "]"

def texts : List Expr → List String
  | [] => []
  | e :: es => e.text :: texts es

end

end Expr

end ScriptFront
