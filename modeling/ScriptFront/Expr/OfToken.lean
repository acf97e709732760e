import ScriptFront.Expr.Basic
import ScriptFront.Rule.Error
import ScriptFront.Token.Basic

/-! # Operators and literals that tokens stand for -/

namespace ScriptFront

def AssignOp.ofToken? : TokenKind → Option AssignOp
  | .assign => some .assign
  | .shiftLeftAssign => some .shiftLeft
  | .shiftRightAssign => some .shiftRight
  | .plusAssign => some .plus
  | .minusAssign => some .minus
  | .multiplyAssign => some .multiply
  | .powerAssign => some .power
  | .divideAssign => some .divide
  | .moduloAssign => some .modulo
  | .bitAndAssign => some .bitAnd
  | .bitOrAssign => some .bitOr
  | .bitXorAssign => some .bitXor
  | .bitNotAssign => some .bitNot
  | _ => none

def BinaryOp.ofToken? : TokenKind → Option BinaryOp
  | .logOr => some .logOr
  | .logAnd => some .logAnd
  | .bitOr => some .bitOr
  | .bitXor => some .bitXor
  | .bitAnd => some .bitAnd
  | .equal => some .equal
  | .notEqual => some .notEqual
  | .less => some .less
  | .lessEqual => some .lessEqual
  | .greater => some .greater
  | .greaterEqual => some .greaterEqual
  | .shiftLeft => some .shiftLeft
  | .shiftRight => some .shiftRight
  | .plus => some .plus
  | .minus => some .minus
  | .multiply => some .multiply
  | .divide => some .divide
  | .modulo => some .modulo
  | .power => some .power
  | _ => none

/-- The operator a token stands for in front of an operand. -/
def UnaryOp.ofLeading? : TokenKind → Option UnaryOp
  | .logNot => some .logNot
  | .minus => some .negate
  | .bitNot => some .bitNot
  | .increment => some .preIncrement
  | .decrement => some .preDecrement
  | _ => none

/-- The literal a token stands for. Integers fill 31 bits, and a float must not round to
infinity. -/
def Literal.ofToken (t : Token) : Except SyntaxFault Literal :=
  match t.kind with
  | .integer =>
    let value := Decimal.natural t.content.toList
    if value < 2 ^ 31 then .ok (.integer (.ofNat value)) else .error (.numberOutOfRange t.content)
  | .float =>
    match Binary32.ofDecimal? (.read t.content.toList) with
    | some value => .ok (.float value)
    | none => .error (.numberOutOfRange t.content)
  | .string => .ok (.string t.content)
  | .identifier => .ok (.identifier t.content)
  | .kwTrue => .ok (.boolean true)
  | .kwFalse => .ok (.boolean false)
  | .kwNull => .ok .null
  | found => .error (.expectedExpression found)

end ScriptFront
