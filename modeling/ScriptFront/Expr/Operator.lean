/-! # Operators -/

namespace ScriptFront

inductive BinaryOp where
  | logOr | logAnd | bitOr | bitXor | bitAnd | equal | notEqual
  | less | lessEqual | greater | greaterEqual | shiftLeft | shiftRight
  | plus | minus | multiply | divide | modulo | power
  deriving DecidableEq, Repr

inductive UnaryOp where
  | logNot | bitNot | negate | preIncrement | preDecrement | postIncrement | postDecrement
  deriving DecidableEq, Repr

inductive AssignOp where
  | assign | shiftLeft | shiftRight | plus | minus | multiply | power | divide | modulo
  | bitAnd | bitOr | bitXor | bitNot
  deriving DecidableEq, Repr

namespace BinaryOp

def symbol : BinaryOp → String
  | logOr => "||"
  | logAnd => "&&"
  | bitOr => "|"
  | bitXor => "^"
  | bitAnd => "&"
  | equal => "=="
  | notEqual => "!="
  | less => "<"
  | lessEqual => "<="
  | greater => ">"
  | greaterEqual => ">="
  | shiftLeft => "<<"
  | shiftRight => ">>"
  | plus => "+"
  | minus => "-"
  | multiply => "*"
  | divide => "/"
  | modulo => "%"
  | power => "**"

/-- The tier of an operator, from the loosest one to the ten that bind tightest. -/
def tier : BinaryOp → Nat
  | logOr => 1
  | logAnd => 2
  | bitOr => 3
  | bitXor => 4
  | bitAnd => 5
  | equal | notEqual => 6
  | less | lessEqual | greater | greaterEqual => 7
  | shiftLeft | shiftRight => 8
  | plus | minus => 9
  | multiply | divide | modulo | power => 10

end BinaryOp

namespace UnaryOp

def symbol : UnaryOp → String
  | logNot => "!"
  | bitNot => "~"
  | negate => "-"
  | preIncrement | postIncrement => "++"
  | preDecrement | postDecrement => "--"

/-- Whether the operator stands behind its operand. -/
def isTrailing : UnaryOp → Bool
  | postIncrement | postDecrement => true
  | _ => false

end UnaryOp

namespace AssignOp

def symbol : AssignOp → String
  | assign => "="
  | shiftLeft => "<<="
  | shiftRight => ">>="
  | plus => "+="
  | minus => "-="
  | multiply => "*="
  | power => "**="
  | divide => "/="
  | modulo => "%="
  | bitAnd => "&="
  | bitOr => "|="
  | bitXor => "^="
  | bitNot => "~="

end AssignOp

end ScriptFront
