import ScriptFront.Expr.Operator
import ScriptFront.Number.Binary32

/-! # Expressions -/

namespace ScriptFront

inductive Literal where
  | integer (value : Int32)
  | float (value : Binary32)
  | string (content : String)
  | identifier (name : String)
  | boolean (value : Bool)
  | null
  deriving DecidableEq

inductive Expr where
  | literal (value : Literal)
  | unary (op : UnaryOp) (operand : Expr)
  | binary (op : BinaryOp) (left right : Expr)
  | assign (op : AssignOp) (target value : Expr)
  | conditional (condition yes no : Expr)
  | call (callee : Expr) (arguments : List Expr)
  | element (collection index : Expr)
  | member (object : Expr) (name : String)
  | array (items : List Expr)

/-- The shape of an expression without its parts. Negation and subtraction share a tag; the number
of parts tells them apart. -/
inductive ExprTag where
  | literal | conditional | call | element | member | array
  | infixed (op : BinaryOp)
  | assign (op : AssignOp)
  | logNot | bitNot | preIncrement | preDecrement | postIncrement | postDecrement
  deriving DecidableEq, Repr

def BinaryOp.tag (op : BinaryOp) : ExprTag := .infixed op

def AssignOp.tag (op : AssignOp) : ExprTag := .assign op

def UnaryOp.tag : UnaryOp → ExprTag
  | .logNot => .logNot
  | .bitNot => .bitNot
  | .negate => .infixed .minus
  | .preIncrement => .preIncrement
  | .preDecrement => .preDecrement
  | .postIncrement => .postIncrement
  | .postDecrement => .postDecrement

namespace Expr

def tag : Expr → ExprTag
  | literal _ => .literal
  | unary op _ => op.tag
  | binary op _ _ => op.tag
  | assign op _ _ => op.tag
  | conditional .. => .conditional
  | call .. => .call
  | element .. => .element
  | member .. => .member
  | array _ => .array

/-- The parts of an expression in the order of evaluation. -/
def children : Expr → List Expr
  | literal _ => []
  | unary _ operand => [operand]
  | binary _ left right => [left, right]
  | assign _ target value => [target, value]
  | conditional condition yes no => [condition, yes, no]
  | call callee arguments => callee :: arguments
  | element collection index => [collection, index]
  | member object _ => [object]
  | array items => items

def isConditional : Expr → Bool
  | conditional .. => true
  | _ => false

end Expr

end ScriptFront
