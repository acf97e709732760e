import ScriptFront.Expr.OfToken
import ScriptFront.Proofs.Rule.Takes

/-! # The grammar of expressions

```text
assignment     = conditional [ assignOp conditional ]
conditional    = logOr [ "?" assignment ":" assignment ]
logOr          = logAnd { "||" logAnd }
logAnd         = bitOr { "&&" bitOr }
bitOr          = bitXor { "|" bitXor }
bitXor         = bitAnd { "^" bitAnd }
bitAnd         = equality { "&" equality }
equality       = relational { ( "==" | "!=" ) relational }
relational     = shift { ( "<" | "<=" | ">" | ">=" ) shift }
shift          = additive { ( "<<" | ">>" ) additive }
additive       = multiplicative { ( "+" | "-" ) multiplicative }
multiplicative = unary { ( "*" | "/" | "%" | "**" ) unary }
unary          = ( "!" | "-" | "~" | "++" | "--" ) unary | trailing
trailing       = primary { "++" | "--" | "(" items ")" | "[" assignment "]" | "." NAME }
primary        = LITERAL | "(" assignment ")" | "[" items "]"
items          = [ assignment { "," assignment } ]
```

A phrase is a derivation: of a symbol, from terminals, of a tree. -/

namespace ScriptFront

open Terminal

/-- The terminal an operator is written as. -/
def BinaryOp.kind : BinaryOp → TokenKind
  | logOr => .logOr
  | logAnd => .logAnd
  | bitOr => .bitOr
  | bitXor => .bitXor
  | bitAnd => .bitAnd
  | equal => .equal
  | notEqual => .notEqual
  | less => .less
  | lessEqual => .lessEqual
  | greater => .greater
  | greaterEqual => .greaterEqual
  | shiftLeft => .shiftLeft
  | shiftRight => .shiftRight
  | plus => .plus
  | minus => .minus
  | multiply => .multiply
  | divide => .divide
  | modulo => .modulo
  | power => .power

def UnaryOp.kind : UnaryOp → TokenKind
  | logNot => .logNot
  | bitNot => .bitNot
  | negate => .minus
  | preIncrement | postIncrement => .increment
  | preDecrement | postDecrement => .decrement

def AssignOp.kind : AssignOp → TokenKind
  | assign => .assign
  | shiftLeft => .shiftLeftAssign
  | shiftRight => .shiftRightAssign
  | plus => .plusAssign
  | minus => .minusAssign
  | multiply => .multiplyAssign
  | power => .powerAssign
  | divide => .divideAssign
  | modulo => .moduloAssign
  | bitAnd => .bitAndAssign
  | bitOr => .bitOrAssign
  | bitXor => .bitXorAssign
  | bitNot => .bitNotAssign

/-- The value a terminal stands for. Integers fill 31 bits, and floats are finite. -/
inductive Literal.Denoted : Terminal → Literal → Prop where
  | integer {s : String} (h : Decimal.natural s.toList < 2 ^ 31) :
      Denoted (carrying .integer s) (.integer (.ofNat (Decimal.natural s.toList)))
  | float {s : String} {x : Binary32} (h : Binary32.ofDecimal? (.read s.toList) = some x) :
      Denoted (carrying .float s) (.float x)
  | string (s : String) : Denoted (carrying .string s) (.string s)
  | identifier (s : String) : Denoted (carrying .identifier s) (.identifier s)
  | kwTrue : Denoted (fixed .kwTrue) (.boolean true)
  | kwFalse : Denoted (fixed .kwFalse) (.boolean false)
  | kwNull : Denoted (fixed .kwNull) .null

/-- The tiers of binary operators, the loosest first. -/
inductive Tier where
  | logOr | logAnd | bitOr | bitXor | bitAnd
  | equality | relational | shift | additive | multiplicative
  deriving DecidableEq, Repr

/-- What derives a single expression. -/
inductive Symbol where
  | assignment | conditional
  | binary (tier : Tier)
  | unary | trailing | primary
  deriving DecidableEq, Repr

namespace Tier

def operators : Tier → List BinaryOp
  | logOr => [.logOr]
  | logAnd => [.logAnd]
  | bitOr => [.bitOr]
  | bitXor => [.bitXor]
  | bitAnd => [.bitAnd]
  | equality => [.equal, .notEqual]
  | relational => [.less, .lessEqual, .greater, .greaterEqual]
  | shift => [.shiftLeft, .shiftRight]
  | additive => [.plus, .minus]
  | multiplicative => [.multiply, .divide, .modulo, .power]

/-- What stands on both sides of the first operator of a tier. -/
def operand : Tier → Symbol
  | logOr => .binary .logAnd
  | logAnd => .binary .bitOr
  | bitOr => .binary .bitXor
  | bitXor => .binary .bitAnd
  | bitAnd => .binary .equality
  | equality => .binary .relational
  | relational => .binary .shift
  | shift => .binary .additive
  | additive => .binary .multiplicative
  | multiplicative => .unary

end Tier

namespace Expr

mutual

inductive Phrase : Symbol → List Terminal → Expr → Type where
  | literal {x : Terminal} {v : Literal} (h : v.Denoted x) : Phrase .primary [x] (.literal v)
  | group {w : List Terminal} {e : Expr} (d : Phrase .assignment w e) :
      Phrase .primary (fixed .openParen :: (w ++ [fixed .closeParen])) e
  | array {w : List Terminal} {es : List Expr} (ds : Items w es) :
      Phrase .primary (fixed .openBracket :: (w ++ [fixed .closeBracket])) (.array es)
  | primary {w : List Terminal} {e : Expr} (d : Phrase .primary w e) : Phrase .trailing w e
  | increment {w : List Terminal} {e : Expr} (d : Phrase .trailing w e) :
      Phrase .trailing (w ++ [fixed .increment]) (.unary .postIncrement e)
  | decrement {w : List Terminal} {e : Expr} (d : Phrase .trailing w e) :
      Phrase .trailing (w ++ [fixed .decrement]) (.unary .postDecrement e)
  | call {v w : List Terminal} {e : Expr} {es : List Expr} (d : Phrase .trailing v e)
      (ds : Items w es) :
      Phrase .trailing (v ++ fixed .openParen :: (w ++ [fixed .closeParen])) (.call e es)
  | element {v w : List Terminal} {e i : Expr} (d : Phrase .trailing v e)
      (di : Phrase .assignment w i) :
      Phrase .trailing (v ++ fixed .openBracket :: (w ++ [fixed .closeBracket])) (.element e i)
  | member {w : List Terminal} {e : Expr} (d : Phrase .trailing w e) (name : String) :
      Phrase .trailing (w ++ [fixed .period, carrying .identifier name]) (.member e name)
  | trailing {w : List Terminal} {e : Expr} (d : Phrase .trailing w e) : Phrase .unary w e
  | leading {w : List Terminal} {e : Expr} (op : UnaryOp) (h : op.isTrailing = false)
      (d : Phrase .unary w e) : Phrase .unary (fixed op.kind :: w) (.unary op e)
  | operand {t : Tier} {w : List Terminal} {e : Expr} (d : Phrase t.operand w e) :
      Phrase (.binary t) w e
  | binary {t : Tier} {v w : List Terminal} {a b : Expr} (l : Phrase (.binary t) v a)
      (op : BinaryOp) (h : op ∈ t.operators) (r : Phrase t.operand w b) :
      Phrase (.binary t) (v ++ fixed op.kind :: w) (.binary op a b)
  | simple {w : List Terminal} {e : Expr} (d : Phrase (.binary .logOr) w e) :
      Phrase .conditional w e
  | choice {u v w : List Terminal} {c y n : Expr} (dc : Phrase (.binary .logOr) u c)
      (dy : Phrase .assignment v y) (dn : Phrase .assignment w n) :
      Phrase .conditional (u ++ fixed .question :: (v ++ fixed .colon :: w)) (.conditional c y n)
  | conditional {w : List Terminal} {e : Expr} (d : Phrase .conditional w e) :
      Phrase .assignment w e
  | assign {v w : List Terminal} {a b : Expr} (d : Phrase .conditional v a) (op : AssignOp)
      (h : a.isConditional = false) (r : Phrase .conditional w b) :
      Phrase .assignment (v ++ fixed op.kind :: w) (.assign op a b)

/-- Expressions between commas. -/
inductive Items : List Terminal → List Expr → Type where
  | nil : Items [] []
  | single {w : List Terminal} {e : Expr} (d : Phrase .assignment w e) : Items w [e]
  | cons {v w : List Terminal} {e f : Expr} {es : List Expr} (d : Phrase .assignment v e)
      (ds : Items w (f :: es)) : Items (v ++ fixed .comma :: w) (e :: f :: es)

end

/-- Some terminals are an expression. -/
def Derives (w : List Terminal) (e : Expr) : Prop := Nonempty (Phrase .assignment w e)

end Expr

end ScriptFront
