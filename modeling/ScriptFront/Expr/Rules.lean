import ScriptFront.Expr.OfToken
import ScriptFront.Rule.Repeat

/-! # Rules for expressions

```text
assignment  = conditional [ assignOp conditional ]
conditional = binary [ "?" assignment ":" assignment ]
binary      = unary { binaryOp unary }                      ten tiers, all to the left
unary       = leadingOp unary | trailing
trailing    = primary { "++" | "--" | "(" items ")" | "[" assignment "]" | "." NAME }
primary     = LITERAL | "(" assignment ")" | "[" items "]"
items       = [ assignment { "," assignment } ]
```

An assignment, and the operand of a leading operator, stand one nesting level deeper than the rule
that asks for them. `expression` and `operand` are these two, already nested, wherever a rule takes
them as arguments. -/

namespace ScriptFront.Rule

/-- Expressions separated by commas, up to the token that closes the list. -/
def items (expression : Rule Expr) (close : TokenKind) : Rule (List Expr) := do
  if ← accept close then return []
  let es ← separated .comma expression
  discard (expect close)
  return es

def primaryWith (expression : Rule Expr) : Rule Expr := do
  match ← peek with
  | .openParen =>
    discard advance
    let e ← expression
    discard (expect .closeParen)
    return e
  | .openBracket =>
    discard advance
    return .array (← items expression .closeBracket)
  | _ =>
    match Literal.ofToken (← current) with
    | .ok value =>
      discard advance
      return .literal value
    | .error fault => fail fault

/-- One operator behind an operand; none where the operand ends. -/
def trailingLink (expression : Rule Expr) (e : Expr) : Rule (Option Expr) := do
  match ← peek with
  | .increment =>
    discard advance
    return some (.unary .postIncrement e)
  | .decrement =>
    discard advance
    return some (.unary .postDecrement e)
  | .openParen =>
    discard advance
    return some (.call e (← items expression .closeParen))
  | .openBracket =>
    discard advance
    let index ← expression
    discard (expect .closeBracket)
    return some (.element e index)
  | .period =>
    discard advance
    return some (.member e (← name))
  | _ => return none

def trailingWith (expression : Rule Expr) : Rule Expr :=
  chain (primaryWith expression) (trailingLink expression)

def unaryWith (expression operand : Rule Expr) : Rule Expr := do
  match UnaryOp.ofLeading? (← peek) with
  | some op =>
    discard advance
    return .unary op (← operand)
  | none => trailingWith expression

/-- Operators of a tier of at least `least`. What stands right of one is read in tighter tiers
only, so `tiers` bounds how often that can happen. -/
def binaryWith (expression operand : Rule Expr) : (tiers least : Nat) → Rule Expr
  | 0, _ => chain (unaryWith expression operand) fun _ => return none
  | tiers + 1, least => chain (unaryWith expression operand) fun left => do
    match BinaryOp.ofToken? (← peek) with
    | some op =>
      if op.tier < least then return none
      discard advance
      return some (.binary op left (← binaryWith expression operand tiers (op.tier + 1)))
    | none => return none

def conditionalWith (expression operand : Rule Expr) : Rule Expr := do
  let condition ← binaryWith expression operand 10 1
  unless ← accept .question do return condition
  let yes ← expression
  discard (expect .colon)
  return .conditional condition yes (← expression)

/-- At most one operator; both of its sides are conditionals, and the left one must not have come
out as one. -/
def assignmentWith (expression operand : Rule Expr) : Rule Expr := do
  let target ← conditionalWith expression operand
  match AssignOp.ofToken? (← peek) with
  | none => return target
  | some op =>
    if target.isConditional then fail .conditionalTarget
    else
      discard advance
      return .assign op target (← conditionalWith expression operand)

mutual

/-- An assignment one level deeper, where `levels` levels are left. -/
def expressionWithin : Nat → Rule Expr
  | 0, s => tooDeep s
  | levels + 1, s =>
    nested (assignmentWith (expressionWithin levels) (operandWithin levels)) s

/-- The operand of a leading operator one level deeper, where `levels` levels are left. -/
def operandWithin : Nat → Rule Expr
  | 0, s => tooDeep s
  | levels + 1, s =>
    nested (unaryWith (expressionWithin levels) (operandWithin levels)) s

end

/-- A constant expression, which is a conditional, one level deeper. -/
def constantWithin : Nat → Rule Expr
  | 0, s => tooDeep s
  | levels + 1, s =>
    nested (conditionalWith (expressionWithin levels) (operandWithin levels)) s

/-- An expression at the nesting of the state. -/
def expression : Rule Expr := fun s => expressionWithin s.levels s

def constant : Rule Expr := fun s => constantWithin s.levels s

end ScriptFront.Rule
