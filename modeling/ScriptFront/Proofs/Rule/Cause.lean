import ScriptFront.Expr.OfToken
import ScriptFront.Proofs.Rule.Takes

/-! # The token that a fault stands at

A fault tells what is wrong with one token, and so which tokens it can stand at. -/

namespace ScriptFront

/-- Whether an expression can start with such a token. -/
def TokenKind.startsExpression : TokenKind → Bool
  | identifier | string | integer | float | kwTrue | kwFalse | kwNull | openParen | openBracket
  | logNot | minus | bitNot | increment | decrement => true
  | _ => false

namespace SyntaxFault

/-- Whether a fault that is not about the nesting can stand at such a token. -/
def StandsAt : SyntaxFault → Terminal → Prop
  | wrongToken expected found, x => found = x.kind ∧ found ≠ expected
  | expectedExpression found, x => found = x.kind ∧ found.startsExpression = false
  | numberOutOfRange lexeme, x => (x.kind = .integer ∨ x.kind = .float) ∧ x.lexeme = some lexeme
  | conditionalTarget, x => (AssignOp.ofToken? x.kind).isSome = true
  | repeatedEllipsis, x => x.kind = .ellipsis
  | ellipsisNotLast, x => x.kind = .identifier
  | missingDefault parameter, x => x.kind = .identifier ∧ x.lexeme = some parameter
  | pathPastWildcard, x => x.kind = .period
  | repeatedDefault, x => x.kind = .kwDefault
  | nestingTooDeep _, _ => False

end SyntaxFault

end ScriptFront
