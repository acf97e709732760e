import ScriptFront.Token.Kind
import ScriptFront.Token.Error

/-! # Errors of reading a program -/

namespace ScriptFront

inductive SyntaxFault where
  | wrongToken (expected found : TokenKind)
  | expectedExpression (found : TokenKind)
  | numberOutOfRange (lexeme : String)
  /-- An operator assigns to a conditional expression. -/
  | conditionalTarget
  | repeatedEllipsis
  | ellipsisNotLast
  /-- A parameter without a default behind one with a default. -/
  | missingDefault (parameter : String)
  | pathPastWildcard
  | repeatedDefault
  | nestingTooDeep (limit : Nat)
  deriving DecidableEq, Repr

inductive ParseError where
  | lexical (error : LexError)
  | grammatical (fault : SyntaxFault) (location : Location)
  deriving DecidableEq, Repr

namespace SyntaxFault

/-- The stable name of the kind of fault. -/
def name : SyntaxFault → String
  | wrongToken .. => "WrongToken"
  | expectedExpression _ => "ExpectedExpression"
  | numberOutOfRange _ => "InvalidNumber"
  | conditionalTarget => "ConditionAssignmentStatementMixed"
  | repeatedEllipsis => "EllipsesInvalidCount"
  | ellipsisNotLast => "EllipsesNotLast"
  | missingDefault _ => "NonDefaultAfterDefault"
  | pathPastWildcard => "EntryAfterAllAccess"
  | repeatedDefault => "MultipleDefaults"
  | nestingTooDeep _ => "NestingTooDeep"

def message : SyntaxFault → String
  | wrongToken expected found => "expected " ++ expected.text ++ ", found " ++ found.text
  | expectedExpression found => "expected expression, found " ++ found.text
  | numberOutOfRange lexeme => "number literal '" ++ lexeme ++ "' is out of range"
  | conditionalTarget => "a conditional expression cannot be assigned to"
  | repeatedEllipsis => "only one '...' parameter is allowed"
  | ellipsisNotLast => "'...' must be the last parameter"
  | missingDefault parameter =>
    "parameter '" ++ parameter ++ "' needs a default value because an earlier parameter has one"
  | pathPastWildcard => "nothing may follow '*' in an import path"
  | repeatedDefault => "switch statement has more than one default block"
  | nestingTooDeep limit => "nesting deeper than " ++ toString limit ++ " levels"

end SyntaxFault

namespace ParseError

def location : ParseError → Location
  | lexical error => error.location
  | grammatical _ location => location

def name : ParseError → String
  | lexical error => error.fault.name
  | grammatical fault _ => fault.name

def message : ParseError → String
  | lexical error => error.message
  | grammatical fault location => "Parse error at " ++ location.text ++ ": " ++ fault.message

end ParseError

end ScriptFront
