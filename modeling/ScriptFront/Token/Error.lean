import ScriptFront.Location
import ScriptFront.Text.Escaped

/-! # Lexical errors -/

namespace ScriptFront

inductive LexFault where
  /-- The line or the text ended inside a quotation, of which this was read. -/
  | unclosedString (content : String)
  | unknownCharacter (c : Char)
  /-- A numeral with more than one point. -/
  | malformedNumber (lexeme : String)
  /-- A backslash in a quotation with nothing left to escape. -/
  | danglingEscape
  /-- A look ahead by no token at all. -/
  | lookaheadTooShort
  deriving DecidableEq, Repr

/-- A fault and the place where reading stopped. -/
structure LexError where
  fault : LexFault
  location : Location
  deriving DecidableEq, Repr

namespace LexFault

/-- The stable name of the kind of fault. -/
def name : LexFault → String
  | unclosedString _ => "StringNotClosed"
  | unknownCharacter _ => "UnknownCharacter"
  | malformedNumber _ => "UnknownIdentifier"
  | danglingEscape => "InvalidOperator"
  | lookaheadTooShort => "LookParamLessOne"

def message : LexFault → String
  | unclosedString content =>
    "string literal not closed (read so far: " ++ Text.escaped content ++ ")"
  | unknownCharacter c => "unknown character '" ++ c.toString ++ "'"
  | malformedNumber lexeme => "invalid number literal '" ++ lexeme ++ "'"
  | danglingEscape => "dangling '\\' in string literal"
  | lookaheadTooShort => "lookahead distance must be at least 1, got 0"

end LexFault

def LexError.message (e : LexError) : String :=
  "Lexer error at " ++ e.location.text ++ ": " ++ e.fault.message

end ScriptFront
