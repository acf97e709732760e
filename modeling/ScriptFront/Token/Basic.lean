import ScriptFront.Location
import ScriptFront.Token.Kind

/-! # Tokens -/

namespace ScriptFront

/-- A lexical unit and the place of its first character. -/
structure Token where
  kind : TokenKind
  lexeme : Option String
  location : Location
  deriving DecidableEq, Repr

namespace Token

/-- The carried text; empty where the kind carries none. -/
def content (t : Token) : String := t.lexeme.getD ""

/-- The token as messages name it. -/
def text (t : Token) : String :=
  match t.kind, t.lexeme with
  | .string, some s => "string literal \"" ++ s ++ "\""
  | .identifier, some s => "identifier '" ++ s ++ "'"
  | kind, some s => kind.text ++ " " ++ s
  | kind, none => kind.text

end Token

end ScriptFront
