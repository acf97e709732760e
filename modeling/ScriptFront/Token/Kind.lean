/-! # Kinds of tokens

Four kinds carry their text; every other kind but the end has one spelling. Three reserved words
are second spellings of an operator. -/

namespace ScriptFront

inductive TokenKind where
  -- carrying their text
  | identifier | string | integer | float
  -- reserved words
  | kwTrue | kwFalse | kwConst | kwImport | kwFunction | kwReturn | kwVar | kwFor | kwWhile | kwDo
  | kwBreak | kwContinue | kwSwitch | kwCase | kwDefault | kwIf | kwElse | kwHas | kwIs | kwIn
  | kwNull
  -- brackets and punctuation
  | openParen | closeParen | openBracket | closeBracket | openBrace | closeBrace
  | comma | colon | semicolon | question | period | ellipsis
  -- operators
  | assign | equal | logNot | notEqual | divide | divideAssign | modulo | moduloAssign
  | bitXor | bitXorAssign | bitNot | bitNotAssign | multiply | multiplyAssign | power | powerAssign
  | less | lessEqual | shiftLeft | shiftLeftAssign | greater | greaterEqual | shiftRight
  | shiftRightAssign | bitAnd | bitAndAssign | logAnd | bitOr | bitOrAssign | logOr
  | plus | plusAssign | increment | minus | minusAssign | decrement
  | eof
  deriving DecidableEq, Repr

namespace TokenKind

/-- Whether tokens of this kind carry their text. -/
def hasLexeme : TokenKind → Bool
  | identifier | string | integer | float => true
  | _ => false

/-- The one way to write a kind that carries no text. -/
def spelling : TokenKind → Option String
  | identifier | string | integer | float | eof => none
  | kwTrue => some "true"
  | kwFalse => some "false"
  | kwConst => some "const"
  | kwImport => some "import"
  | kwFunction => some "function"
  | kwReturn => some "return"
  | kwVar => some "var"
  | kwFor => some "for"
  | kwWhile => some "while"
  | kwDo => some "do"
  | kwBreak => some "break"
  | kwContinue => some "continue"
  | kwSwitch => some "switch"
  | kwCase => some "case"
  | kwDefault => some "default"
  | kwIf => some "if"
  | kwElse => some "else"
  | kwHas => some "has"
  | kwIs => some "is"
  | kwIn => some "in"
  | kwNull => some "null"
  | openParen => some "("
  | closeParen => some ")"
  | openBracket => some "["
  | closeBracket => some "]"
  | openBrace => some "\x7b"
  | closeBrace => some "\x7d"
  | comma => some ","
  | colon => some ":"
  | semicolon => some ";"
  | question => some "?"
  | period => some "."
  | ellipsis => some "..."
  | assign => some "="
  | equal => some "=="
  | logNot => some "!"
  | notEqual => some "!="
  | divide => some "/"
  | divideAssign => some "/="
  | modulo => some "%"
  | moduloAssign => some "%="
  | bitXor => some "^"
  | bitXorAssign => some "^="
  | bitNot => some "~"
  | bitNotAssign => some "~="
  | multiply => some "*"
  | multiplyAssign => some "*="
  | power => some "**"
  | powerAssign => some "**="
  | less => some "<"
  | lessEqual => some "<="
  | shiftLeft => some "<<"
  | shiftLeftAssign => some "<<="
  | greater => some ">"
  | greaterEqual => some ">="
  | shiftRight => some ">>"
  | shiftRightAssign => some ">>="
  | bitAnd => some "&"
  | bitAndAssign => some "&="
  | logAnd => some "&&"
  | bitOr => some "|"
  | bitOrAssign => some "|="
  | logOr => some "||"
  | plus => some "+"
  | plusAssign => some "+="
  | increment => some "++"
  | minus => some "-"
  | minusAssign => some "-="
  | decrement => some "--"

/-- The kind as messages name it: its spelling between apostrophes, else a description. -/
def text (k : TokenKind) : String :=
  match k.spelling with
  | some s => "'" ++ s ++ "'"
  | none =>
    match k with
    | identifier => "identifier"
    | string => "string literal"
    | integer => "integer literal"
    | float => "float literal"
    | _ => "end of file"

/-- The reserved words and the kind each one stands for. -/
def keywords : List (String × TokenKind) := [
  ("true", kwTrue), ("false", kwFalse), ("import", kwImport), ("function", kwFunction),
  ("return", kwReturn), ("const", kwConst), ("var", kwVar), ("for", kwFor), ("while", kwWhile),
  ("do", kwDo), ("break", kwBreak), ("continue", kwContinue), ("switch", kwSwitch),
  ("case", kwCase), ("default", kwDefault), ("if", kwIf), ("else", kwElse), ("has", kwHas),
  ("is", kwIs), ("in", kwIn), ("null", kwNull), ("and", logAnd), ("or", logOr), ("not", logNot)]

def ofKeyword? (word : String) : Option TokenKind := keywords.lookup word

/-- The kinds written in punctuation, a longer spelling before every spelling it begins with. -/
def symbols : List TokenKind := [
  ellipsis, powerAssign, shiftLeftAssign, shiftRightAssign,
  equal, notEqual, divideAssign, moduloAssign, bitXorAssign, bitNotAssign, multiplyAssign, power,
  lessEqual, shiftLeft, greaterEqual, shiftRight, bitAndAssign, logAnd, bitOrAssign, logOr,
  plusAssign, increment, minusAssign, decrement,
  openParen, closeParen, openBracket, closeBracket, openBrace, closeBrace, comma, colon,
  semicolon, question, period, assign, logNot, divide, modulo, bitXor, bitNot, multiply, less,
  greater, bitAnd, bitOr, plus, minus]

end TokenKind

end ScriptFront
