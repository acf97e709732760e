import ScriptFront.Expr.Rules
import ScriptFront.Statement.Parameters

/-! # Rules for statements

```text
statement   = function | importPath | declaration | if | switch | for | while | doWhile
            | "return" expression { ":" expression } ";" | "break" ";" | "continue" ";"
            | ";" | expression ";"
function    = "function" NAME "(" parameters ")" ( ";" | body )
importPath  = "import" NAME { "." ( NAME | "*" ) } ";"
declaration = ( "var" | "const" ) STRING "=" expression ";"
if          = "if" "(" expression ")" body [ "else" ( if | body ) ]
switch      = "switch" "(" expression ")" "{" { case } "}"
case        = ( "case" constant | "default" ) ":" { statement }
for         = "for" "(" NAME "in" expression ")" body
            | "for" "(" ( declaration | [ expression ] ";" ) [ expression ] ";"
                        [ expression ] ")" body
while       = "while" "(" expression ")" body
doWhile     = "do" body "while" "(" expression ")" ";"
body        = "{" { statement } "}" | statement
```

Bodies, and the statements of a case, stand one nesting level deeper. -/

namespace ScriptFront.Rule

/-- The rules that stand one level deeper than the statement that asks for them, already nested. -/
structure Inner where
  expression : Rule Expr
  constant : Rule Expr
  body : Rule Block
  caseBody : Rule Block

def declarationWith (expression : Rule Expr) : Rule Declaration := do
  let isConst ← accept .kwConst
  unless isConst do discard (expect .kwVar)
  let name := (← expect .string).content
  discard (expect .assign)
  let value ← expression
  discard (expect .semicolon)
  return { isConst, name, value }

def parenthesized (expression : Rule Expr) : Rule Expr := do
  discard (expect .openParen)
  let e ← expression
  discard (expect .closeParen)
  return e

def functionWith (inner : Inner) : Rule Statement := do
  discard (expect .kwFunction)
  let name ← name
  discard (expect .openParen)
  let parameters ← parametersWith inner.constant
  discard (expect .closeParen)
  if ← accept .semicolon then return .function name parameters none
  return .function name parameters (some (← inner.body))

/-- One more part of an import path; `read` holds the parts before it, last first. -/
def segment (read : List Segment) : Rule (Option (List Segment)) := do
  unless (← peek) = .period do return none
  if read.head? = some .wildcard then fail .pathPastWildcard
  else
    discard advance
    if ← accept .multiply then return some (.wildcard :: read)
    return some (.name (← name) :: read)

def importRule : Rule Statement := do
  discard (expect .kwImport)
  let first ← name
  let path ← iterate segment [.name first]
  discard (expect .semicolon)
  return .importPath path.reverse

def returnWith (expression : Rule Expr) : Rule Statement := do
  discard (expect .kwReturn)
  let values ← separated .colon expression
  discard (expect .semicolon)
  return .returnValues values

def ifArm (inner : Inner) : Rule Arm := do
  discard (expect .kwIf)
  let condition ← parenthesized inner.expression
  return .mk condition (← inner.body)

/-- An `else` and what it brings: one more condition, or the block that ends the chain. The
further conditions are held last first. -/
def elsePart (inner : Inner) : List Arm × Option Block → Rule (Option (List Arm × Option Block))
  | (_, some _) => return none
  | (arms, none) => do
    unless ← accept .kwElse do return none
    if (← peek) = .kwIf then return some ((← ifArm inner) :: arms, none)
    return some (arms, some (← inner.body))

def ifWith (inner : Inner) : Rule Statement := do
  let first ← ifArm inner
  let (arms, otherwise) ← iterate (elsePart inner) ([], none)
  return .ifElse first arms.reverse otherwise

/-- A labelled part of a `switch`. The cases are held last first. -/
def switchPart (inner : Inner) : List Arm × Option Block → Rule (Option (List Arm × Option Block))
  | (cases, default) => do
    match ← peek with
    | .closeBrace | .eof => return none
    | .kwCase =>
      discard advance
      let label ← inner.constant
      discard (expect .colon)
      return some (.mk label (← inner.caseBody) :: cases, default)
    | .kwDefault =>
      if default.isSome then fail .repeatedDefault
      else
        discard advance
        discard (expect .colon)
        return some (cases, some (← inner.caseBody))
    | found => fail (.wrongToken .kwCase found)

def switchWith (inner : Inner) : Rule Statement := do
  discard (expect .kwSwitch)
  let subject ← parenthesized inner.expression
  discard (expect .openBrace)
  let (cases, default) ← iterate (switchPart inner) ([], none)
  discard (expect .closeBrace)
  return .switch subject cases.reverse default

/-- The clause in front of the first semicolon, and that semicolon. -/
def forInit (expression : Rule Expr) : Rule (Option ForInit) := do
  match ← peek with
  | .semicolon =>
    discard advance
    return none
  | .kwVar | .kwConst => return some (.declaration (← declarationWith expression))
  | _ =>
    let e ← expression
    discard (expect .semicolon)
    return some (.expression e)

/-- A clause that may be missing, and the token behind it. -/
def forClause (expression : Rule Expr) (close : TokenKind) : Rule (Option Expr) := do
  if ← accept close then return none
  let e ← expression
  discard (expect close)
  return some e

def forEachWith (inner : Inner) : Rule Statement := do
  let binding ← name
  discard (expect .kwIn)
  let source ← inner.expression
  discard (expect .closeParen)
  return .forEach binding source (← inner.body)

def forLoopWith (inner : Inner) : Rule Statement := do
  let init ← forInit inner.expression
  let condition ← forClause inner.expression .semicolon
  let increment ← forClause inner.expression .closeParen
  return .forLoop init condition increment (← inner.body)

/-- A name and `in` behind the parenthesis tell the two loops apart. -/
def forWith (inner : Inner) : Rule Statement := do
  discard (expect .kwFor)
  discard (expect .openParen)
  if (← peek) = .identifier then
    if (← peekNext) = .kwIn then forEachWith inner else forLoopWith inner
  else forLoopWith inner

def whileWith (inner : Inner) : Rule Statement := do
  discard (expect .kwWhile)
  let condition ← parenthesized inner.expression
  return .whileLoop condition (← inner.body)

def doWhileWith (inner : Inner) : Rule Statement := do
  discard (expect .kwDo)
  let body ← inner.body
  discard (expect .kwWhile)
  let condition ← parenthesized inner.expression
  discard (expect .semicolon)
  return .doWhile body condition

/-- A statement of one word. -/
def single (statement : Statement) : Rule Statement := do
  discard advance
  discard (expect .semicolon)
  return statement

/-- A statement; nothing for a semicolon alone. -/
def statementWith (inner : Inner) : Rule (Option Statement) := do
  match ← peek with
  | .semicolon =>
    discard advance
    return none
  | .kwFunction => some <$> functionWith inner
  | .kwImport => some <$> importRule
  | .kwVar | .kwConst => return some (.declaration (← declarationWith inner.expression))
  | .kwBreak => some <$> single .breakLoop
  | .kwContinue => some <$> single .continueLoop
  | .kwReturn => some <$> returnWith inner.expression
  | .kwIf => some <$> ifWith inner
  | .kwSwitch => some <$> switchWith inner
  | .kwFor => some <$> forWith inner
  | .kwWhile => some <$> whileWith inner
  | .kwDo => some <$> doWhileWith inner
  | _ =>
    let e ← inner.expression
    discard (expect .semicolon)
    return some (.expression e)

def bodyWith (statement : Rule (Option Statement)) : Rule Block := do
  if ← accept .openBrace then
    let block ← manyUntil (fun kind => kind = .closeBrace || kind = .eof) statement
    discard (expect .closeBrace)
    return block
  return (← statement).toList

def caseBodyWith (statement : Rule (Option Statement)) : Rule Block :=
  manyUntil (fun kind => kind = .kwCase || kind = .kwDefault || kind = .closeBrace || kind = .eof)
    statement

mutual

/-- A body one level deeper, where `levels` levels are left. -/
def bodyWithin : Nat → Rule Block
  | 0, s => tooDeep s
  | levels + 1, s =>
    nested (bodyWith (statementWith ⟨expressionWithin levels, constantWithin levels,
      bodyWithin levels, caseBodyWithin levels⟩)) s

/-- The statements of a case one level deeper, where `levels` levels are left. -/
def caseBodyWithin : Nat → Rule Block
  | 0, s => tooDeep s
  | levels + 1, s =>
    nested (caseBodyWith (statementWith ⟨expressionWithin levels, constantWithin levels,
      bodyWithin levels, caseBodyWithin levels⟩)) s

end

/-- The rules of the next level, where `levels` levels are left. -/
def innerWithin (levels : Nat) : Inner :=
  ⟨expressionWithin levels, constantWithin levels, bodyWithin levels, caseBodyWithin levels⟩

/-- A statement at the nesting of the state. -/
def statement : Rule (Option Statement) := fun s => statementWith (innerWithin s.levels) s

/-- Statements up to the end of the text. -/
def program : Rule Program := manyUntil (· = .eof) statement

end ScriptFront.Rule
