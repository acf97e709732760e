import ScriptFront.Rule.Error
import ScriptFront.Token.Cursor

/-! # Grammar rules

A rule reads from a state and leaves a state, also where it fails. The state holds one token that
is read but not yet taken. -/

namespace ScriptFront

structure State where
  cursor : Cursor
  /-- The first token not yet taken. -/
  current : Token
  /-- The deepest nesting allowed. -/
  limit : Nat
  /-- The nesting at this point. -/
  depth : Nat
  /-- The deepest nesting reached inside the innermost open chain of operators. -/
  peak : Nat
  deriving DecidableEq, Repr

abbrev Rule := EStateM ParseError State

namespace State

/-- The nesting levels still allowed. -/
def levels (s : State) : Nat := s.limit - s.depth

/-- Before the first token of a text. -/
def start? (text : String) (limit : Nat) : Except ParseError State :=
  match (Cursor.ofText text).next with
  | (.ok t, cursor) => .ok ⟨cursor, t, limit, 0, 0⟩
  | (.error e, _) => .error (.lexical e)

end State

namespace Rule

variable {α : Type}

def peek : Rule TokenKind := fun s => .ok s.current.kind s

def current : Rule Token := fun s => .ok s.current s

def here : Rule Location := fun s => .ok s.current.location s

def failAt (location : Location) (fault : SyntaxFault) : Rule α :=
  fun s => .error (.grammatical fault location) s

/-- Fails at the current token. -/
def fail (fault : SyntaxFault) : Rule α := fun s => failAt s.current.location fault s

/-- The kind of the token behind the current one. -/
def peekNext : Rule TokenKind := fun s =>
  match s.cursor.look 1 with
  | .ok t => .ok t.kind s
  | .error e => .error (.lexical e) s

/-- Takes the current token. The end is never taken. Where the next token cannot be read, the
current one stays. -/
def advance : Rule Token := fun s =>
  if s.current.kind = .eof then .ok s.current s
  else
    match s.cursor.next with
    | (.ok t, cursor) => .ok s.current { s with cursor, current := t }
    | (.error e, cursor) => .error (.lexical e) { s with cursor }

/-- Takes the current token if it is of this kind. -/
def accept (kind : TokenKind) : Rule Bool := do
  if (← peek) = kind then
    discard advance
    return true
  else return false

def expect (kind : TokenKind) : Rule Token := do
  let found ← peek
  if found = kind then advance else fail (.wrongToken kind found)

def name : Rule String := return (← expect .identifier).content

def tooDeep : Rule α := fun s => fail (.nestingTooDeep s.limit) s

/-- Runs a rule one level deeper. -/
def nested (rule : Rule α) : Rule α := fun s =>
  if s.limit ≤ s.depth then tooDeep s
  else
    match rule { s with depth := s.depth + 1, peak := max s.peak (s.depth + 1) } with
    | .ok a s => .ok a { s with depth := s.depth - 1 }
    | .error e s => .error e { s with depth := s.depth - 1 }

end Rule

end ScriptFront
