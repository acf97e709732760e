import ScriptFront.Statement.Rules

/-! # Reading programs

A reader may be asked for the program again and again. After an error it goes on from the token it
stopped at. -/

namespace ScriptFront

/-- The nesting limit where none is asked for. -/
def defaultLimit : Nat := 64

namespace State

/-- Reads up to the end of the text; also gives what the reader is left at. -/
def readProgram (s : State) : Except ParseError Program × State :=
  match Rule.program s with
  | .ok p s => (.ok p, s)
  | .error e s => (.error e, s)

/-- Asks for the program a number of times. -/
def readPrograms (s : State) : Nat → List (Except ParseError Program)
  | 0 => []
  | n + 1 =>
    let (result, s) := s.readProgram
    result :: s.readPrograms n

end State

/-- The program a text holds, where nothing nests deeper than `limit`. -/
def parse (text : String) (limit : Nat) : Except ParseError Program := do
  let s ← State.start? text limit
  s.readProgram.1

end ScriptFront
