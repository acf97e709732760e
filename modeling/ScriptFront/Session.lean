import ScriptFront.Program

/-! # Sessions

A session reads text after text and keeps every error it meets. -/

namespace ScriptFront

structure Session where
  /-- The errors met so far, first one first. -/
  errors : List ParseError

namespace Session

def empty : Session := ⟨[]⟩

def hasErrors (s : Session) : Bool := !s.errors.isEmpty

def parse (s : Session) (text : String) (limit : Nat) : Except ParseError Program × Session :=
  match ScriptFront.parse text limit with
  | .ok p => (.ok p, s)
  | .error e => (.error e, ⟨s.errors ++ [e]⟩)

end Session

end ScriptFront
