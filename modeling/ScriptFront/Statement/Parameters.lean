import ScriptFront.Rule.Repeat
import ScriptFront.Statement.Basic

/-! # Rules for parameter lists

```text
parameters = [ parameter { "," parameter } ]
parameter  = NAME [ "=" constant ] | "..."
```

At most one parameter is an ellipsis, and it comes last; behind a parameter with a default every
named one has a default. A list is refused at its first parameter that breaks a rule. -/

namespace ScriptFront.Rule

/-- What a parameter list has shown so far. -/
structure ParametersSeen where
  /-- The parameters, last first. -/
  read : List Parameter
  ellipsis : Bool
  default : Bool

def ellipsisParameter (seen : ParametersSeen) (location : Location) : Rule ParametersSeen := do
  discard (expect .ellipsis)
  if seen.ellipsis then failAt location .repeatedEllipsis
  else return { seen with read := .variadic :: seen.read, ellipsis := true }

def namedParameter (constant : Rule Expr) (seen : ParametersSeen) (location : Location) :
    Rule ParametersSeen := do
  if seen.ellipsis && (← peek) = .identifier then failAt location .ellipsisNotLast
  else
    let name ← name
    if ← accept .assign then
      let default ← constant
      return { seen with read := .named name (some default) :: seen.read, default := true }
    else if seen.default then failAt location (.missingDefault name)
    else return { seen with read := .named name none :: seen.read }

def parameter (constant : Rule Expr) (seen : ParametersSeen) : Rule ParametersSeen := do
  let location ← here
  if (← peek) = .ellipsis then ellipsisParameter seen location
  else namedParameter constant seen location

/-- A parameter list up to the parenthesis that closes it. -/
def parametersWith (constant : Rule Expr) : Rule (List Parameter) := do
  if (← peek) = .closeParen then return []
  let first ← parameter constant ⟨[], false, false⟩
  let seen ← iterate (fun seen => do
    unless ← accept .comma do return none
    return some (← parameter constant seen)) first
  return seen.read.reverse

end ScriptFront.Rule
