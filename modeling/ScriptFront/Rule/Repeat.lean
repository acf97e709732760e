import ScriptFront.Rule.Basic

/-! # Repetition

A pass that goes on takes a token, so a repetition needs no more passes than there are tokens. The
unread characters bound their number. -/

namespace ScriptFront.Rule

variable {α β : Type}

/-- Repeats a pass until it declines; the list bounds the number of repetitions. -/
def repeatWithin (pass : α → Rule (Option α)) : List Char → α → Rule α
  | bound, a, s =>
    match pass a s with
    | .error e s => .error e s
    | .ok none s => .ok a s
    | .ok (some b) s =>
      match bound with
      | [] => .ok b s
      | _ :: bound => repeatWithin pass bound b s

/-- Repeats a pass on what the one before it made, until it declines. The tokens left are the
current one and at most one for each unread character. -/
def iterate (pass : α → Rule (Option α)) (a : α) : Rule α := fun s =>
  repeatWithin pass ('\n' :: s.cursor.rest) a s

/-- What an item yields, again and again up to a token of a kind that stops. -/
def manyUntil (stop : TokenKind → Bool) (item : Rule (Option β)) : Rule (List β) :=
  List.reverse <$> iterate (fun read => do
    if stop (← peek) then return none
    match ← item with
    | none => return some read
    | some b => return some (b :: read)) []

/-- One item and then one more behind each separator. -/
def separated (separator : TokenKind) (item : Rule β) : Rule (List β) := do
  let first ← item
  List.reverse <$> iterate (fun read => do
    unless ← accept separator do return none
    return some ((← item) :: read)) [first]

/-- A chain of operators on one level: a first operand, then links, each of which makes a new
value of what is read so far. Each link counts as one level on top of the deepest operand; the
level is checked once the link is read, at the operator of the link. -/
def chain (first : Rule α) (link : α → Rule (Option α)) : Rule α := do
  let outer ← modifyGet fun s => (s.peak, { s with peak := s.depth })
  let a ← first
  let (a, links) ← iterate (fun (a, links) => do
    let location ← here
    match ← link a with
    | none => return none
    | some b =>
      let s ← get
      if s.limit < s.peak + (links + 1) then failAt location (.nestingTooDeep s.limit)
      else return some (b, links + 1)) (a, 0)
  modify fun s => { s with peak := max outer (s.peak + links) }
  return a

end ScriptFront.Rule
