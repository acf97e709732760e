import ScriptFront.Token.Basic
import ScriptFront.Token.Scan

/-! # Reading tokens

A cursor is the text still unread and its place. Reading gives a token or an error and moves the
cursor in either case; looking ahead is a value of the cursor alone. -/

namespace ScriptFront

structure Cursor where
  rest : List Char
  location : Location
  deriving DecidableEq, Repr

namespace Cursor

/-- Before the first character of a text. -/
def ofText (text : String) : Cursor := ⟨text.toList, .start⟩

/-- Behind the next `n` characters. -/
def move (c : Cursor) (n : Nat) : Cursor := ⟨c.rest.drop n, c.location.after (c.rest.take n)⟩

/-- Behind the blanks and comments; a comment runs from `#` to the end of its line. -/
def skipFrom (comment : Bool) : List Char → Location → Cursor
  | [], l => ⟨[], l⟩
  | c :: cs, l =>
    if c = '\n' then skipFrom false cs (l.next c)
    else if comment || c = '#' then skipFrom true cs (l.next c)
    else if isBlank c then skipFrom false cs (l.next c)
    else ⟨c :: cs, l⟩

def skip (c : Cursor) : Cursor := skipFrom false c.rest c.location

/-- Reads one token. A token stands where it starts, an error where the reading stopped. -/
def next (c : Cursor) : Except LexError Token × Cursor :=
  let first := c.skip
  let found := scan first.rest
  let last := first.move found.width
  (match found.outcome with
    | .ok (kind, lexeme) => .ok ⟨kind, lexeme, first.location⟩
    | .error fault => .error ⟨fault, last.location⟩, last)

/-- The token `n` places behind the next one, or the first error on the way. -/
def nth : Nat → Cursor → Except LexError Token
  | 0, c => c.next.1
  | n + 1, c =>
    match c.next with
    | (.ok _, c) => nth n c
    | (.error e, _) => .error e

/-- The `n`-th token ahead, counted from one. -/
def look (c : Cursor) : Nat → Except LexError Token
  | 0 => .error ⟨.lookaheadTooShort, c.location⟩
  | n + 1 => c.nth n

theorem look_one (c : Cursor) : c.look 1 = c.next.1 := rfl

end Cursor

end ScriptFront
