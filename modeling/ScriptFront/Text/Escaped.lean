import ScriptFront.Text.Printable
import ScriptFront.Text.Combining

/-! # Text as messages quote it

Between double quotes, with everything a reader could not see or could mistake written as an
escape. -/

namespace ScriptFront.Text

/-- The Hangul fillers: letters by category, but they show as nothing. -/
def isFiller (c : Char) : Bool :=
  c = '\u115f' || c = '\u1160' || c = '\u3164' || c = '\uffa0'

/-- The half-width sound marks extend the character before them, but have a place of their own. -/
def isSoundMark (c : Char) : Bool := c = '\uff9e' || c = '\uff9f'

/-- Whether a reader sees the character by itself. -/
def isVisible (c : Char) : Bool :=
  isPrintable c && !isFiller c && (!isExtending c || isSoundMark c)

/-- One character inside a quotation. -/
def escapeChar (c : Char) : List Char :=
  match c with
  | '\x00' => ['\\', '0']
  | '\t' => ['\\', 't']
  | '\r' => ['\\', 'r']
  | '\n' => ['\\', 'n']
  | '"' => ['\\', '"']
  | '\\' => ['\\', '\\']
  | c =>
    if isVisible c then [c]
    else ['\\', 'u', '\x7b'] ++ Nat.toDigits 16 c.toNat ++ ['\x7d']

def escaped (s : String) : String :=
  "\"" ++ String.ofList (s.toList.flatMap escapeChar) ++ "\""

end ScriptFront.Text
