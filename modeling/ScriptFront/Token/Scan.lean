import ScriptFront.Token.Error
import ScriptFront.Token.Kind
import ScriptFront.Text.Quoted

/-! # The token at the head of a text

Blanks and comments stand between tokens. At a character that is neither, `scan` finds the token
that starts there, or the fault, and how many characters it takes. -/

namespace ScriptFront

/-- The six characters that separate tokens. -/
def isBlank (c : Char) : Bool :=
  c = ' ' || c = '\t' || c = '\r' || c = '\n' || c = '\x0b' || c = '\x0c'

def isWordStart (c : Char) : Bool := c.isAlpha || c = '_'

def isWordRest (c : Char) : Bool := c.isAlphanum || c = '_'

def isNumeralChar (c : Char) : Bool := c.isDigit || c = '.'

/-- The token found, or the fault, and the number of characters it takes. -/
structure Scan where
  outcome : Except LexFault (TokenKind × Option String)
  width : Nat

namespace Scan

/-- A quotation whose opening quote `q` is already taken. -/
def quotation (q : Char) (cs : List Char) : Scan :=
  let r := Quoted.read q cs
  let content := String.ofList r.content
  { outcome := match r.ending with
      | .closed => .ok (.string, some content)
      | .unclosed => .error (.unclosedString content)
      | .danglingEscape => .error .danglingEscape
    width := r.width + 1 }

/-- Digits and points in any order: an integer without a point, a float with one. -/
def numeral (cs : List Char) : Scan :=
  let taken := cs.takeWhile isNumeralChar
  let lexeme := String.ofList taken
  { outcome := match taken.count '.' with
      | 0 => .ok (.integer, some lexeme)
      | 1 => .ok (.float, some lexeme)
      | _ => .error (.malformedNumber lexeme)
    width := taken.length }

/-- A reserved word or an identifier. -/
def word (cs : List Char) : Scan :=
  let taken := cs.takeWhile isWordRest
  let lexeme := String.ofList taken
  { outcome := match TokenKind.ofKeyword? lexeme with
      | some kind => .ok (kind, none)
      | none => .ok (.identifier, some lexeme)
    width := taken.length }

/-- The longest punctuation that begins the text. Two points that are not three are none. -/
def symbol? : List Char → Option (TokenKind × Nat)
  | '.' :: '.' :: cs => if cs.head? = some '.' then some (.ellipsis, 3) else none
  | cs => TokenKind.symbols.findSome? fun kind =>
    let letters := (kind.spelling.getD "").toList
    if letters.isPrefixOf cs then some (kind, letters.length) else none

end Scan

def scan : List Char → Scan
  | [] => ⟨.ok (.eof, none), 0⟩
  | c :: cs =>
    if c = '"' ∨ c = '\'' then .quotation c cs
    else if c.isDigit then .numeral (c :: cs)
    else if isWordStart c then .word (c :: cs)
    else match Scan.symbol? (c :: cs) with
      | some (kind, width) => ⟨.ok (kind, none), width⟩
      | none => ⟨.error (.unknownCharacter c), 0⟩

end ScriptFront
