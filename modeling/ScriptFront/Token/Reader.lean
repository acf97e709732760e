import ScriptFront.Token.Stream

/-! # A reader that counts

A reader keeps the whole text, how many characters lie behind it, and the line and the column of the
next one. It goes back over two points that are not three, and from wherever looking ahead has led
it. It cannot go back over more than lies behind it: what would need that has no value. -/

namespace ScriptFront

/-- The operators that begin with one character: the character alone, with an equals sign, doubled,
and doubled with an equals sign. -/
structure Family where
  bare : TokenKind
  withEqual : TokenKind
  doubled : Option (TokenKind × Option TokenKind)
  deriving DecidableEq, Repr

def Family.of? : Char → Option Family
  | '=' => some ⟨.assign, .equal, none⟩
  | '!' => some ⟨.logNot, .notEqual, none⟩
  | '/' => some ⟨.divide, .divideAssign, none⟩
  | '%' => some ⟨.modulo, .moduloAssign, none⟩
  | '^' => some ⟨.bitXor, .bitXorAssign, none⟩
  | '~' => some ⟨.bitNot, .bitNotAssign, none⟩
  | '*' => some ⟨.multiply, .multiplyAssign, some (.power, some .powerAssign)⟩
  | '<' => some ⟨.less, .lessEqual, some (.shiftLeft, some .shiftLeftAssign)⟩
  | '>' => some ⟨.greater, .greaterEqual, some (.shiftRight, some .shiftRightAssign)⟩
  | '&' => some ⟨.bitAnd, .bitAndAssign, some (.logAnd, none)⟩
  | '|' => some ⟨.bitOr, .bitOrAssign, some (.logOr, none)⟩
  | '+' => some ⟨.plus, .plusAssign, some (.increment, none)⟩
  | '-' => some ⟨.minus, .minusAssign, some (.decrement, none)⟩
  | _ => none

/-- The kinds that are one character which begins nothing longer. -/
def TokenKind.ofMark? : Char → Option TokenKind
  | '(' => some .openParen
  | ')' => some .closeParen
  | '[' => some .openBracket
  | ']' => some .closeBracket
  | '\x7b' => some .openBrace
  | '\x7d' => some .closeBrace
  | ',' => some .comma
  | ':' => some .colon
  | ';' => some .semicolon
  | '?' => some .question
  | _ => none

structure Reader where
  text : Array Char
  position : Nat
  line : Nat
  column : Nat
  deriving DecidableEq, Repr

namespace Reader

def ofText (text : String) : Reader := ⟨text.toList.toArray, 0, 1, 1⟩

def location (r : Reader) : Location := ⟨r.line, r.column⟩

/-- The next character. -/
def peek (r : Reader) : Option Char := r.text[r.position]?

/-- Goes over one character; at the end it stays. -/
def advance (r : Reader) : Reader :=
  match r.peek with
  | none => r
  | some c =>
    if c = '\n' then { r with position := r.position + 1, line := r.line + 1, column := 1 }
    else { r with position := r.position + 1, column := r.column + 1 }

/-- Goes over the next character if it is `c`, and tells whether it is. -/
def accept (c : Char) (r : Reader) : Bool × Reader :=
  if r.peek = some c then (true, r.advance) else (false, r)

/-- Goes back over `n` characters of one line. -/
def back (n : Nat) (r : Reader) : Option Reader :=
  if n ≤ r.position ∧ n ≤ r.column then
    some { r with position := r.position - n, column := r.column - n }
  else none

def unread (r : Reader) : Nat := r.text.size - r.position

theorem unread_advance_lt {r : Reader} {c : Char} (h : r.peek = some c) :
    r.advance.unread < r.unread := by
  obtain ⟨hlt, -⟩ := Array.getElem?_eq_some_iff.mp h
  unfold advance
  rw [h]
  unfold unread
  dsimp only
  split <;> dsimp only <;> omega

/-- Goes over characters while they fit; `read` holds those taken before, last one first. -/
def takeWhile (p : Char → Bool) (r : Reader) (read : List Char) : List Char × Reader :=
  match h : r.peek with
  | none => (read.reverse, r)
  | some c =>
    have := unread_advance_lt h
    if p c then r.advance.takeWhile p (c :: read) else (read.reverse, r)
termination_by r.unread

theorem unread_takeWhile_le (p : Char → Bool) (r : Reader) (read : List Char) :
    (r.takeWhile p read).2.unread ≤ r.unread := by
  fun_induction takeWhile p r read with
  | case1 => exact Nat.le_refl _
  | case2 r read c h hlt hp ih => exact Nat.le_trans ih (Nat.le_of_lt hlt)
  | case3 => exact Nat.le_refl _

/-- Goes over the rest of the line. -/
def skipComment (r : Reader) : Reader := (r.takeWhile (fun c => c ≠ '\n') []).2

theorem unread_skipComment_lt {r : Reader} {c : Char} (h : r.peek = some c) (hc : c ≠ '\n') :
    r.skipComment.unread < r.unread := by
  unfold skipComment
  rw [takeWhile]
  split
  · rename_i h'
    rw [h] at h'
    cases h'
  · rename_i h'
    rw [h] at h'
    cases h'
    rw [if_pos (by simpa using hc)]
    exact Nat.lt_of_le_of_lt (unread_takeWhile_le _ _ _) (unread_advance_lt h)

/-- One point or three. Over two it goes back. -/
def points (r : Reader) : Option (Option TokenKind × Reader) :=
  let r := r.advance
  if r.peek ≠ some '.' then some (some .period, r)
  else
    match r.advance.accept '.' with
    | (true, r) => some (some .ellipsis, r)
    | (false, r) => (r.back 2).map fun r => (none, r)

/-- The longest operator of a family that `c` begins. -/
def operator (c : Char) (family : Family) (r : Reader) : TokenKind × Reader :=
  match r.advance.accept '=' with
  | (true, r) => (family.withEqual, r)
  | (false, r) =>
    match family.doubled with
    | none => (family.bare, r)
    | some (doubled, withEqual?) =>
      match r.accept c with
      | (false, r) => (family.bare, r)
      | (true, r) =>
        match withEqual? with
        | none => (doubled, r)
        | some withEqual =>
          match r.accept '=' with
          | (true, r) => (withEqual, r)
          | (false, r) => (doubled, r)

/-- A quotation whose opening quote `q` is behind; `read` holds what was read of it, last character
first. -/
def quotation (q : Char) (start : Location) (r : Reader) (read : List Char) :
    Except LexError Token × Reader :=
  match h : r.peek with
  | none => (.error ⟨.unclosedString (String.ofList read.reverse), r.location⟩, r)
  | some c =>
    have := unread_advance_lt h
    if c = '\n' then (.error ⟨.unclosedString (String.ofList read.reverse), r.location⟩, r)
    else if c = '\\' then
      match h' : r.advance.peek with
      | none => (.error ⟨.danglingEscape, r.advance.location⟩, r.advance)
      | some d =>
        have := unread_advance_lt h'
        if d = '\n' then (.error ⟨.danglingEscape, r.advance.location⟩, r.advance)
        else quotation q start r.advance.advance (d :: read)
    else if c = q then (.ok ⟨.string, some (String.ofList read.reverse), start⟩, r.advance)
    else quotation q start r.advance (c :: read)
termination_by r.unread

def numeral (r : Reader) : Except LexError Token × Reader :=
  let (taken, last) := r.takeWhile isNumeralChar []
  let lexeme := String.ofList taken
  (match taken.count '.' with
    | 0 => .ok ⟨.integer, some lexeme, r.location⟩
    | 1 => .ok ⟨.float, some lexeme, r.location⟩
    | _ => .error ⟨.malformedNumber lexeme, last.location⟩, last)

def word (r : Reader) : Except LexError Token × Reader :=
  let (taken, last) := r.takeWhile isWordRest []
  let lexeme := String.ofList taken
  (match TokenKind.ofKeyword? lexeme with
    | some kind => .ok ⟨kind, none, r.location⟩
    | none => .ok ⟨.identifier, some lexeme, r.location⟩, last)

/-- The token that begins with the next character `c`. -/
def classify (c : Char) (r : Reader) : Option (Except LexError Token × Reader) :=
  match TokenKind.ofMark? c with
  | some kind => some (.ok ⟨kind, none, r.location⟩, r.advance)
  | none =>
    if c = '.' then
      r.points.map fun (kind?, last) =>
        match kind? with
        | some kind => (.ok ⟨kind, none, r.location⟩, last)
        | none => (.error ⟨.unknownCharacter c, r.location⟩, last)
    else
      match Family.of? c with
      | some family =>
        let (kind, last) := r.operator c family
        some (.ok ⟨kind, none, r.location⟩, last)
      | none =>
        if c = '"' ∨ c = '\'' then some (r.advance.quotation c r.location [])
        else if c.isDigit then some r.numeral
        else if isWordStart c then some r.word
        else some (.error ⟨.unknownCharacter c, r.location⟩, r)

/-- Reads one token. -/
def next (r : Reader) : Option (Except LexError Token × Reader) :=
  match h : r.peek with
  | none => some (.ok ⟨.eof, none, r.location⟩, r)
  | some c =>
    have := unread_advance_lt h
    if isBlank c then r.advance.next
    else if hc : c = '#' then
      have := unread_skipComment_lt h (by rw [hc]; decide)
      r.skipComment.next
    else r.classify c
termination_by r.unread

/-- Reads `n` tokens and one more, up to the first error. -/
def nth : Nat → Reader → Option (Except LexError Token × Reader)
  | 0, r => r.next
  | n + 1, r =>
    match r.next with
    | some (.ok _, r) => nth n r
    | stopped => stopped

/-- Where a reader stands. -/
structure Mark where
  position : Nat
  line : Nat
  column : Nat

def save (r : Reader) : Mark := ⟨r.position, r.line, r.column⟩

def restore (m : Mark) (r : Reader) : Reader :=
  { r with position := m.position, line := m.line, column := m.column }

/-- The `n`-th token ahead, counted from one. The reader goes there and comes back. -/
def look (r : Reader) : Nat → Option (Except LexError Token × Reader)
  | 0 => some (.error ⟨.lookaheadTooShort, r.location⟩, r)
  | n + 1 =>
    let saved := r.save
    (r.nth n).map fun (result, r) => (result, r.restore saved)

/-- Reads up to the end; `read` holds the tokens read before, last token first. Where a token left
as much unread as before, the end would not come. -/
def tokensFrom (r : Reader) (read : List Token) :
    Option (Except LexError (List Token) × Reader) :=
  match r.next with
  | none => none
  | some (.error e, last) => some (.error e, last)
  | some (.ok t, last) =>
    if t.kind = .eof then some (.ok (t :: read).reverse, last)
    else if last.unread < r.unread then last.tokensFrom (t :: read)
    else none
termination_by r.unread

def tokenize (r : Reader) : Option (Except LexError (List Token) × Reader) := r.tokensFrom []

/-- Answers one request. -/
def answer (r : Reader) : Request → Option (Except LexError Reply × Reader)
  | .next => r.next.map fun (token, r) => (token.map .token, r)
  | .look n => (r.look n).map fun (token, r) => (token.map .token, r)
  | .tokenize => r.tokenize.map fun (tokens, r) => (tokens.map .tokens, r)

/-- Answers requests in order, each from where the one before left the reader. -/
def answers (r : Reader) : List Request → Option (List (Except LexError Reply × Reader))
  | [] => some []
  | q :: qs => do
    let step ← r.answer q
    let steps ← step.2.answers qs
    return step :: steps

end Reader

end ScriptFront
